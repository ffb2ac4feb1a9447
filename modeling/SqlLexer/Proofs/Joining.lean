import SqlLexer.Proofs.Boundary
import SqlLexer.Proofs.Delimiting
import SqlLexer.Proofs.Locality
import SqlLexer.Proofs.Tiling

/-!
# Joining texts by blanks

Two texts with a blank between them are read one after the other, although the
place where they meet need not have been a boundary of the first one.  Only a
token that waits for a closing mark, or for the end of its line, would go on
behind that place.  A line that is still open takes the line feed behind it and
nothing more, so it changes but hides no other token.
-/

namespace SqlLexer

open TokenStream

/-- The end of the text cuts the token off: it is invalid, and begins with a
byte that opens text which needs a closing mark. -/
def Token.isCutOff (token : Token) (input : Bytes) : Bool :=
  token.isInvalid && input[token.offset]?.any Byte.opensText

/-- No quoted text and no block comment is cut off by the end of the text. -/
def IsClosed (input : Bytes) : Prop :=
  ∀ entry ∈ (ofBytes input).proper, entry.token.isCutOff input = false

namespace IsClosed

variable {gap span rest : Bytes} {lexeme : Lexeme}

theorem front (closed : IsClosed (gap ++ (span ++ rest))) (blank : AllBlank gap)
    (reads : lexeme.Reads span rest) :
    ¬(lexeme.kind = .invalid ∧ span.head?.any Byte.opensText = true) := by
  rintro ⟨invalid, opens⟩
  have member : { token := lexeme.toToken gap.length, stop := gap.length + span.length } ∈
      (ofBytes (gap ++ (span ++ rest))).proper := by
    rw [ofBytes_of_reads blank reads]
    exact List.mem_cons_self
  have notCutOff := closed _ member
  simp only [Token.isCutOff, Token.isInvalid, Lexeme.toToken, invalid, reads.getElem?_front gap,
    opens] at notCutOff
  cases notCutOff

theorem behind (closed : IsClosed (gap ++ (span ++ rest))) (blank : AllBlank gap)
    (reads : lexeme.Reads span rest) : IsClosed rest := by
  intro entry member
  have shifted : entry.shift (gap.length + span.length) ∈
      (ofBytes (gap ++ (span ++ rest))).proper := by
    rw [ofBytes_of_reads blank reads]
    exact List.mem_cons_of_mem _ (List.mem_map.mpr ⟨entry, member, rfl⟩)
  have notCutOff := closed _ shifted
  have sameByte : (gap ++ (span ++ rest))[entry.token.offset + (gap.length + span.length)]? =
      rest[entry.token.offset]? := by
    rw [← List.append_assoc, ← List.length_append,
      List.getElem?_append_right (Nat.le_add_left _ _), Nat.add_sub_cancel]
  simp only [Token.isCutOff, Entry.shift, sameByte] at notCutOff
  exact notCutOff

end IsClosed

theorem Kind.not_joinsStop_of_isBlank {stop : UInt8} (blank : Byte.isBlank stop = true)
    (kind : Kind) (first : UInt8) : ¬kind.JoinsStop first stop := by
  rintro ⟨rfl, isQuote | ⟨rfl, _⟩⟩
  · rw [Lexeme.isQuote_of_class (by decide) blank] at isQuote
    cases isQuote
  · revert blank
    decide

namespace Lexeme.Reads

variable {lexeme : Lexeme} {span : Bytes}

/-- A lexeme at the end of a text stays the same in front of a byte that ends
lexemes, unless it is open. -/
theorem beforeStop (reads : lexeme.Reads span [])
    (notCutOff : ¬(lexeme.kind = .invalid ∧ span.head?.any Byte.opensText = true))
    (notOpen : (lexeme.toToken 0).isOpenLine = false) {stop : UInt8}
    (ends : Byte.endsLexeme stop = true)
    (apart : ∀ first, span.head? = some first → ¬lexeme.kind.JoinsStop first stop)
    (behind : Bytes) : lexeme.Reads span (stop :: behind) := by
  cases reads with
  | @front first tail _ notBlank exactly =>
      rw [List.append_nil] at exactly notCutOff notOpen apart ⊢
      have closed : ¬IsOpen stop first (ofFront first tail) := by
        rintro (cutOff | isOpen | joins)
        · exact notCutOff cutOff
        · rw [notOpen] at isOpen
          cases isOpen
        · exact apart first rfl joins
      have same := ofFront_stopsAt first ends tail behind closed
      rw [← same] at exactly ⊢
      exact .front notBlank exactly

theorem exists_marks_of_openLine {rest : Bytes} (reads : lexeme.Reads span rest)
    (isOpen : (lexeme.toToken 0).isOpenLine = true) :
    ∃ mark body, (mark = '-'.toUInt8 ∨ mark = '/'.toUInt8) ∧ span = mark :: mark :: body := by
  simp only [Token.isOpenLine, Lexeme.toToken, Bool.and_eq_true, beq_iff_eq] at isOpen
  obtain ⟨⟨isComment, opens⟩, _⟩ := isOpen
  have spells := reads.spells
  rw [isComment] at spells
  have split := List.take_append_drop 2 span
  rw [spells.1] at opens
  rcases List.mem_cons.mp (List.contains_iff_mem.mp opens) with minus | others
  · rw [minus] at split
    exact ⟨'-'.toUInt8, span.drop 2, .inl rfl, split.symm⟩
  · rw [List.mem_singleton.mp others] at split
    exact ⟨'/'.toUInt8, span.drop 2, .inr rfl, split.symm⟩

theorem ofFront_doubled {mark : UInt8} (marks : mark = '-'.toUInt8 ∨ mark = '/'.toUInt8)
    (rest : Bytes) : ofFront mark (mark :: rest) = lineComment mark rest := by
  rcases marks with rfl | rfl <;> rfl

/-- An open line at the end of a text takes the line feed behind it, and stays a
comment. -/
theorem openLine (reads : lexeme.Reads span [])
    (isOpen : (lexeme.toToken 0).isOpenLine = true) :
    ∃ longer : Lexeme, longer.kind = .comment ∧
      ∀ behind, longer.Reads (span ++ [Byte.lineFeed]) behind := by
  obtain ⟨mark, body, marks, rfl⟩ := reads.exists_marks_of_openLine isOpen
  cases reads with
  | front notBlank exactly =>
      simp only [List.append_nil, ofFront_doubled marks] at exactly isOpen
      rw [isOpenLine_lineComment marks, bne_iff_ne] at isOpen
      have whole := Comment.throughLine_of_cutOff isOpen
      rw [whole] at isOpen
      refine ⟨verbatim .comment (mark :: mark :: (body ++ [Byte.lineFeed])), rfl, ?_⟩
      intro behind
      have longer : ofFront mark ((mark :: body ++ [Byte.lineFeed]) ++ behind) =
          verbatim .comment (mark :: mark :: (body ++ [Byte.lineFeed])) := by
        simp only [List.cons_append, List.append_assoc, List.nil_append, ofFront_doubled marks,
          lineComment, Comment.throughLine_append_lineFeed whole isOpen]
      rw [← longer]
      refine .front notBlank ?_
      rw [longer]
      rfl

/-- A line feed behind a text leaves its last lexeme as it is, unless that is an
open line: then it becomes the last byte of the comment. -/
theorem withLineFeed {rest : Bytes} (reads : lexeme.Reads span rest)
    (notCutOff : ¬(lexeme.kind = .invalid ∧ span.head?.any Byte.opensText = true)) :
    (∀ behind, lexeme.Reads span (rest ++ Byte.lineFeed :: behind)) ∨
      rest = [] ∧ lexeme.kind = .comment ∧ ∃ longer : Lexeme, longer.kind = .comment ∧
        ∀ behind, longer.Reads (span ++ [Byte.lineFeed]) behind := by
  cases rest with
  | cons next others => exact .inl fun behind => reads.of_head?_eq rfl
  | nil =>
      cases isOpen : (lexeme.toToken 0).isOpenLine with
      | false =>
          refine .inl fun behind => reads.beforeStop notCutOff isOpen (by decide) ?_ behind
          exact fun first _ => Kind.not_joinsStop_of_isBlank (by decide) _ first
      | true =>
          have isComment : lexeme.kind = .comment := by
            simp only [Token.isOpenLine, Lexeme.toToken, Bool.and_eq_true, beq_iff_eq] at isOpen
            exact isOpen.1.1
          exact .inr ⟨rfl, isComment, reads.openLine isOpen⟩

end Lexeme.Reads

/-- A text whose last token is complete may be cut off in front of a byte that
ends lexemes, unless the byte joins the token. -/
theorem Cuts.beforeStop {input : Bytes} (closed : IsClosed input)
    (complete : ∀ last, (ofBytes input).proper.getLast? = some last →
      last.token.isOpenLine = false)
    {stop : UInt8} (ends : Byte.endsLexeme stop = true)
    (apart : ∀ last, (ofBytes input).proper.getLast? = some last → last.stop = input.length →
      ∀ first, ¬last.token.kind.JoinsStop first stop)
    (behind : Bytes) : Cuts input (stop :: behind) := by
  induction input using front_induction with
  | blank input allBlank => exact .gap _ allBlank
  | front gap span rest lexeme gapBlank reads ih =>
      rw [ofBytes_of_reads gapBlank reads] at complete apart
      have readsOn : lexeme.Reads span (rest ++ stop :: behind) := by
        cases rest with
        | nil =>
            rw [ofBytes_of_allBlank .nil] at complete apart
            have atEnd : gap.length + span.length = (gap ++ (span ++ [])).length := by simp
            exact reads.beforeStop (closed.front gapBlank reads) (complete _ rfl) ends
              (fun first _ => apart _ rfl atEnd first) behind
        | cons next others => exact reads.of_head?_eq rfl
      have isLast {last : Entry} (found : (ofBytes rest).proper.getLast? = some last) :
          (((ofBytes rest).shift (gap.length + span.length)).push
            { token := lexeme.toToken gap.length
              stop := gap.length + span.length }).proper.getLast? =
            some (last.shift (gap.length + span.length)) := by
        simp only [push, shift, List.getLast?_cons, List.getLast?_map, found]
        rfl
      refine .behind gapBlank readsOn (ih (closed.behind gapBlank reads) ?_ ?_)
      · exact fun last found => complete (last.shift _) (isLast found)
      · intro last found atEnd
        apply apart (last.shift _) (isLast found)
        simp only [Entry.shift, atEnd, List.length_append]
        omega

namespace TokenStream

/-- The stream without its comments. -/
def visible (stream : TokenStream) : TokenStream :=
  { stream with proper := stream.proper.filter fun entry => !entry.token.kind.isSkippable }

theorem visible_push_of_isSkippable {entry : Entry}
    (skippable : entry.token.kind.isSkippable = true) (stream : TokenStream) :
    (stream.push entry).visible = stream.visible := by
  simp [visible, push, skippable]

theorem visible_shift (stream : TokenStream) (distance : Nat) :
    (stream.shift distance).visible = stream.visible.shift distance := by
  simp only [visible, shift, List.filter_map]
  rfl

theorem visible_join (first : TokenStream) (distance : Nat) (second : TokenStream) :
    (first.join distance second).visible = first.visible.join distance second.visible := by
  simp only [visible, join, List.filter_append, List.filter_map]
  rfl

theorem visible_push_congr {first second : TokenStream}
    (same : first.visible.proper = second.visible.proper) (distance : Nat) (entry : Entry) :
    ((first.shift distance).push entry).visible.proper =
      ((second.shift distance).push entry).visible.proper := by
  have sameShifted : (first.shift distance).visible.proper =
      (second.shift distance).visible.proper := by
    rw [visible_shift, visible_shift]
    exact congrArg (List.map (Entry.shift · distance)) same
  simp only [visible, push, List.filter_cons] at sameShifted ⊢
  rw [sameShifted]

theorem join_shift (first : TokenStream) (distance : Nat) (second : TokenStream) (more : Nat) :
    first.join distance (second.shift more) = first.join (distance + more) second := by
  simp only [join, shift, List.map_map, Function.comp_def, Entry.shift_shift, Nat.add_comm]

end TokenStream

/-- Behind a line feed every text may be cut that is closed otherwise, and the
line feed shows no token and hides none. -/
theorem IsClosed.lineFeed {input : Bytes} (closed : IsClosed input) :
    (∀ behind, Cuts (input ++ [Byte.lineFeed]) behind) ∧
      (ofBytes (input ++ [Byte.lineFeed])).visible.proper = (ofBytes input).visible.proper := by
  have lineFeedBlank : AllBlank [Byte.lineFeed] := by
    intro byte member
    rw [List.mem_singleton.mp member]
    decide
  induction input using front_induction with
  | blank input blank =>
      have longer := blank.append lineFeedBlank
      rw [ofBytes_of_allBlank blank, ofBytes_of_allBlank longer]
      exact ⟨fun behind => .gap behind longer, rfl⟩
  | front gap span rest lexeme blank reads ih =>
      obtain ⟨cuts, sameVisible⟩ := ih (closed.behind blank reads)
      rcases reads.withLineFeed (closed.front blank reads) with
        readsOn | ⟨rfl, isComment, longer, longerIsComment, readsLonger⟩
      · have regrouped : gap ++ (span ++ rest) ++ [Byte.lineFeed] =
            gap ++ (span ++ (rest ++ [Byte.lineFeed])) := by
          simp only [List.append_assoc]
        rw [regrouped]
        constructor
        · intro behind
          have readsBehind : lexeme.Reads span (rest ++ [Byte.lineFeed] ++ behind) := by
            rw [List.append_assoc]
            exact readsOn behind
          exact .behind blank readsBehind (cuts behind)
        · rw [ofBytes_of_reads blank (readsOn []), ofBytes_of_reads blank reads]
          exact visible_push_congr sameVisible _ _
      · have regrouped : gap ++ (span ++ []) ++ [Byte.lineFeed] =
            gap ++ ((span ++ [Byte.lineFeed]) ++ []) := by
          simp only [List.append_assoc, List.append_nil]
        have skippable (token : Token) (comment : token.kind = .comment) :
            token.kind.isSkippable = true := by
          rw [comment]
          rfl
        rw [regrouped]
        constructor
        · intro behind
          exact .behind blank (readsLonger behind) (.gap behind .nil)
        · rw [ofBytes_of_reads blank (readsLonger []), ofBytes_of_reads blank reads,
            visible_push_of_isSkippable (skippable _ longerIsComment),
            visible_push_of_isSkippable (skippable _ isComment), visible_shift, visible_shift,
            ofBytes_of_allBlank .nil]
          rfl

theorem TokenStream.ofBytes_append_gap {before gap : Bytes} (closed : IsClosed before)
    (complete : ∀ last, (ofBytes before).proper.getLast? = some last →
      last.token.isOpenLine = false)
    (blank : AllBlank gap) (separated : gap ≠ []) (behind : Bytes) :
    ofBytes (before ++ (gap ++ behind)) =
      (ofBytes before).join (before.length + gap.length) (ofBytes behind) := by
  obtain ⟨stop, others, rfl⟩ := List.exists_cons_of_ne_nil separated
  have stopBlank := blank stop List.mem_cons_self
  have cuts := Cuts.beforeStop closed complete (Byte.endsLexeme_of_isBlank stopBlank)
    (fun _ _ _ => Kind.not_joinsStop_of_isBlank stopBlank _) (others ++ behind)
  rw [← List.cons_append] at cuts
  rw [cuts.stream_append, ofBytes_gap_append blank, join_shift]

theorem TokenStream.visible_append_lineFeed {before gap : Bytes} (closed : IsClosed before)
    (blank : AllBlank gap) (endsLine : gap.head? = some Byte.lineFeed) (behind : Bytes) :
    (ofBytes (before ++ (gap ++ behind))).visible =
      (ofBytes before).visible.join (before.length + gap.length) (ofBytes behind).visible := by
  obtain ⟨others, rfl⟩ := List.head?_eq_some_iff.mp endsLine
  have othersBlank : AllBlank others := fun byte member =>
    blank byte (List.mem_cons_of_mem _ member)
  obtain ⟨cuts, sameVisible⟩ := closed.lineFeed
  have regrouped : before ++ (Byte.lineFeed :: others ++ behind) =
      (before ++ [Byte.lineFeed]) ++ (others ++ behind) := by
    simp only [List.cons_append, List.append_assoc, List.nil_append]
  have measured : (before ++ [Byte.lineFeed]).length + others.length =
      before.length + (Byte.lineFeed :: others).length := by
    simp only [List.length_append, List.length_cons, List.length_nil]
    omega
  rw [regrouped, (cuts (others ++ behind)).stream_append, ofBytes_gap_append othersBlank,
    join_shift, measured, visible_join, join, join, sameVisible]

/-- Tokenizing gives what the stream shows, as long as comments are hidden. -/
theorem Lexer.answer_tokenize_visible (input : Bytes) {config : Config}
    (hidden : config.allowComments = false) :
    (start input config).tokenize.answer = (ofBytes input).visible.entries.map Entry.token := by
  have finalShown : (ofBytes input).final.token.kind.isSkippable = false := by
    rw [kind_final]
    rfl
  rw [answer_tokenize, entries, List.filter_append]
  simp [hidden, finalShown, visible, entries]

theorem Lexer.answer_tokenize_join {whole before behind : Bytes} {distance : Nat}
    (joined : (ofBytes whole).visible =
      (ofBytes before).visible.join distance (ofBytes behind).visible)
    {config : Config} (hidden : config.allowComments = false) :
    (start whole config).tokenize.answer =
      (start before config).collect.answer ++
        (start behind config).tokenize.answer.map fun token =>
          { token with offset := token.offset + distance } := by
  have collected : (start before config).collect.answer =
      (ofBytes before).visible.proper.map Entry.token := by
    rw [collect_eq, Reply.map, answer_tokenize_visible before hidden, entries, List.map_append]
    exact List.dropLast_concat
  rw [answer_tokenize_visible _ hidden, answer_tokenize_visible _ hidden, collected, joined,
    entries_join, List.map_append, List.map_map, List.map_map]
  rfl

/-- Two texts with blanks between them are read one after the other, unless the
end of the first one cuts off quoted text or a comment.  If the blanks begin with
a line feed, a comment of one line may be cut off as well, since only itself is
changed: what is shown stays the same. -/
theorem stream_join (before gap behind : Bytes) (blank : AllBlank gap) (separated : gap ≠ [])
    (closed : IsClosed before) :
    let distance := before.length + gap.length
    ((∀ last, (ofBytes before).proper.getLast? = some last → last.token.isOpenLine = false) →
        (ofBytes (before ++ (gap ++ behind))).entries =
          (ofBytes before).proper ++ (ofBytes behind).entries.map (·.shift distance)) ∧
      (gap.head? = some Byte.lineFeed → ∀ config : Config, config.allowComments = false →
        (Lexer.start (before ++ (gap ++ behind)) config).tokenize.answer =
          (Lexer.start before config).collect.answer ++
            (Lexer.start behind config).tokenize.answer.map fun token =>
              { token with offset := token.offset + distance }) := by
  intro distance
  constructor
  · intro complete
    rw [ofBytes_append_gap closed complete blank separated, entries_join]
  · intro endsLine config hidden
    have joined := visible_append_lineFeed closed blank endsLine behind
    exact Lexer.answer_tokenize_join joined hidden

/-- A tab keeps an exclamation mark from the equals sign behind it, and a line
feed ends a comment that has a quote in it. -/
theorem stream_join_error_and_comment :
    (let before := ascii "08 !"
     let gap := ascii "\t"
     let behind := ascii "= 1"
     AllBlank gap ∧ gap ≠ [] ∧ IsClosed before ∧
       (∀ last, (ofBytes before).proper.getLast? = some last → last.token.isOpenLine = false) ∧
       (ofBytes (before ++ (gap ++ behind))).entries =
         (ofBytes before).proper ++ (ofBytes behind).entries.map (·.shift 5)) ∧
    (let before := ascii "? -- '"
     let gap := ascii "\n "
     let behind := ascii "= 1"
     AllBlank gap ∧ gap ≠ [] ∧ IsClosed before ∧ gap.head? = some Byte.lineFeed ∧
       (Lexer.start (before ++ (gap ++ behind)) .default).tokenize.answer =
         (Lexer.start before .default).collect.answer ++
           (Lexer.start behind .default).tokenize.answer.map fun token =>
             { token with offset := token.offset + 8 }) := by
  constructor
  · intro before gap behind
    have blank : AllBlank gap := by unfold AllBlank; decide +kernel
    have separated : gap ≠ [] := by decide
    have closed : IsClosed before := by unfold IsClosed; decide +kernel
    have complete : ∀ last, (ofBytes before).proper.getLast? = some last →
        last.token.isOpenLine = false := by
      have last : (ofBytes before).proper.getLast? =
          some { token := { kind := .invalid, value := ascii "!", offset := 3 }, stop := 4 } := by
        decide +kernel
      intro other isLast
      cases last.symm.trans isLast
      rfl
    exact ⟨blank, separated, closed, complete,
      (stream_join before gap behind blank separated closed).1 complete⟩
  · intro before gap behind
    have blank : AllBlank gap := by unfold AllBlank; decide +kernel
    have separated : gap ≠ [] := by decide
    have closed : IsClosed before := by unfold IsClosed; decide +kernel
    have endsLine : gap.head? = some Byte.lineFeed := by decide
    exact ⟨blank, separated, closed, endsLine,
      (stream_join before gap behind blank separated closed).2 endsLine .default rfl⟩

end SqlLexer
