import SqlLexer.Proofs.SpanBytes

/-!
# Comments separate

A comment between two texts ends the first one and hides itself, whatever stands
in it.  Two things have to be seen for this.  The mark that opens the comment is
not taken by the text before it, and the first mark that closes it is the one at
its end.  No text is read on behind a blank either, unless it waits for a closing
mark, or for the end of its line.
-/

namespace SqlLexer

open TokenStream

namespace Comment

theorem throughClose?_append {body : Bytes} (neverCloses : ¬ascii "*/" <:+: body)
    (behind : Bytes) :
    throughClose? (body ++ (ascii "*/" ++ behind)) = some (body ++ ascii "*/") := by
  induction body with
  | nil => rfl
  | cons byte body ih =>
      rw [List.infix_cons_iff, not_or, ← isClose_iff] at neverCloses
      obtain ⟨notHere, notBehind⟩ := neverCloses
      have stillOpen : ¬IsClose byte (body ++ (ascii "*/" ++ behind)) := by
        rintro ⟨isStar, isSlash⟩
        cases body with
        | nil => exact absurd (Option.some.inj isSlash) (by decide)
        | cons next others => exact notHere ⟨isStar, isSlash⟩
      rw [List.cons_append, throughClose?_of_not_isClose stillOpen, ih notBehind]
      rfl

theorem throughLine_append_of_notMem {body : Bytes} (oneLine : Byte.lineFeed ∉ body)
    (behind : Bytes) : throughLine (body ++ Byte.lineFeed :: behind) = body ++ [Byte.lineFeed] := by
  induction body with
  | nil => rfl
  | cons byte body ih =>
      rw [List.mem_cons, not_or] at oneLine
      have notEnd : ¬(byte == Byte.lineFeed) = true := by
        simpa using Ne.symm oneLine.1
      rw [List.cons_append, throughLine, if_neg notEnd, ih oneLine.2]
      rfl

end Comment

namespace Lexeme

theorem reads_blockComment {body : Bytes} (neverCloses : ¬ascii "*/" <:+: body) (behind : Bytes) :
    (verbatim .comment (ascii "/*" ++ (body ++ ascii "*/"))).Reads
      (ascii "/*" ++ (body ++ ascii "*/")) behind := by
  have front : ofFront '/'.toUInt8 ('*'.toUInt8 :: (body ++ ascii "*/") ++ behind) =
      verbatim .comment (ascii "/*" ++ (body ++ ascii "*/")) := by
    change blockComment (body ++ ascii "*/" ++ behind) = _
    rw [List.append_assoc, blockComment_closed (Comment.throughClose?_append neverCloses behind)]
    rfl
  rw [← front]
  refine .front (by decide) ?_
  rw [front]
  rfl

theorem reads_lineComment {mark : UInt8} (marks : mark = '-'.toUInt8 ∨ mark = '/'.toUInt8)
    {body : Bytes} (oneLine : Byte.lineFeed ∉ body) (behind : Bytes) :
    (verbatim .comment (mark :: mark :: (body ++ [Byte.lineFeed]))).Reads
      (mark :: mark :: (body ++ [Byte.lineFeed])) behind := by
  have notBlank : Byte.isBlank mark = false := by
    rcases marks with rfl | rfl <;> decide
  have front : ofFront mark (mark :: (body ++ [Byte.lineFeed]) ++ behind) =
      verbatim .comment (mark :: mark :: (body ++ [Byte.lineFeed])) := by
    rw [List.cons_append, Reads.ofFront_doubled marks, lineComment, List.append_assoc,
      List.singleton_append, Comment.throughLine_append_of_notMem oneLine]
  rw [← front]
  refine .front notBlank ?_
  rw [front]
  rfl

end Lexeme

namespace Lexeme.Reads

variable {lexeme : Lexeme} {span : Bytes}

/-- A complete lexeme that ends with a blank is a comment with its line feed, and
reads the same whatever stands behind it. -/
theorem behindBlank (reads : lexeme.Reads span [])
    (notCutOff : ¬(lexeme.kind = .invalid ∧ span.head?.any Byte.opensText = true))
    (complete : (lexeme.toToken 0).isOpenLine = false)
    {last : UInt8} (isLast : span.getLast? = some last) (blank : Byte.isBlank last = true)
    (behind : Bytes) : lexeme.Reads span behind := by
  obtain ⟨other, isOther, ends⟩ := reads.ends_of_complete notCutOff complete
  obtain rfl : other = last := Option.some.inj (isOther.symm.trans isLast)
  rcases ends with plain | isQuote | single | ⟨_, readsOn⟩
  · rw [Byte.isBlank_of_isPlain plain] at blank
    cases blank
  · rw [isQuote_of_class (by decide) blank] at isQuote
    cases isQuote
  · rw [single] at reads
    cases reads with
    | front notBlank _ =>
        rw [blank] at notBlank
        cases notBlank
  · exact readsOn behind

end Lexeme.Reads

/-- A closed text whose last token is complete may be cut off behind a blank, or
where nothing stands yet, whatever stands behind it. -/
theorem Cuts.behindBlank {input : Bytes} (closed : IsClosed input)
    (complete : ∀ last, (ofBytes input).proper.getLast? = some last →
      last.token.isOpenLine = false)
    (endsBlank : input.getLast?.all Byte.isBlank = true) (behind : Bytes) : Cuts input behind := by
  induction input using front_induction with
  | blank input allBlank => exact .gap _ allBlank
  | front gap span rest lexeme gapBlank reads ih =>
      rw [ofBytes_of_reads gapBlank reads] at complete
      have readsOn : lexeme.Reads span (rest ++ behind) := by
        cases rest with
        | nil =>
            obtain ⟨last, isLast⟩ : ∃ last, span.getLast? = some last :=
              Option.isSome_iff_exists.mp (List.getLast?_isSome.mpr reads.span_ne_nil)
            have blank : Byte.isBlank last = true := by
              rw [List.append_nil, List.getLast?_append, isLast] at endsBlank
              exact endsBlank
            rw [ofBytes_of_allBlank .nil] at complete
            exact reads.behindBlank (closed.front gapBlank reads) (complete _ rfl) isLast blank
              behind
        | cons next others => exact reads.of_head?_eq rfl
      refine .behind gapBlank readsOn (ih (closed.behind gapBlank reads) ?_ ?_)
      · intro last found
        apply complete (last.shift (gap.length + span.length))
        simp only [push, shift, List.getLast?_cons, List.getLast?_map, found]
        rfl
      · rw [List.getLast?_append, List.getLast?_append] at endsBlank
        cases isLast : rest.getLast? with
        | none => rfl
        | some last =>
            rw [isLast] at endsBlank
            exact endsBlank

namespace TokenStream

theorem placeholders_visible (stream : TokenStream) :
    stream.visible.placeholders = stream.placeholders := by
  rw [placeholders, placeholders, visible, List.countP_filter]
  apply List.countP_congr
  intro entry _
  simp only [Token.isPlaceholder, Kind.isSkippable, Bool.and_eq_true, Bool.not_eq_true',
    beq_iff_eq, beq_eq_false_iff_ne]
  constructor
  · exact And.left
  · rintro ⟨isValueArgument, isMark⟩
    exact ⟨⟨isValueArgument, isMark⟩, by rw [isValueArgument]; decide⟩

/-- A comment shows nothing but moves what stands behind it. -/
theorem visible_comment_append {comment : Bytes}
    {behind : Bytes} (reads : (Lexeme.verbatim .comment comment).Reads comment behind) :
    (ofBytes (comment ++ behind)).visible = (ofBytes behind).visible.shift comment.length := by
  have stream := ofBytes_of_reads .nil reads
  rw [List.nil_append, List.length_nil, Nat.zero_add] at stream
  rw [stream, visible_push_of_isSkippable rfl, visible_shift]

end TokenStream

/-- Between the two texts stands another one that separates them and is not shown:
what is shown is that of the first text and that of the second one, moved by the
distance, and the placeholders are those of both. -/
structure Separates (before between behind : Bytes) (distance : Nat) : Prop where
  shown : (ofBytes (before ++ (between ++ behind))).visible.entries =
    (ofBytes before).visible.proper ++ (ofBytes behind).visible.entries.map (·.shift distance)
  tokens : ∀ config : Config, config.allowComments = false →
    (Lexer.start (before ++ (between ++ behind)) config).tokenize.answer =
      (Lexer.start before config).collect.answer ++
        (Lexer.start behind config).tokenize.answer.map fun token =>
          { token with offset := token.offset + distance }
  placeholders : ∀ config : Config,
    (Lexer.start (before ++ (between ++ behind)) config).tokenize.lexer.placeholders =
      (Lexer.start before config).tokenize.lexer.placeholders +
        (Lexer.start behind config).tokenize.lexer.placeholders

theorem Cuts.separates {before comment behind : Bytes} (cuts : Cuts before (comment ++ behind))
    (reads : (Lexeme.verbatim .comment comment).Reads comment behind) :
    Separates before comment behind (before.length + comment.length) := by
  have joined : (ofBytes (before ++ (comment ++ behind))).visible =
      (ofBytes before).visible.join (before.length + comment.length) (ofBytes behind).visible := by
    rw [cuts.stream_append, visible_join, visible_comment_append reads, join_shift]
  constructor
  · rw [joined, entries_join]
  · exact fun config hidden => Lexer.answer_tokenize_join joined hidden
  · intro config
    have counted (text : Bytes) : (Lexer.start text config).tokenize.lexer.placeholders =
        (ofBytes text).visible.placeholders :=
      (Lexer.placeholders_tokenize text config).trans (placeholders_visible _).symm
    rw [counted, counted, counted, joined, placeholders_join]

/-- A comment between two texts separates them and shows nothing, whatever stands
in it, as long as the first text leaves nothing open.  Before the mark of a block
comment any token may end but a slash, which would open a comment of one line with
it; before the mark of a comment of one line a blank is needed. -/
theorem comment_separates (before body behind : Bytes) (closed : IsClosed before)
    (complete : ∀ last, (ofBytes before).proper.getLast? = some last →
      last.token.isOpenLine = false) :
    (¬ascii "*/" <:+: body →
      (∀ last, (ofBytes before).proper.getLast? = some last → last.stop = before.length →
        last.token.kind ≠ .punctuation '/'.toUInt8) →
      Separates before (ascii "/*" ++ (body ++ ascii "*/")) behind
        (before.length + body.length + 4)) ∧
    (Byte.lineFeed ∉ body → before.getLast?.all Byte.isBlank = true →
      ∀ marks ∈ [ascii "--", ascii "//"],
        Separates before (marks ++ (body ++ [Byte.lineFeed])) behind
          (before.length + body.length + 3)) := by
  constructor
  · intro neverCloses notSlash
    have reads := Lexeme.reads_blockComment neverCloses behind
    have measured : before.length + (ascii "/*" ++ (body ++ ascii "*/")).length =
        before.length + body.length + 4 := by
      simp [ascii]
      omega
    have apart : ∀ last, (ofBytes before).proper.getLast? = some last →
        last.stop = before.length → ∀ first, ¬last.token.kind.JoinsStop first '/'.toUInt8 := by
      rintro last found atEnd _ ⟨rfl, isQuote | ⟨_, isSlash⟩⟩
      · cases isQuote
      · exact notSlash last found atEnd isSlash
    have cuts : Cuts before (ascii "/*" ++ (body ++ ascii "*/") ++ behind) :=
      Cuts.beforeStop closed complete (by decide) apart _
    rw [← measured]
    exact cuts.separates reads
  · intro oneLine endsBlank marks listed
    have measured : ∀ mark : UInt8,
        before.length + (mark :: mark :: (body ++ [Byte.lineFeed])).length =
          before.length + body.length + 3 := by
      intro mark
      simp
      omega
    have separates {mark : UInt8} (isMark : mark = '-'.toUInt8 ∨ mark = '/'.toUInt8) :
        Separates before (mark :: mark :: (body ++ [Byte.lineFeed])) behind
          (before.length + body.length + 3) := by
      rw [← measured mark]
      exact (Cuts.behindBlank closed complete endsBlank _).separates
        (Lexeme.reads_lineComment isMark oneLine behind)
    rcases List.mem_cons.mp listed with rfl | others
    · exact separates (.inl rfl)
    · rw [List.mem_singleton.mp others]
      exact separates (.inr rfl)

/-- A block comment glued to an exponent without digits, and a comment of one line
behind a minus sign and a blank, each with quotes, marks and placeholders in it. -/
theorem comment_separates_glued :
    (let before := ascii "? - 1e"
     let body := ascii "/ '?; -- /* *"
     let behind := ascii "+ ?"
     IsClosed before ∧
       (∀ last, (ofBytes before).proper.getLast? = some last → last.token.isOpenLine = false) ∧
       ¬ascii "*/" <:+: body ∧
       (∀ last, (ofBytes before).proper.getLast? = some last → last.stop = before.length →
         last.token.kind ≠ .punctuation '/'.toUInt8) ∧
       Separates before (ascii "/*" ++ (body ++ ascii "*/")) behind 23) ∧
    (let before := ascii "? - "
     let body := ascii "'?; /*"
     let behind := ascii "- ?"
     IsClosed before ∧
       (∀ last, (ofBytes before).proper.getLast? = some last → last.token.isOpenLine = false) ∧
       Byte.lineFeed ∉ body ∧ before.getLast?.all Byte.isBlank = true ∧
       Separates before (ascii "--" ++ (body ++ [Byte.lineFeed])) behind 13) := by
  constructor
  · intro before body behind
    have closed : IsClosed before := by unfold IsClosed; decide +kernel
    have lastEntry : (ofBytes before).proper.getLast? =
        some { token := { kind := .number, value := ascii "1e", offset := 4 }, stop := 6 } := by
      decide +kernel
    have complete : ∀ last, (ofBytes before).proper.getLast? = some last →
        last.token.isOpenLine = false := by
      intro last found
      cases lastEntry.symm.trans found
      rfl
    have neverCloses : ¬ascii "*/" <:+: body :=
      (Comment.throughClose?_eq_none_iff body).mp (by decide)
    have notSlash : ∀ last, (ofBytes before).proper.getLast? = some last →
        last.stop = before.length → last.token.kind ≠ .punctuation '/'.toUInt8 := by
      intro last found _
      cases lastEntry.symm.trans found
      simp
    exact ⟨closed, complete, neverCloses, notSlash,
      (comment_separates before body behind closed complete).1 neverCloses notSlash⟩
  · intro before body behind
    have closed : IsClosed before := by unfold IsClosed; decide +kernel
    have complete : ∀ last, (ofBytes before).proper.getLast? = some last →
        last.token.isOpenLine = false := by
      have lastEntry : (ofBytes before).proper.getLast? =
          some { token := Token.bare (.punctuation '-'.toUInt8) 2, stop := 3 } := by
        decide +kernel
      intro last found
      cases lastEntry.symm.trans found
      rfl
    have oneLine : Byte.lineFeed ∉ body := by decide
    have endsBlank : before.getLast?.all Byte.isBlank = true := by decide
    exact ⟨closed, complete, oneLine, endsBlank,
      (comment_separates before body behind closed complete).2 oneLine endsBlank _
        List.mem_cons_self⟩

end SqlLexer
