import SqlLexer.Proofs.SessionStream

/-!
# Cutting a text between two tokens

A place is a boundary of a stream when no token reaches over it.  A text may be
cut at any boundary: its stream is then the stream of the first part without
the end, and behind it the stream of the second part, moved by the place.  Both
facts about lookahead are needed for this.  The last token of the first part
comes out the same when the input ends behind it, and scanning the second part
does not depend on anything that was scanned before.
-/

namespace SqlLexer

namespace TokenStream

/-- The entries of one stream without its end, and another stream behind them,
with `distance` bytes in front. -/
def join (first : TokenStream) (distance : Nat) (second : TokenStream) : TokenStream :=
  { proper := first.proper ++ second.proper.map (·.shift distance)
    final := second.final.shift distance }

theorem entries_join (first : TokenStream) (distance : Nat) (second : TokenStream) :
    (first.join distance second).entries =
      first.proper ++ second.entries.map (·.shift distance) := by
  simp [join, entries]

@[simp] theorem join_push (first : TokenStream) (entry : Entry) (distance : Nat)
    (second : TokenStream) :
    (first.push entry).join distance second = (first.join distance second).push entry :=
  rfl

@[simp] theorem shift_join (first : TokenStream) (distance : Nat) (second : TokenStream)
    (more : Nat) :
    (first.join distance second).shift more =
      (first.shift more).join (more + distance) second := by
  simp [join, shift, Entry.shift, Function.comp_def, Nat.add_comm, Nat.add_left_comm]

theorem join_of_proper_nil {first : TokenStream} (empty : first.proper = [])
    (distance : Nat) (second : TokenStream) :
    first.join distance second = second.shift distance := by
  rw [join, empty, List.nil_append]
  rfl

@[simp] theorem entryAt_push_succ (stream : TokenStream) (entry : Entry) (index : Nat) :
    (stream.push entry).entryAt (index + 1) = stream.entryAt index :=
  rfl

@[simp] theorem entryAt_shift (stream : TokenStream) (distance index : Nat) :
    (stream.shift distance).entryAt index = (stream.entryAt index).shift distance := by
  simp only [entryAt, shift, List.getD_eq_getElem?_getD, List.getElem?_map]
  cases stream.proper[index]? <;> rfl

/-- The end of the entry before an index, or the start of the text. -/
def stopBefore (stream : TokenStream) : Nat → Nat
  | 0 => 0
  | index + 1 => (stream.entryAt index).stop

/-- The place lies between the end of one entry and the start of the next one. -/
def IsBoundary (stream : TokenStream) (place : Nat) : Prop :=
  ∃ index, stream.stopBefore index ≤ place ∧ place ≤ (stream.entryAt index).token.offset

theorem stopBefore_push_succ (stream : TokenStream) (token : Token) (distance index : Nat) :
    ((stream.shift distance).push { token, stop := distance }).stopBefore (index + 1) =
      stream.stopBefore index + distance := by
  cases index with
  | zero => exact (Nat.zero_add distance).symm
  | succ index =>
      rw [stopBefore, entryAt_push_succ, entryAt_shift]
      rfl

end TokenStream

open TokenStream

/-- The text `kept ++ more` is cut where no lexeme reaches over. -/
inductive Cuts : Bytes → Bytes → Prop where
  | gap {kept : Bytes} (more : Bytes) : AllBlank kept → Cuts kept more
  | behind {gap span kept more : Bytes} {lexeme : Lexeme} :
      AllBlank gap → lexeme.Reads span (kept ++ more) → Cuts kept more →
      Cuts (gap ++ (span ++ kept)) more

theorem TokenStream.ofBytes_gap_append {gap : Bytes} (blank : AllBlank gap) (rest : Bytes) :
    ofBytes (gap ++ rest) = (ofBytes rest).shift gap.length := by
  rcases allBlank_or_reads rest with
    restBlank | ⟨restGap, span, behind, lexeme, rfl, restGapBlank, reads⟩
  · rw [ofBytes_of_allBlank (blank.append restBlank), ofBytes_of_allBlank restBlank]
    simp [shift, Entry.shift, Token.bare, Nat.add_comm]
  · rw [← List.append_assoc, ofBytes_of_reads (blank.append restGapBlank) reads,
      ofBytes_of_reads restGapBlank reads, shift_push, shift_shift]
    have offsets : gap.length + restGap.length = restGap.length + gap.length :=
      Nat.add_comm _ _
    have stops : gap.length + restGap.length + span.length =
        restGap.length + span.length + gap.length := by
      omega
    simp only [Entry.shift, Lexeme.toToken, List.length_append, offsets, ← stops]

namespace Cuts

variable {kept more : Bytes}

/-- A cut divides the stream. -/
theorem stream_append (cuts : Cuts kept more) :
    ofBytes (kept ++ more) = (ofBytes kept).join kept.length (ofBytes more) := by
  induction cuts with
  | gap more blank =>
      rw [ofBytes_gap_append blank, ofBytes_of_allBlank blank, join_of_proper_nil rfl]
  | @behind gap span kept more lexeme blank reads cuts ih =>
      have regrouped : gap ++ (span ++ kept) ++ more = gap ++ (span ++ (kept ++ more)) := by
        simp
      rw [regrouped, ofBytes_of_reads blank reads, ih, ofBytes_of_reads blank reads.cut,
        shift_join, join_push, List.length_append, List.length_append, Nat.add_assoc]

theorem swap {next : UInt8} (cuts : Cuts kept (next :: more)) (other : Bytes) :
    Cuts kept (next :: other) := by
  generalize behindCut : next :: more = behind at cuts
  induction cuts with
  | gap _ blank => exact .gap _ blank
  | @behind gap span kept _ lexeme blank reads cuts ih =>
      subst behindCut
      have swapped : lexeme.Reads span (kept ++ next :: other) := by
        cases kept with
        | nil => exact reads.swap other
        | cons first others => exact reads.swap (others ++ next :: other)
      exact .behind blank swapped (ih rfl)

theorem atEnd (input : Bytes) : Cuts input [] := by
  induction input using front_induction with
  | blank input blank => exact .gap [] blank
  | front gap span rest lexeme blank reads ih =>
      have readsAlone : lexeme.Reads span (rest ++ []) := by
        rw [List.append_nil]
        exact reads
      exact .behind blank readsAlone ih

end Cuts

/-- A boundary of the stream cuts the text. -/
theorem TokenStream.IsBoundary.cuts {input : Bytes} {place : Nat}
    (boundary : (ofBytes input).IsBoundary place) :
    ∃ kept more, input = kept ++ more ∧ kept.length = place ∧ Cuts kept more := by
  induction input using front_induction generalizing place with
  | blank input blank =>
      obtain ⟨index, _, before⟩ := boundary
      rw [ofBytes_of_allBlank blank] at before
      exact ⟨input.take place, input.drop place, (List.take_append_drop place input).symm,
        List.length_take_of_le before, .gap _ (blank.take place)⟩
  | front gap span rest lexeme blank reads ih =>
      obtain ⟨index, behind, before⟩ := boundary
      rw [ofBytes_of_reads blank reads] at behind before
      cases index with
      | zero =>
          have inGap : place ≤ gap.length := before
          refine ⟨gap.take place, gap.drop place ++ (span ++ rest), ?_,
            List.length_take_of_le inGap, .gap _ (blank.take place)⟩
          rw [← List.append_assoc (gap.take place), List.take_append_drop]
      | succ index =>
          rw [stopBefore_push_succ] at behind
          rw [entryAt_push_succ, entryAt_shift] at before
          simp only [Entry.shift] at before
          have inRest : (ofBytes rest).IsBoundary (place - (gap.length + span.length)) :=
            ⟨index, by omega, by omega⟩
          obtain ⟨kept, more, rfl, measured, cuts⟩ := ih inRest
          refine ⟨gap ++ (span ++ kept), more, by simp, ?_, .behind blank reads cuts⟩
          simp only [List.length_append, measured]
          omega

theorem isBoundary_offset (input : Bytes) (index : Nat) :
    (ofBytes input).IsBoundary ((ofBytes input).entryAt index).token.offset := by
  refine ⟨index, ?_, Nat.le_refl _⟩
  induction input using front_induction generalizing index with
  | blank input blank =>
      rw [ofBytes_of_allBlank blank]
      cases index with
      | zero => exact Nat.zero_le _
      | succ index => exact Nat.le_refl _
  | front gap span rest lexeme blank reads ih =>
      rw [ofBytes_of_reads blank reads]
      cases index with
      | zero => exact Nat.zero_le _
      | succ index =>
          rw [stopBefore_push_succ, entryAt_push_succ, entryAt_shift]
          exact Nat.add_le_add_right (ih index) _

/-- A place of the text is a boundary, unless a token reaches over it. -/
theorem TokenStream.isBoundary_or_covered {input : Bytes} {place : Nat}
    (inside : place ≤ input.length) :
    (ofBytes input).IsBoundary place ∨
      ∃ entry ∈ (ofBytes input).proper, entry.token.offset < place ∧ place < entry.stop := by
  induction input using front_induction generalizing place with
  | blank input blank =>
      rw [ofBytes_of_allBlank blank]
      exact .inl ⟨0, Nat.zero_le _, inside⟩
  | front gap span rest lexeme blank reads ih =>
      rw [ofBytes_of_reads blank reads]
      by_cases inGap : place ≤ gap.length
      · exact .inl ⟨0, Nat.zero_le _, inGap⟩
      by_cases inSpan : place < gap.length + span.length
      · exact .inr ⟨_, List.mem_cons_self, Nat.not_le.mp inGap, inSpan⟩
      obtain ⟨further, rfl⟩ := Nat.exists_eq_add_of_le (Nat.not_lt.mp inSpan)
      rw [List.length_append, List.length_append] at inside
      rcases @ih further (by omega) with
        ⟨index, behind, before⟩ | ⟨entry, member, begins, ends⟩
      · refine .inl ⟨index + 1, ?_, ?_⟩
        · rw [stopBefore_push_succ]
          omega
        · rw [entryAt_push_succ, entryAt_shift]
          simp only [Entry.shift]
          omega
      · refine .inr ⟨entry.shift (gap.length + span.length),
          List.mem_cons_of_mem _ (List.mem_map_of_mem member), ?_, ?_⟩
        · simp only [Entry.shift]
          omega
        · simp only [Entry.shift]
          omega

theorem TokenStream.exists_entryAt_of_mem {stream : TokenStream} {entry : Entry}
    (member : entry ∈ stream.entries) : ∃ index, stream.entryAt index = entry := by
  rcases List.mem_append.mp member with proper | final
  · obtain ⟨index, inside, rfl⟩ := List.getElem_of_mem proper
    exact ⟨index, (getElem_eq_entryAt inside).symm⟩
  · rw [List.mem_singleton.mp final]
    exact ⟨stream.proper.length, entryAt_of_ge (Nat.le_refl _)⟩

/-! ## Many cuts -/

/-- The text cut at ascending places, counted from its start at `start`. -/
def Bytes.cutAt (input : Bytes) (start : Nat) : List Nat → List Bytes
  | [] => [input]
  | place :: places =>
    input.take (place - start) :: Bytes.cutAt (input.drop (place - start)) place places

theorem Bytes.flatten_cutAt (input : Bytes) (start : Nat) (places : List Nat) :
    (input.cutAt start places).flatten = input := by
  induction places generalizing input start with
  | nil => exact List.append_nil input
  | cons place places ih =>
      rw [cutAt, List.flatten_cons, ih, List.take_append_drop]

theorem Bytes.cutAt_shift (input : Bytes) (start distance : Nat) (places : List Nat) :
    input.cutAt (start + distance) (places.map (· + distance)) = input.cutAt start places := by
  induction places generalizing input start with
  | nil => rfl
  | cons place places ih =>
      rw [List.map_cons, cutAt, cutAt, Nat.add_sub_add_right, ih]

theorem Bytes.cutAt_append (lead rest : Bytes) (places : List Nat) :
    ∃ part parts, rest.cutAt 0 places = part :: parts ∧
      (lead ++ rest).cutAt 0 (places.map (· + lead.length)) = (lead ++ part) :: parts := by
  cases places with
  | nil => exact ⟨rest, [], rfl, rfl⟩
  | cons place places =>
      refine ⟨rest.take place, Bytes.cutAt (rest.drop place) place places, rfl, ?_⟩
      have later := cutAt_shift (rest.drop place) place lead.length places
      have taken : (lead ++ rest).take (place + lead.length) = lead ++ rest.take place := by
        rw [Nat.add_comm, List.take_length_add_append]
      have dropped : (lead ++ rest).drop (place + lead.length) = rest.drop place := by
        rw [Nat.add_comm, List.drop_length_add_append]
      rw [List.map_cons, cutAt, Nat.sub_zero, taken, dropped, later]

namespace TokenStream

/-- The streams of texts that stand one behind the other, each read on its own. -/
def joinAll : List Bytes → TokenStream
  | [] => ofBytes []
  | part :: parts => (ofBytes part).join part.length (joinAll parts)

def placeholders (stream : TokenStream) : Nat :=
  stream.proper.countP (·.token.isPlaceholder)

@[simp] theorem placeholders_join (first : TokenStream) (distance : Nat)
    (second : TokenStream) :
    (first.join distance second).placeholders = first.placeholders + second.placeholders := by
  rw [placeholders, join, List.countP_append, List.countP_map]
  rfl

theorem placeholders_joinAll (parts : List Bytes) :
    (joinAll parts).placeholders =
      (parts.map fun part => (ofBytes part).placeholders).foldr (· + ·) 0 := by
  induction parts with
  | nil =>
      rw [joinAll, ofBytes_of_allBlank .nil]
      rfl
  | cons part parts ih =>
      rw [joinAll, placeholders_join, ih, List.map_cons, List.foldr_cons]

/-- The ends of the entries of a kind. -/
def stopsOf (kind : Kind) (stream : TokenStream) : List Nat :=
  (stream.proper.filter (·.token.kind == kind)).map Entry.stop

theorem stopsOf_shift (kind : Kind) (stream : TokenStream) (distance : Nat) :
    (stream.shift distance).stopsOf kind = (stream.stopsOf kind).map (· + distance) := by
  simp only [stopsOf, shift, List.filter_map, List.map_map]
  rfl

theorem stopsOf_push (kind : Kind) (stream : TokenStream) (entry : Entry) :
    (stream.push entry).stopsOf kind =
      if entry.token.kind == kind then entry.stop :: stream.stopsOf kind
      else stream.stopsOf kind := by
  simp only [stopsOf, push, List.filter_cons]
  split <;> rfl

theorem join_ofBytes_nil (input : Bytes) :
    (ofBytes input).join input.length (ofBytes []) = ofBytes input := by
  have whole := (Cuts.atEnd input).stream_append
  rw [List.append_nil] at whole
  exact whole.symm

/-- A text cut behind every token of a kind is read part by part. -/
theorem ofBytes_eq_joinAll (kind : Kind) (input : Bytes) :
    ofBytes input = joinAll (input.cutAt 0 ((ofBytes input).stopsOf kind)) := by
  induction input using front_induction with
  | blank input blank =>
      have noStops : (ofBytes input).stopsOf kind = [] := by
        rw [ofBytes_of_allBlank blank]
        rfl
      rw [noStops]
      exact (join_ofBytes_nil input).symm
  | front gap span rest lexeme blank reads ih =>
      have measured : (gap ++ span).length = gap.length + span.length := List.length_append
      have regrouped : gap ++ (span ++ rest) = (gap ++ span) ++ rest :=
        (List.append_assoc gap span rest).symm
      have unfolded := ofBytes_of_reads blank reads
      have stops := stopsOf_push kind ((ofBytes rest).shift (gap.length + span.length))
        { token := lexeme.toToken gap.length, stop := gap.length + span.length }
      rw [← unfolded, stopsOf_shift, ← measured] at stops
      by_cases cutsHere : (lexeme.toToken gap.length).kind == kind
      · have cuts : Cuts (gap ++ span) rest := by
          have behind : Cuts (gap ++ (span ++ [])) rest :=
            .behind blank reads (.gap rest .nil)
          rw [List.append_nil] at behind
          exact behind
        have shifted := Bytes.cutAt_shift rest 0 (gap ++ span).length ((ofBytes rest).stopsOf kind)
        rw [Nat.zero_add] at shifted
        rw [if_pos cutsHere] at stops
        rw [stops, regrouped, Bytes.cutAt, Nat.sub_zero, List.take_left, List.drop_left, shifted,
          joinAll, ← ih, cuts.stream_append]
      · rw [if_neg cutsHere] at stops
        obtain ⟨part, parts, cutRest, cutWhole⟩ :=
          Bytes.cutAt_append (gap ++ span) rest ((ofBytes rest).stopsOf kind)
        have rejoined : part ++ parts.flatten = rest := by
          rw [← Bytes.flatten_cutAt rest 0 ((ofBytes rest).stopsOf kind), cutRest,
            List.flatten_cons]
        rw [stops, regrouped, cutWhole, joinAll, ← regrouped, unfolded, ih, cutRest, joinAll,
          shift_join]
        rw [← rejoined] at reads
        rw [List.append_assoc, ofBytes_of_reads blank reads.cut, join_push]
        simp only [List.length_append, Nat.add_assoc]

end TokenStream

/-- A text may be cut at any boundary of its stream: the streams of the parts
make up that of the whole, and so do their placeholders.  Cut behind each of its
semicolon tokens, it is read statement by statement. -/
theorem stream_cut (input : Bytes) (config : Config) :
    let placeholders := fun text => (Lexer.start text config).tokenize.lexer.placeholders
    let statements := input.cutAt 0 ((ofBytes input).stopsOf (.punctuation ';'.toUInt8))
    (∀ place, (ofBytes input).IsBoundary place →
        (ofBytes input).entries =
            (ofBytes (input.take place)).proper ++
              (ofBytes (input.drop place)).entries.map (·.shift place) ∧
          placeholders input =
            placeholders (input.take place) + placeholders (input.drop place)) ∧
      statements.flatten = input ∧ ofBytes input = joinAll statements ∧
        placeholders input = (statements.map placeholders).foldr (· + ·) 0 := by
  intro placeholders statements
  have counted : placeholders = fun text => (ofBytes text).placeholders := by
    funext text
    exact Lexer.placeholders_tokenize text config
  have inStatements : ofBytes input = joinAll statements := ofBytes_eq_joinAll _ input
  refine ⟨?_, Bytes.flatten_cutAt input 0 _, inStatements, ?_⟩
  · intro place boundary
    obtain ⟨kept, more, rfl, rfl, cuts⟩ := boundary.cuts
    rw [counted, List.take_left, List.drop_left]
    dsimp only
    rw [cuts.stream_append]
    exact ⟨entries_join _ _ _, placeholders_join _ _ _⟩
  · rw [counted]
    dsimp only
    rw [inStatements, placeholders_joinAll]

/-- A cut between two blanks, behind a literal and before a comment.  The
semicolons inside them end no statement. -/
theorem stream_cut_before_comment :
    let input := ascii "('?;'  -- ;\n , ?); 1.5"
    let placeholders := fun text => (Lexer.start text .default).tokenize.lexer.placeholders
    input.cutAt 0 ((ofBytes input).stopsOf (.punctuation ';'.toUInt8)) =
        [ascii "('?;'  -- ;\n , ?);", ascii " 1.5"] ∧
      (ofBytes input).IsBoundary 6 ∧
      (ofBytes input).entries =
        (ofBytes (ascii "('?;' ")).proper ++
          (ofBytes (ascii " -- ;\n , ?); 1.5")).entries.map (·.shift 6) ∧
      placeholders input =
        placeholders (ascii "('?;' ") + placeholders (ascii " -- ;\n , ?); 1.5") := by
  intro input placeholders
  have boundary : (ofBytes input).IsBoundary 6 :=
    ⟨2, by decide +kernel, by decide +kernel⟩
  exact ⟨by decide +kernel, boundary, (stream_cut input .default).1 6 boundary⟩

end SqlLexer
