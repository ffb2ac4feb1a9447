import SqlLexer.Proofs.Boundary
import SqlLexer.Proofs.QuotedText

/-!
# Literals in any context

Writing a value as a literal and reading it back are inverse to each other, and
the text around the literal cannot tell one value from another.  Whatever stands
before it is read with a look at the opening quote at most, and what stands
behind it is read from a place that only the length of the literal moves.
-/

namespace SqlLexer

open TokenStream

namespace Escape

theorem meaning_of_encode? {byte marker : UInt8} (encoded : encode? byte = some marker) :
    meaning marker = byte := by
  have markersMean : pairs.all (fun pair => meaning pair.2 == pair.1) = true := by decide
  obtain ⟨pair, found, rfl⟩ := Option.map_eq_some_iff.mp encoded
  have isByte : (pair.1 == byte) = true :=
    List.find?_some (p := fun pair : UInt8 × UInt8 => pair.1 == byte) found
  have means := List.all_eq_true.mp markersMean pair (List.mem_of_find?_eq_some found)
  rw [eq_of_beq means, eq_of_beq isByte]

theorem ne_of_encode?_eq_none {byte : UInt8} (plain : encode? byte = none)
    (pair : UInt8 × UInt8) (member : pair ∈ pairs) : byte ≠ pair.1 := by
  rintro rfl
  have missing := List.find?_eq_none.mp (Option.map_eq_none_iff.mp plain) pair member
  exact missing (beq_self_eq_true pair.1)

end Escape

namespace Literal

/-- The spelling of a value is a sequence of units that mean it. -/
theorem units_flatMap_encodeByte (value : Bytes) :
    QuotedText.Units Byte.singleQuote (value.flatMap encodeByte) value := by
  induction value with
  | nil => exact .nil
  | cons byte value ih =>
      rw [List.flatMap_cons, encodeByte]
      split
      · next marker encoded =>
          have unit := QuotedText.Units.escaped marker ih
          rw [Escape.meaning_of_encode? encoded] at unit
          exact unit
      · next plain =>
          have notQuote : byte ≠ Byte.singleQuote :=
            Escape.ne_of_encode?_eq_none plain (Byte.singleQuote, Byte.singleQuote) (by decide)
          have notBackslash : byte ≠ Byte.backslash :=
            Escape.ne_of_encode?_eq_none plain (Byte.backslash, Byte.backslash) (by decide)
          exact .plain notQuote notBackslash ih

/-- A literal is read as the string that it was written for, unless a quote
right behind it is taken into it. -/
theorem reads_encode (value : Bytes) {behind : Bytes}
    (single : behind.head? ≠ some Byte.singleQuote) :
    Lexeme.Reads { kind := .string, value, width := (encode value).length }
      (encode value) behind := by
  let body := value.flatMap encodeByte
  have text : QuotedText.read Byte.singleQuote (body ++ Byte.singleQuote :: behind) =
      { value, width := body.length + 1, closed := true } :=
    QuotedText.read_of_splits (by decide) (.closed (units_flatMap_encodeByte value) single)
  have regrouped : body ++ [Byte.singleQuote] ++ behind =
      body ++ Byte.singleQuote :: behind := by
    rw [List.append_assoc, List.singleton_append]
  have front : Lexeme.ofFront Byte.singleQuote (body ++ [Byte.singleQuote] ++ behind) =
      { kind := .string, value, width := (encode value).length } := by
    change Lexeme.quoted Byte.singleQuote _ = _
    rw [regrouped, Lexeme.quoted, text]
    simp only [encode, List.length_cons, List.length_append, List.length_nil]
    rfl
  rw [← front]
  refine .front (by decide) ?_
  rw [front]
  rfl

end Literal

theorem offset_lt_of_mem_proper {input : Bytes} {entry : Entry}
    (member : entry ∈ (ofBytes input).proper) : entry.token.offset < input.length := by
  cases isReadIn_of_mem member with
  | reads reads =>
      have taken := List.length_pos_iff.mpr reads.span_ne_nil
      simp only [Lexeme.toToken, List.length_append]
      omega

/-- The entry of a literal that stands at a place. -/
def Literal.entry (value : Bytes) (place : Nat) : Entry :=
  { token := { kind := .string, value, offset := place }
    stop := place + (encode value).length }

theorem Literal.ofBytes_encode_append (value : Bytes) {behind : Bytes}
    (single : behind.head? ≠ some Byte.singleQuote) :
    ofBytes (encode value ++ behind) =
      ((ofBytes behind).shift (encode value).length).push (entry value 0) := by
  have stream := ofBytes_of_reads .nil (reads_encode value single)
  rw [List.nil_append, List.length_nil, Nat.zero_add] at stream
  rw [stream, entry, Nat.zero_add]
  rfl

theorem Literal.ofBytes_encode (value : Bytes) :
    ofBytes (encode value) =
      { proper := [entry value 0]
        final :=
          { token := Token.bare .endOfInput (encode value).length
            stop := (encode value).length } } := by
  have noQuote : ([] : Bytes).head? ≠ some Byte.singleQuote := by simp
  have stream := ofBytes_encode_append value noQuote
  rw [List.append_nil, ofBytes_of_allBlank .nil] at stream
  rw [stream]
  simp [shift, push, Entry.shift, Token.bare]

/-- Where a literal may be cut off at its opening quote, any other value may
stand in its place. -/
theorem Cuts.entries_literal {before behind first : Bytes}
    (cuts : Cuts before (Literal.encode first ++ behind))
    (single : behind.head? ≠ some Byte.singleQuote) (value : Bytes) :
    (ofBytes (before ++ (Literal.encode value ++ behind))).entries =
      (ofBytes before).proper ++
        Literal.entry value before.length ::
          (ofBytes behind).entries.map
            (·.shift (before.length + (Literal.encode value).length)) := by
  have cutsValue : Cuts before (Literal.encode value ++ behind) := cuts.swap _
  have moved : (Literal.entry value 0).shift before.length =
      Literal.entry value before.length := by
    simp only [Literal.entry, Entry.shift, Nat.zero_add, Nat.add_zero, Nat.add_comm]
  rw [cutsValue.stream_append, Literal.ofBytes_encode_append value single, entries_join,
    entries_push, List.map_cons, moved, entries_shift, Entry.map_shift_shift,
    Nat.add_comm (Literal.encode value).length]

/-- Where a token begins with a literal, that token is the literal, read as its
value.  Any other value in its place changes nothing else than the places of
the tokens behind.  In particular a literal on its own is read back. -/
theorem literal_reads_value :
    (∀ before first behind : Bytes, behind.head? ≠ some Byte.singleQuote →
      (∃ entry ∈ (ofBytes (before ++ (Literal.encode first ++ behind))).entries,
        entry.token.offset = before.length) →
      (∀ entry ∈ (ofBytes (before ++ (Literal.encode first ++ behind))).entries,
          entry.token.offset = before.length → entry = Literal.entry first before.length) ∧
        ∀ value, (ofBytes (before ++ (Literal.encode value ++ behind))).entries =
          (ofBytes before).proper ++
            Literal.entry value before.length ::
              (ofBytes behind).entries.map
                (·.shift (before.length + (Literal.encode value).length))) ∧
    ∀ value config, (Lexer.start (Literal.encode value) config).tokenize.answer =
      [{ kind := .string, value, offset := 0 },
        Token.bare .endOfInput (Literal.encode value).length] := by
  refine ⟨?_, ?_⟩
  · rintro before first behind single ⟨opening, member, begins⟩
    obtain ⟨index, rfl⟩ := exists_entryAt_of_mem member
    have boundary := isBoundary_offset (before ++ (Literal.encode first ++ behind)) index
    obtain ⟨kept, more, split, measured, cuts⟩ := boundary.cuts
    obtain ⟨rfl, rfl⟩ : before = kept ∧ Literal.encode first ++ behind = more :=
      List.append_inj split (begins.symm.trans measured.symm)
    refine ⟨?_, cuts.entries_literal single⟩
    intro entry entryMember entryBegins
    rw [cuts.entries_literal single first] at entryMember
    rcases List.mem_append.mp entryMember with earlier | others
    · have inside := offset_lt_of_mem_proper earlier
      omega
    · rcases List.mem_cons.mp others with here | later
      · exact here
      · obtain ⟨inner, _, rfl⟩ := List.mem_map.mp later
        simp only [Entry.shift, Literal.encode, List.length_cons] at entryBegins
        omega
  · intro value config
    rw [Lexer.answer_tokenize, Literal.ofBytes_encode]
    rfl

/-- Values with a quote, a backslash, a zero byte and broken text, behind a
comment with a quote in it and before a placeholder. -/
theorem literal_reads_value_behind_comment :
    let before := ascii "/* ' */ ("
    let first : Bytes := [0x27, 0x5C, 0x00, 0xFF]
    let behind := ascii ", ?)"
    behind.head? ≠ some Byte.singleQuote ∧
      (∃ entry ∈ (ofBytes (before ++ (Literal.encode first ++ behind))).entries,
        entry.token.offset = before.length) ∧
      (ofBytes (before ++ (Literal.encode (ascii "a") ++ behind))).entries =
        (ofBytes before).proper ++
          Literal.entry (ascii "a") before.length ::
            (ofBytes behind).entries.map (·.shift 12) := by
  intro before first behind
  have single : behind.head? ≠ some Byte.singleQuote := by decide
  have begins : ∃ entry ∈ (ofBytes (before ++ (Literal.encode first ++ behind))).entries,
      entry.token.offset = before.length :=
    ⟨Literal.entry first before.length, by decide +kernel, rfl⟩
  have replaced := (literal_reads_value.1 before first behind single begins).2 (ascii "a")
  exact ⟨single, begins, replaced⟩

end SqlLexer
