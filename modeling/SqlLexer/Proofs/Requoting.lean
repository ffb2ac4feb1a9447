import SqlLexer.CommandLine.Listing
import SqlLexer.Proofs.Characters
import SqlLexer.Proofs.LiteralForm

/-!
# Literals in listings

A listing may show a string as a literal that means the same.  The value may be any
bytes, and the literal is decoded for the listing after it was written.  Escaping and
decoding do not get into each other's way: only ASCII bytes are escaped, by ASCII bytes,
and how far an ill-formed piece reaches is up to the high bytes at its front alone.
-/

namespace SqlLexer

namespace Utf8

/-- The high bytes that a byte string begins with. -/
def highRun (bytes : Bytes) : Bytes :=
  bytes.takeWhile fun byte => decide (IsHigh byte)

theorem highRun_cons_of_isHigh {byte : UInt8} (high : IsHigh byte) (rest : Bytes) :
    highRun (byte :: rest) = byte :: highRun rest :=
  List.takeWhile_cons_of_pos (decide_eq_true high)

theorem highRun_cons_of_not_isHigh {byte : UInt8} (ascii : ¬IsHigh byte) (rest : Bytes) :
    highRun (byte :: rest) = [] :=
  List.takeWhile_cons_of_neg (mt of_decide_eq_true ascii)

/-! ## Decoding looks at high bytes only -/

theorem isHigh_of_isBetween {lowest highest byte : UInt8} (lowestHigh : IsHigh lowest)
    (between : Byte.isBetween lowest highest byte = true) : IsHigh byte :=
  Nat.le_trans lowestHigh ((isBetween_iff lowest highest byte).mp between).1

theorem continuation_highRun (wanted : Nat) {lowest : UInt8} (lowestHigh : IsHigh lowest)
    (highest : UInt8) (rest : Bytes) :
    continuation wanted lowest highest (highRun rest) =
      continuation wanted lowest highest rest := by
  induction wanted generalizing lowest highest rest with
  | zero => rfl
  | succ wanted ih =>
      cases rest with
      | nil => rfl
      | cons byte rest =>
          by_cases high : IsHigh byte
          · rw [highRun_cons_of_isHigh high, continuation, continuation, ih (by decide)]
          · have outside : ¬Byte.isBetween lowest highest byte = true :=
              mt (isHigh_of_isBetween lowestHigh) high
            rw [highRun_cons_of_not_isHigh high, continuation, continuation, if_neg outside]

theorem isHigh_lowest {first : UInt8} {lead : Lead} (found : lead? first = some lead) :
    IsHigh lead.lowest := by
  have everyLead (first : UInt8) :
      (lead? first).all (fun lead => decide (IsHigh lead.lowest)) = true := by
    revert first
    exact Byte.forall_of_fin (by decide +kernel)
  have here := everyLead first
  rw [found] at here
  exact of_decide_eq_true here

theorem Piece.ofFront_highRun (first : UInt8) (rest : Bytes) :
    ofFront first (highRun rest) = ofFront first rest := by
  unfold ofFront
  split
  · rfl
  split
  · rfl
  · next lead found => rw [continuation_highRun lead.following (isHigh_lowest found)]

theorem length_continuation_le (wanted : Nat) (lowest highest : UInt8) (rest : Bytes) :
    (continuation wanted lowest highest rest).length ≤ rest.length := by
  induction wanted generalizing lowest highest rest with
  | zero => exact Nat.zero_le _
  | succ wanted ih =>
      cases rest with
      | nil => exact Nat.le_refl 0
      | cons byte rest =>
          rw [continuation]
          split
          · exact Nat.succ_le_succ (ih _ _ _)
          · exact Nat.zero_le _

theorem Piece.further_ofFront_le (first : UInt8) (rest : Bytes) :
    (ofFront first rest).further ≤ rest.length := by
  unfold ofFront
  split
  · exact Nat.zero_le _
  split
  · exact Nat.zero_le _
  · next lead _ =>
      dsimp only
      split
      all_goals exact length_continuation_le _ _ _ rest

theorem decodeLossy_nil : decodeLossy [] = [] := by
  rw [decodeLossy, pieces, List.map_nil]

theorem decodeLossy_cons (first : UInt8) (rest : Bytes) :
    decodeLossy (first :: rest) =
      (Piece.ofFront first rest).char?.getD replacement ::
        decodeLossy (rest.drop (Piece.ofFront first rest).further) := by
  rw [decodeLossy, pieces_cons, List.map_cons]
  rfl

theorem isValid_of_ascii {bytes : Bytes} (ascii : ∀ byte ∈ bytes, ¬IsHigh byte) :
    isValid bytes = true := by
  induction bytes with
  | nil => exact isValid_nil
  | cons byte bytes ih =>
      have alone := isValid_singleton (Nat.lt_of_not_le (ascii byte List.mem_cons_self))
      have others := ih fun other member => ascii other (List.mem_cons_of_mem _ member)
      exact isValid_append alone others

theorem encode_decodeLossy_append {front : Bytes} (valid : isValid front = true)
    (behind : Bytes) :
    encode (decodeLossy (front ++ behind)) = front ++ encode (decodeLossy behind) := by
  obtain ⟨chars, rfl⟩ := (isValid_iff front).mp valid
  induction chars with
  | nil => rfl
  | cons char chars ih =>
      obtain ⟨further, front⟩ := pieces_encodeChar_append char (encode chars ++ behind)
      have others := ih (isValid_encode chars)
      rw [decodeLossy] at others
      rw [encode_cons, List.append_assoc, decodeLossy, front, List.map_cons, encode_cons, others,
        List.append_assoc]
      rfl

theorem isHigh_of_mem_encodeChar {first : UInt8} (high : IsHigh first) (rest : Bytes) :
    ∀ byte ∈ encodeChar ((Piece.ofFront first rest).char?.getD replacement), IsHigh byte := by
  cases piece : Piece.ofFront first rest with
  | character char further =>
      obtain ⟨tail, _, _, _, multibyte⟩ := Multibyte.exists_of_ofFront high piece
      obtain ⟨other, otherTail, spelled, otherMultibyte⟩ :=
        Multibyte.exists_of_encodeChar multibyte.notAscii
      rw [Piece.char?, Option.getD_some, spelled]
      exact otherMultibyte.isHigh
  | illFormed further =>
      have shown : (encodeChar replacement).all (fun byte => decide (IsHigh byte)) = true := by
        decide
      intro byte member
      exact of_decide_eq_true (List.all_eq_true.mp shown byte member)

end Utf8

namespace Literal

/-! ## Escaping leaves high bytes alone -/

theorem encodeByte_of_isHigh {byte : UInt8} (high : Utf8.IsHigh byte) :
    encodeByte byte = [byte] := by
  have ascii : escapable.all (fun byte => decide ¬Utf8.IsHigh byte) = true := by decide
  have notEscapable : byte ∉ escapable := by
    intro isEscapable
    exact of_decide_eq_true (List.all_eq_true.mp ascii byte isEscapable) high
  rw [encodeByte, encode?_eq_none_iff.mpr notEscapable]

theorem flatMap_encodeByte_of_isHigh {bytes : Bytes} (high : ∀ byte ∈ bytes, Utf8.IsHigh byte) :
    bytes.flatMap encodeByte = bytes := by
  induction bytes with
  | nil => rfl
  | cons byte bytes ih =>
      rw [List.flatMap_cons, encodeByte_of_isHigh (high byte List.mem_cons_self),
        ih fun other member => high other (List.mem_cons_of_mem byte member)]
      rfl

theorem not_isHigh_of_mem_encodeByte {byte : UInt8} (ascii : ¬Utf8.IsHigh byte) :
    ∀ other ∈ encodeByte byte, ¬Utf8.IsHigh other := by
  rcases encodeByte_cases byte with ⟨_, plain⟩ | ⟨marker, isMarker, escape⟩
  · rw [plain]
    simpa using ascii
  · have listed : markers.all (fun marker => decide ¬Utf8.IsHigh marker) = true := by decide
    have markerAscii := of_decide_eq_true (List.all_eq_true.mp listed marker isMarker)
    have backslashAscii : ¬Utf8.IsHigh '\\'.toUInt8 := by decide
    rw [escape]
    simp [markerAscii, backslashAscii]

theorem encodeByte_ne_nil (byte : UInt8) : encodeByte byte ≠ [] := by
  rcases encodeByte_cases byte with ⟨_, plain⟩ | ⟨marker, _, escape⟩
  · simp [plain]
  · simp [escape]

theorem isValid_encodeByte {byte : UInt8} (ascii : ¬Utf8.IsHigh byte) :
    Utf8.isValid (encodeByte byte) = true :=
  Utf8.isValid_of_ascii (not_isHigh_of_mem_encodeByte ascii)

/-- The high bytes at the front are the same after escaping, as long as no high byte
comes behind the value. -/
theorem highRun_flatMap_encodeByte (value : Bytes) {behind : Bytes}
    (stops : Utf8.highRun behind = []) :
    Utf8.highRun (value.flatMap encodeByte ++ behind) = Utf8.highRun value := by
  induction value with
  | nil => exact stops
  | cons byte value ih =>
      rw [List.flatMap_cons, List.append_assoc]
      by_cases high : Utf8.IsHigh byte
      · rw [encodeByte_of_isHigh high, List.singleton_append, Utf8.highRun_cons_of_isHigh high,
          Utf8.highRun_cons_of_isHigh high, ih]
      · obtain ⟨first, others, written⟩ := List.exists_cons_of_ne_nil (encodeByte_ne_nil byte)
        have firstAscii : ¬Utf8.IsHigh first := by
          apply not_isHigh_of_mem_encodeByte high first
          rw [written]
          exact List.mem_cons_self
        rw [written, List.cons_append, Utf8.highRun_cons_of_not_isHigh firstAscii,
          Utf8.highRun_cons_of_not_isHigh high]

theorem drop_flatMap_encodeByte {count : Nat} {value : Bytes}
    (within : count ≤ (Utf8.highRun value).length) (behind : Bytes) :
    (value.flatMap encodeByte ++ behind).drop count =
      (value.drop count).flatMap encodeByte ++ behind := by
  induction value generalizing count with
  | nil =>
      cases Nat.le_zero.mp within
      rfl
  | cons byte value ih =>
      cases count with
      | zero => rfl
      | succ count =>
          by_cases high : Utf8.IsHigh byte
          · rw [Utf8.highRun_cons_of_isHigh high] at within
            rw [List.flatMap_cons, encodeByte_of_isHigh high]
            exact ih (Nat.le_of_succ_le_succ within)
          · rw [Utf8.highRun_cons_of_not_isHigh high] at within
            cases Nat.le_zero.mp within

/-- Decoding what is written for a value shows what is written for what decoding the
value shows. -/
theorem encode_decodeLossy_flatMap_encodeByte (value : Bytes) {behind : Bytes}
    (stops : Utf8.highRun behind = []) :
    Utf8.encode (Utf8.decodeLossy (value.flatMap encodeByte ++ behind)) =
      (Utf8.encode (Utf8.decodeLossy value)).flatMap encodeByte ++
        Utf8.encode (Utf8.decodeLossy behind) := by
  induction value using Utf8.pieces.induct with
  | case1 =>
      rw [Utf8.decodeLossy_nil]
      rfl
  | case2 first rest piece ih =>
      by_cases high : Utf8.IsHigh first
      · have samePiece :
            Utf8.Piece.ofFront first (rest.flatMap encodeByte ++ behind) = piece := by
          rw [← Utf8.Piece.ofFront_highRun, highRun_flatMap_encodeByte rest stops,
            Utf8.Piece.ofFront_highRun]
        have within : piece.further ≤ (Utf8.highRun rest).length := by
          have bound := Utf8.Piece.further_ofFront_le first (Utf8.highRun rest)
          rwa [Utf8.Piece.ofFront_highRun] at bound
        have shown := Utf8.isHigh_of_mem_encodeChar high rest
        rw [List.flatMap_cons, encodeByte_of_isHigh high, List.append_assoc,
          List.singleton_append, Utf8.decodeLossy_cons, samePiece,
          drop_flatMap_encodeByte within, Utf8.encode_cons, ih, Utf8.decodeLossy_cons,
          Utf8.encode_cons, List.flatMap_append, flatMap_encodeByte_of_isHigh shown,
          List.append_assoc]
      · have alone : piece.further = 0 := by
          have ascii : first < 0x80 := UInt8.lt_iff_toNat_lt.mpr (Nat.lt_of_not_le high)
          simp only [piece, Utf8.Piece.ofFront, if_pos ascii, Utf8.Piece.further]
        rw [alone, List.drop_zero] at ih
        have shown := Utf8.encode_decodeLossy_append
          (Utf8.isValid_singleton (Nat.lt_of_not_le high)) rest
        rw [List.singleton_append, List.singleton_append] at shown
        rw [List.flatMap_cons, List.append_assoc,
          Utf8.encode_decodeLossy_append (isValid_encodeByte high), ih, shown,
          List.flatMap_cons, List.append_assoc]

/-- A literal is shown as the literal for what is shown of its value. -/
theorem encode_ofString_text (value : Bytes) :
    Utf8.ofString (Utf8.text (encode value)) = encode (Utf8.ofString (Utf8.text value)) := by
  have quoteValid : Utf8.isValid [Byte.singleQuote] = true := Utf8.isValid_singleton (by decide)
  have closing : Utf8.encode (Utf8.decodeLossy [Byte.singleQuote]) = [Byte.singleQuote] := by
    have shown := Utf8.encode_decodeLossy_append quoteValid []
    rwa [List.append_nil, Utf8.decodeLossy_nil] at shown
  have stops : Utf8.highRun [Byte.singleQuote] = [] := by decide
  simp only [Utf8.ofString, Utf8.text, String.toList_ofList]
  rw [encode, ← List.singleton_append, Utf8.encode_decodeLossy_append quoteValid,
    encode_decodeLossy_flatMap_encodeByte value stops, closing]
  rfl

end Literal

namespace Utf8

theorem ofString_text_eq_self_iff (bytes : Bytes) :
    ofString (text bytes) = bytes ↔ isValid bytes = true := by
  constructor
  · intro same
    rw [← same]
    exact isValid_encode _
  · intro valid
    obtain ⟨chars, rfl⟩ := (isValid_iff bytes).mp valid
    exact ofString_text_encode chars

end Utf8

/-- A string token is listed, when it is shown as a literal, as the literal for its
text: decoding the literal for its value gives the same.  What is listed is read back
as one string token with this text, whose bytes are the value itself if the value is
valid. -/
theorem requoted_reads_text (token : Token) (isString : token.kind = .string) :
    let shown := (CommandLine.Row.ofToken true token).value
    shown = Utf8.text (Literal.encode token.value) ∧
      Utf8.ofString shown = Literal.encode (Utf8.ofString token.text) ∧
      (∀ config, (Lexer.start (Utf8.ofString shown) config).tokenize.answer =
        [{ kind := .string, value := Utf8.ofString token.text, offset := 0 },
          Token.bare .endOfInput (Utf8.ofString shown).length]) ∧
      (Utf8.ofString token.text = token.value ↔ Utf8.isValid token.value = true) := by
  intro shown
  have literal : shown = Utf8.text (Literal.encode token.value) := by
    simp only [shown, CommandLine.Row.ofToken, isString]
    rfl
  have bytes : Utf8.ofString shown = Literal.encode (Utf8.ofString token.text) := by
    rw [literal]
    exact Literal.encode_ofString_text token.value
  refine ⟨literal, bytes, ?_, Utf8.ofString_text_eq_self_iff token.value⟩
  intro config
  rw [bytes, Lexer.answer_tokenize, Literal.ofBytes_encode]
  rfl

/-- A character that is cut short by an escaped quote, a surrogate in front of an
escaped backslash, and a character that is cut short by the closing quote. -/
theorem requoted_reads_text_ill_formed :
    let value : Bytes := [0xE2, 0x82, 0x27, 0xED, 0xA0, 0x80, 0x5C, 0xF0, 0x9F]
    let text : Bytes :=
      [0xEF, 0xBF, 0xBD, 0x27, 0xEF, 0xBF, 0xBD, 0xEF, 0xBF, 0xBD, 0xEF, 0xBF, 0xBD, 0x5C,
        0xEF, 0xBF, 0xBD]
    let token : Token := { kind := .string, value, offset := 4 }
    let shown := (CommandLine.Row.ofToken true token).value
    token.kind = .string ∧ shown = "'\uFFFD\\'\uFFFD\uFFFD\uFFFD\\\\\uFFFD'" ∧
      (Lexer.start (Utf8.ofString shown) .default).tokenize.answer =
        [{ kind := .string, value := text, offset := 0 }, Token.bare .endOfInput 21] ∧
      Utf8.isValid value = false := by
  intro value text token shown
  obtain ⟨literal, bytes, tokens, valid⟩ := requoted_reads_text token rfl
  have isText : Utf8.ofString token.text = text := by decide +kernel
  refine ⟨rfl, ?_, ?_, ?_⟩
  · apply literal.trans
    decide +kernel
  · apply (tokens .default).trans
    rw [bytes, isText]
    decide
  · rw [isText] at valid
    have differs : text ≠ value := by decide
    exact Bool.eq_false_iff.mpr (mt valid.mpr differs)

end SqlLexer
