import SqlLexer.Proofs.Characters
import SqlLexer.Proofs.SpanBytes

/-!
# Tokens keep characters whole

The lexer reads bytes, and in quoted text it drops some and replaces others.  No
character of a valid text comes apart by that, because all that it acts on is
ASCII: a token begins with an ASCII byte, and ends with one or with the text, and
an escape that is not ASCII keeps its byte.  What is left are the bytes of longer
characters outside quoted text and comments, each of which is a token of its own.
-/

namespace SqlLexer

open TokenStream

namespace Byte

theorem ascii_of_opensToken {byte : UInt8} :
    opensToken byte = true → byte.toNat < 0x80 := by
  revert byte
  apply forall_of_fin
  decide +kernel

theorem ascii_of_isPlain {byte : UInt8} (plain : isPlain byte = true) : byte.toNat < 0x80 :=
  ascii_of_opensToken ((isPlain_iff byte).mp plain).1

theorem ascii_of_isQuote {byte : UInt8} (quote : isQuote byte = true) : byte.toNat < 0x80 :=
  ascii_of_opensToken (by simp [opensToken, quote])

theorem not_opensToken_of_isHigh {byte : UInt8} (high : Utf8.IsHigh byte) :
    ¬opensToken byte = true :=
  fun opens => Nat.not_le.mpr (ascii_of_opensToken opens) high

theorem isBlank_of_isHigh {byte : UInt8} : Utf8.IsHigh byte → isBlank byte = false := by
  revert byte
  apply forall_of_fin
  decide +kernel

theorem lower_of_isHigh {byte : UInt8} : Utf8.IsHigh byte → lower byte = byte := by
  revert byte
  apply forall_of_fin
  decide +kernel

theorem ascii_lower {byte : UInt8} : byte.toNat < 0x80 → (lower byte).toNat < 0x80 := by
  revert byte
  apply forall_of_fin
  decide +kernel

end Byte

/-! ## Values -/

namespace Escape

theorem meaning_of_isHigh {marker : UInt8} : Utf8.IsHigh marker → meaning marker = marker := by
  revert marker
  apply Byte.forall_of_fin
  decide +kernel

theorem ascii_meaning {marker : UInt8} :
    marker.toNat < 0x80 → (meaning marker).toNat < 0x80 := by
  revert marker
  apply Byte.forall_of_fin
  decide +kernel

end Escape

/-- Where text goes on with units, it may go on with their meaning instead. -/
theorem QuotedText.Units.isValid_append {quote : UInt8} {body value : Bytes}
    (units : Units quote body value) (quoteAscii : quote.toNat < 0x80) (before : Bytes)
    (valid : Utf8.isValid (before ++ body) = true) : Utf8.isValid (before ++ value) = true := by
  have backslashAscii : Byte.backslash.toNat < 0x80 := by decide
  induction units generalizing before with
  | nil => exact valid
  | plain _ _ _ ih =>
      rw [List.append_cons] at valid ⊢
      exact ih _ valid
  | doubled units ih =>
      obtain ⟨beforeValid, doubledValid⟩ := (Utf8.isValid_split quoteAscii).mp valid
      have bodyValid := Utf8.isValid_of_cons quoteAscii doubledValid
      exact (Utf8.isValid_split quoteAscii).mpr ⟨beforeValid, ih [] bodyValid⟩
  | escaped marker units ih =>
      obtain ⟨beforeValid, markedValid⟩ := (Utf8.isValid_split backslashAscii).mp valid
      by_cases markerAscii : marker.toNat < 0x80
      · have bodyValid := Utf8.isValid_of_cons markerAscii markedValid
        exact (Utf8.isValid_split (Escape.ascii_meaning markerAscii)).mpr
          ⟨beforeValid, ih [] bodyValid⟩
      · rw [Escape.meaning_of_isHigh (Nat.not_lt.mp markerAscii)]
        exact Utf8.isValid_append beforeValid (ih [marker] markedValid)

theorem Utf8.isValid_lower {bytes : Bytes} (valid : isValid bytes = true) :
    isValid bytes.lower = true := by
  obtain ⟨chars, rfl⟩ := (isValid_iff bytes).mp valid
  clear valid
  induction chars with
  | nil => exact isValid_nil
  | cons char chars ih =>
      have charValid : isValid (encodeChar char).lower = true := by
        rcases encodeChar_cases char with
          ⟨byte, spelled, ascii, _⟩ | ⟨first, tail, spelled, multibyte⟩
        · rw [spelled]
          exact isValid_singleton (Byte.ascii_lower ascii)
        · have kept : (encodeChar char).lower = encodeChar char := by
            rw [spelled]
            exact (List.map_congr_left fun byte member =>
              Byte.lower_of_isHigh (multibyte.isHigh byte member)).trans (List.map_id _)
          rw [kept]
          exact isValid_encodeChar char
      rw [encode_cons, Bytes.lower, List.map_append]
      exact isValid_append charValid ih

theorem Encloses.isValid {quote : UInt8} {value span : Bytes} {next : Option UInt8}
    (encloses : Encloses quote value span next) (quoteAscii : quote.toNat < 0x80)
    (valid : Utf8.isValid span = true) : Utf8.isValid value = true := by
  obtain ⟨body, rfl, units, _⟩ := encloses
  have bodyValid := Utf8.isValid_of_concat quoteAscii (Utf8.isValid_of_cons quoteAscii valid)
  exact units.isValid_append quoteAscii [] bodyValid

theorem IsUnclosed.isValid {value span : Bytes} {next : Option UInt8}
    (unclosed : IsUnclosed value span next) (valid : Utf8.isValid span = true) :
    Utf8.isValid value = true := by
  obtain ⟨quote, body, isQuote, spelled, units, _⟩ := unclosed
  have quoteAscii := Byte.ascii_of_isQuote isQuote
  have bodyValid : Utf8.isValid body = true := by
    rcases spelled with rfl | rfl
    · exact Utf8.isValid_of_cons quoteAscii valid
    · exact Utf8.isValid_of_concat (by decide) (Utf8.isValid_of_cons quoteAscii valid)
  exact units.isValid_append quoteAscii [] bodyValid

theorem Kind.Spells.isValid {kind : Kind} {value span : Bytes} {next : Option UInt8}
    (spells : kind.Spells value span next) (valid : Utf8.isValid span = true) :
    Utf8.isValid value = true := by
  have verbatim : IsVerbatim value span → Utf8.isValid value = true := by
    rintro ⟨rfl, _⟩
    exact valid
  cases kind with
  | endOfInput => cases spells
  | punctuation byte | notEqual | lessOrEqual | greaterOrEqual | nullSafeEqual =>
      rw [spells.1]
      exact Utf8.isValid_nil
  | keyword word =>
      rw [spells.1]
      exact Utf8.isValid_lower valid
  | number | valueArgument | comment => exact verbatim spells
  | identifier =>
      rcases spells with isVerbatim | encloses
      · exact verbatim isVerbatim
      · exact encloses.isValid (by decide) valid
  | string =>
      rcases spells with encloses | encloses
      · exact encloses.isValid (by decide) valid
      · exact encloses.isValid (by decide) valid
  | invalid =>
      rcases spells with isVerbatim | unclosed
      · exact verbatim isVerbatim
      · exact unclosed.isValid valid

/-! ## Spans -/

namespace Lexeme.Reads

variable {lexeme : Lexeme} {span rest : Bytes}

/-- A lexeme that begins with an ASCII byte ends with one, or with the text. -/
theorem ends_ascii (reads : lexeme.Reads span rest)
    (begins : ∀ first, span.head? = some first → first.toNat < 0x80) :
    rest = [] ∨ ∃ last, span.getLast? = some last ∧ last.toNat < 0x80 := by
  rcases reads.exists_getLast? with atEnd | ⟨last, isLast, plain | isQuote | single | rfl⟩
  · exact .inl atEnd
  · exact .inr ⟨last, isLast, Byte.ascii_of_isPlain plain⟩
  · exact .inr ⟨last, isLast, Byte.ascii_of_isQuote isQuote⟩
  · exact .inr ⟨last, isLast, begins last (by rw [single]; rfl)⟩
  · exact .inr ⟨_, isLast, by decide⟩

/-- Such a lexeme divides valid text into valid parts. -/
theorem isValid_parts (reads : lexeme.Reads span rest)
    (begins : ∀ first, span.head? = some first → first.toNat < 0x80) {before : Bytes}
    (valid : Utf8.isValid (before ++ (span ++ rest)) = true) :
    Utf8.isValid before = true ∧ Utf8.isValid span = true ∧ Utf8.isValid rest = true := by
  have around : Utf8.isValid (before ++ span) = true ∧ Utf8.isValid rest = true := by
    rcases reads.ends_ascii begins with rfl | ⟨last, isLast, lastAscii⟩
    · rw [List.append_nil] at valid
      exact ⟨valid, Utf8.isValid_nil⟩
    · obtain ⟨front, rfl⟩ := List.getLast?_eq_some_iff.mp isLast
      have regrouped : before ++ (front ++ [last] ++ rest) = (before ++ front) ++ last :: rest := by
        simp
      rw [regrouped] at valid
      obtain ⟨frontValid, restValid⟩ := (Utf8.isValid_split lastAscii).mp valid
      rw [← List.append_assoc]
      exact ⟨Utf8.isValid_append frontValid (Utf8.isValid_singleton lastAscii), restValid⟩
  obtain ⟨first, tail, rfl⟩ := List.exists_cons_of_ne_nil reads.span_ne_nil
  have firstAscii := begins first rfl
  obtain ⟨beforeValid, tailValid⟩ := (Utf8.isValid_split firstAscii).mp around.1
  exact ⟨beforeValid, Utf8.isValid_append (Utf8.isValid_singleton firstAscii) tailValid, around.2⟩

theorem of_isHigh (reads : lexeme.Reads span rest) {first : UInt8}
    (isFirst : span.head? = some first) (high : Utf8.IsHigh first) :
    lexeme = verbatim .invalid [first] ∧ span = [first] := by
  cases reads with
  | @front head tail _ notBlank exactly =>
      obtain rfl : head = first := Option.some.inj isFirst
      rw [ofFront_of_stray (Byte.not_opensToken_of_isHigh high)] at exactly ⊢
      refine ⟨rfl, ?_⟩
      rw [List.eq_nil_of_length_eq_zero (Nat.succ.inj exactly).symm]

end Lexeme.Reads

/-- The entry is an invalid token for one byte of a longer character. -/
def Entry.IsStray (entry : Entry) (input : Bytes) : Prop :=
  entry.token.kind = .invalid ∧ entry.stop = entry.token.offset + 1 ∧
    ∃ byte, input[entry.token.offset]? = some byte ∧ Utf8.IsHigh byte

/-- The text of the entry is valid and shown as it is, and its span reaches from
one boundary between characters to another. -/
structure Entry.KeepsCharacters (entry : Entry) (input : Bytes) : Prop where
  isValid_value : Utf8.isValid entry.token.value = true
  shown : Utf8.ofString entry.token.text = entry.token.value
  start : Utf8.IsBoundary input entry.token.offset
  stop : Utf8.IsBoundary input entry.stop

/-- Where valid text falls into three valid parts, a token that stands for the
middle one with valid text keeps characters. -/
theorem Entry.KeepsCharacters.of_parts (token : Token) {before span rest : Bytes}
    (beforeValid : Utf8.isValid before = true) (spanValid : Utf8.isValid span = true)
    (restValid : Utf8.isValid rest = true) (valueValid : Utf8.isValid token.value = true)
    (begins : token.offset = before.length) :
    Entry.KeepsCharacters { token, stop := before.length + span.length }
      (before ++ (span ++ rest)) where
  isValid_value := valueValid
  shown := by
    obtain ⟨chars, spelled⟩ := (Utf8.isValid_iff token.value).mp valueValid
    rw [Token.text, spelled]
    exact Utf8.ofString_text_encode chars
  start := by
    rw [begins]
    exact Utf8.isBoundary_of_isValid beforeValid (Utf8.isValid_append spanValid restValid)
  stop := by
    have boundary :=
      Utf8.isBoundary_of_isValid (Utf8.isValid_append beforeValid spanValid) restValid
    rw [List.length_append, List.append_assoc] at boundary
    exact boundary

theorem Entry.IsReadIn.keepsCharacters {entry : Entry} {input : Bytes}
    (isRead : entry.IsReadIn input) (valid : Utf8.isValid input = true)
    (notStray : ¬entry.IsStray input) : entry.KeepsCharacters input := by
  cases isRead with
  | @reads before span rest lexeme reads =>
      have begins : ∀ first, span.head? = some first → first.toNat < 0x80 := by
        intro first isFirst
        apply Nat.lt_of_not_le
        intro high
        obtain ⟨isStray, single⟩ := reads.of_isHigh isFirst high
        refine notStray ⟨congrArg Lexeme.kind isStray, ?_, first, ?_, high⟩
        · simp only [Lexeme.toToken, single, List.length_singleton]
        · exact (reads.getElem?_front before).trans isFirst
      obtain ⟨beforeValid, spanValid, restValid⟩ := reads.isValid_parts begins valid
      exact .of_parts _ beforeValid spanValid restValid (reads.spells.isValid spanValid) rfl

/-! ## Characters outside of text -/

/-- The entry is quoted text or a comment, complete or cut off by the end. -/
def Entry.isText (entry : Entry) (input : Bytes) : Bool :=
  entry.token.kind == .comment || input[entry.token.offset]?.any Byte.isQuote ||
    entry.token.isCutOff input

/-- The place lies in quoted text or in a comment. -/
def InText (input : Bytes) (place : Nat) : Prop :=
  ∃ entry ∈ (ofBytes input).proper, entry.isText input = true ∧
    entry.token.offset ≤ place ∧ place < entry.stop
  deriving Decidable

/-- One invalid token for each of the bytes, which stand from a place on. -/
def strayEntries (place : Nat) : Bytes → List Entry
  | [] => []
  | byte :: bytes =>
    { token := { kind := .invalid, value := [byte], offset := place }, stop := place + 1 } ::
      strayEntries (place + 1) bytes

theorem map_shift_strayEntries (place distance : Nat) (bytes : Bytes) :
    (strayEntries place bytes).map (·.shift distance) = strayEntries (place + distance) bytes := by
  induction bytes generalizing place with
  | nil => rfl
  | cons byte bytes ih =>
      rw [strayEntries, List.map_cons, ih, strayEntries, Entry.shift, Nat.add_right_comm]

/-- No token but quoted text or a comment reaches over the start of a longer
character. -/
theorem Entry.IsReadIn.isText_of_covered {entry : Entry} {input : Bytes}
    (isRead : entry.IsReadIn input) {place : Nat} {byte : UInt8}
    (found : input[place]? = some byte) (high : Utf8.IsHigh byte)
    (begins : entry.token.offset < place) (ends : place < entry.stop) :
    entry.isText input = true := by
  cases isRead with
  | @reads before span rest lexeme reads =>
      obtain ⟨inner, rfl⟩ := Nat.exists_eq_add_of_le (Nat.le_of_lt begins)
      simp only [Lexeme.toToken, Nat.lt_add_right_iff_pos, Nat.add_lt_add_iff_left]
        at begins ends found
      have among : byte ∈ span := by
        rw [List.getElem?_append_right (Nat.le_add_right _ _), Nat.add_sub_cancel_left,
          List.getElem?_append_left ends] at found
        exact List.mem_of_getElem? found
      rw [isText, Token.isCutOff, Token.isInvalid, Lexeme.toToken, reads.getElem?_front before]
      rcases reads.allPlain_or_text with
        plain | ⟨other, rfl⟩ | isComment | isQuoted | ⟨invalid, opens⟩
      · exact absurd high (Nat.not_le.mpr (Byte.ascii_of_isPlain (plain byte among)))
      · rw [List.length_singleton] at ends
        omega
      · simp [isComment]
      · simp [isQuoted]
      · simp [invalid, opens]

theorem TokenStream.ofBytes_high_append {bytes : Bytes} (high : ∀ byte ∈ bytes, Utf8.IsHigh byte)
    (behind : Bytes) :
    (ofBytes (bytes ++ behind)).proper =
      strayEntries 0 bytes ++ (ofBytes behind).proper.map (·.shift bytes.length) := by
  induction bytes with
  | nil => simp [strayEntries, Entry.shift]
  | cons byte bytes ih =>
      have byteHigh := high byte List.mem_cons_self
      have isStray := Lexeme.ofFront_of_stray (Byte.not_opensToken_of_isHigh byteHigh)
      have reads := @Lexeme.Reads.front byte [] (bytes ++ behind)
        (Byte.isBlank_of_isHigh byteHigh) (by rw [isStray]; rfl)
      rw [isStray] at reads
      have stream := ofBytes_of_reads .nil reads
      rw [List.nil_append, List.singleton_append] at stream
      rw [List.cons_append, stream, push, shift,
        ih fun other member => high other (List.mem_cons_of_mem _ member), List.map_append,
        map_shift_strayEntries, Entry.map_shift_shift]
      rfl

/-- Outside quoted text and comments, the bytes of longer characters are tokens of
their own, and no other token touches them. -/
theorem TokenStream.strays_of_not_inText {before bytes behind : Bytes} (present : bytes ≠ [])
    (high : ∀ byte ∈ bytes, Utf8.IsHigh byte)
    (outside : ¬InText (before ++ (bytes ++ behind)) before.length) :
    ∃ earlier later, (ofBytes (before ++ (bytes ++ behind))).proper =
        earlier ++ (strayEntries before.length bytes ++ later) ∧
      (∀ entry ∈ earlier, entry.stop ≤ before.length) ∧
      ∀ entry ∈ later, before.length + bytes.length ≤ entry.token.offset := by
  have inside : before.length ≤ (before ++ (bytes ++ behind)).length := by
    rw [List.length_append]
    exact Nat.le_add_right _ _
  rcases isBoundary_or_covered inside with boundary | ⟨entry, member, begins, ends⟩
  · obtain ⟨kept, more, split, measured, cuts⟩ := boundary.cuts
    obtain ⟨rfl, rfl⟩ : before = kept ∧ bytes ++ behind = more :=
      List.append_inj split measured.symm
    refine ⟨(ofBytes before).proper,
      (ofBytes behind).proper.map (·.shift (before.length + bytes.length)), ?_, ?_, ?_⟩
    · rw [cuts.stream_append, join, ofBytes_high_append high, List.map_append,
        map_shift_strayEntries, Entry.map_shift_shift, Nat.zero_add, Nat.add_comm bytes.length]
    · intro entry member
      cases isReadIn_of_mem member with
      | reads _ =>
          simp only [List.length_append]
          omega
    · intro entry member
      obtain ⟨inner, _, rfl⟩ := List.mem_map.mp member
      exact Nat.le_add_left _ _
  · obtain ⟨first, others, rfl⟩ := List.exists_cons_of_ne_nil present
    have found : (before ++ (first :: others ++ behind))[before.length]? = some first := by
      rw [List.getElem?_append_right (Nat.le_refl _), Nat.sub_self]
      rfl
    have isText := (isReadIn_of_mem member).isText_of_covered found
      (high first List.mem_cons_self) begins ends
    exact absurd ⟨entry, member, isText, Nat.le_of_lt begins, ends⟩ outside

/-- Every token of a valid text has a valid value, which is shown as it is, and
begins and ends between characters; only a byte of a longer character outside
quoted text and comments is a token that does not.  The bytes of such a character
are invalid tokens one behind the other, and no other token touches them. -/
theorem tokens_keep_characters :
    (∀ text : String, Utf8.isValid (Utf8.ofString text) = true) ∧
    (∀ input, Utf8.isValid input = true → ∀ entry ∈ (ofBytes input).entries,
      ¬entry.IsStray input → entry.KeepsCharacters input) ∧
    ∀ (before : Bytes) (char : Char) (behind : Bytes), 0x80 ≤ char.toNat →
      ¬InText (before ++ (Utf8.encodeChar char ++ behind)) before.length →
      ∃ earlier later, (ofBytes (before ++ (Utf8.encodeChar char ++ behind))).proper =
          earlier ++ (strayEntries before.length (Utf8.encodeChar char) ++ later) ∧
        (∀ entry ∈ earlier, entry.stop ≤ before.length) ∧
        ∀ entry ∈ later,
          before.length + (Utf8.encodeChar char).length ≤ entry.token.offset := by
  refine ⟨fun text => Utf8.isValid_encode text.toList, ?_, ?_⟩
  · intro input valid entry member notStray
    rcases List.mem_append.mp member with proper | final
    · exact (isReadIn_of_mem proper).keepsCharacters valid notStray
    · rw [List.mem_singleton.mp final, final_ofBytes]
      have keeps := Entry.KeepsCharacters.of_parts (Token.bare .endOfInput input.length)
        valid (Utf8.isValid_nil) (Utf8.isValid_nil) (Utf8.isValid_nil) rfl
      rw [List.append_nil, List.append_nil] at keeps
      exact keeps
  · intro before char behind notAscii outside
    obtain ⟨first, tail, spelled, multibyte⟩ := Utf8.Multibyte.exists_of_encodeChar notAscii
    refine strays_of_not_inText ?_ ?_ outside
    · rw [spelled]
      exact List.cons_ne_nil first tail
    · rw [spelled]
      exact multibyte.isHigh

/-- A character that stands alone, others behind a backslash, beside a doubled
quote and before a lone backslash that the text ends with. -/
theorem tokens_keep_characters_in_quotes :
    let before := ascii "? "
    let input := before ++ (Utf8.encodeChar 'é' ++ Utf8.ofString "'\\ü''€' `ñ\\")
    let literal : Entry :=
      { token := { kind := .string, value := Utf8.ofString "ü'€", offset := 4 }, stop := 14 }
    let cutOff : Entry :=
      { token := { kind := .invalid, value := Utf8.ofString "ñ", offset := 15 }, stop := 19 }
    literal ∈ (ofBytes input).entries ∧ literal.KeepsCharacters input ∧
      cutOff ∈ (ofBytes input).entries ∧ cutOff.KeepsCharacters input ∧
      ¬InText input before.length ∧ ∃ earlier later,
        (ofBytes input).proper = earlier ++ (strayEntries 2 (Utf8.encodeChar 'é') ++ later) ∧
          (∀ entry ∈ earlier, entry.stop ≤ 2) ∧ ∀ entry ∈ later, 4 ≤ entry.token.offset := by
  intro before input literal cutOff
  have valid : Utf8.isValid input = true := by decide +kernel
  have isRead : literal ∈ (ofBytes input).entries := by decide +kernel
  have isCutOff : cutOff ∈ (ofBytes input).entries := by decide +kernel
  have outside : ¬InText input before.length := by decide +kernel
  have literalKeeps := tokens_keep_characters.2.1 input valid literal isRead (by
    rintro ⟨isInvalid, _⟩
    cases isInvalid)
  have cutOffKeeps := tokens_keep_characters.2.1 input valid cutOff isCutOff (by
    rintro ⟨_, single, _⟩
    cases single)
  have strays := tokens_keep_characters.2.2 before 'é' _ (by decide) outside
  exact ⟨isRead, literalKeeps, isCutOff, cutOffKeeps, outside, strays⟩

end SqlLexer
