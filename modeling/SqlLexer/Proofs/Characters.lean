import SqlLexer.Utf8

/-!
# Characters and their bytes

Decoding finds the characters that were encoded, and strict decoding accepts
nothing else: a byte string is valid exactly if characters spell it.
`Multibyte` is the form of a longer character.  All of its bytes are high, so
that an ASCII byte always stands between two characters.
-/

namespace SqlLexer

theorem Byte.forall_of_fin {property : UInt8 → Prop}
    (all : ∀ index : Fin 256, property (UInt8.ofNat index)) (byte : UInt8) : property byte := by
  have here := all ⟨byte.toNat, byte.toNat_lt⟩
  rw [UInt8.ofNat_toNat] at here
  exact here

namespace Utf8

/-- A byte of a longer character, as opposed to an ASCII one. -/
def IsHigh (byte : UInt8) : Prop :=
  0x80 ≤ byte.toNat
  deriving Decidable

/-- The byte continues a character. -/
def IsTail (byte : UInt8) : Prop :=
  0x80 ≤ byte.toNat ∧ byte.toNat ≤ 0xBF

/-- The bytes of a character beyond ASCII with this number.  The conditions on
the second byte exclude overlong forms, surrogates and too large numbers. -/
inductive Multibyte : UInt8 → Bytes → Nat → Prop where
  | two {first second : UInt8} {code : Nat} :
      0xC2 ≤ first.toNat → first.toNat ≤ 0xDF → IsTail second →
      code = (first.toNat - 0xC0) * 64 + (second.toNat - 0x80) →
      Multibyte first [second] code
  | three {first second third : UInt8} {code : Nat} :
      0xE0 ≤ first.toNat → first.toNat ≤ 0xEF → IsTail second → IsTail third →
      (first.toNat = 0xE0 → 0xA0 ≤ second.toNat) →
      (first.toNat = 0xED → second.toNat ≤ 0x9F) →
      code = ((first.toNat - 0xE0) * 64 + (second.toNat - 0x80)) * 64 + (third.toNat - 0x80) →
      Multibyte first [second, third] code
  | four {first second third fourth : UInt8} {code : Nat} :
      0xF0 ≤ first.toNat → first.toNat ≤ 0xF4 → IsTail second → IsTail third → IsTail fourth →
      (first.toNat = 0xF0 → 0x90 ≤ second.toNat) →
      (first.toNat = 0xF4 → second.toNat ≤ 0x8F) →
      code = (((first.toNat - 0xF0) * 64 + (second.toNat - 0x80)) * 64 + (third.toNat - 0x80)) * 64
        + (fourth.toNat - 0x80) →
      Multibyte first [second, third, fourth] code

theorem lead?_eq (byte : UInt8) :
    lead? byte =
      if 0xC2 ≤ byte.toNat ∧ byte.toNat ≤ 0xDF then some ⟨1, 0x80, 0xBF, byte.toNat - 0xC0⟩
      else if 0xE0 ≤ byte.toNat ∧ byte.toNat ≤ 0xEF then
        some ⟨2, if byte.toNat = 0xE0 then 0xA0 else 0x80,
          if byte.toNat = 0xED then 0x9F else 0xBF, byte.toNat - 0xE0⟩
      else if 0xF0 ≤ byte.toNat ∧ byte.toNat ≤ 0xF4 then
        some ⟨3, if byte.toNat = 0xF0 then 0x90 else 0x80,
          if byte.toNat = 0xF4 then 0x8F else 0xBF, byte.toNat - 0xF0⟩
      else none := by
  revert byte
  exact Byte.forall_of_fin (by decide +kernel)

theorem isBetween_iff (lowest highest byte : UInt8) :
    Byte.isBetween lowest highest byte = true ↔
      lowest.toNat ≤ byte.toNat ∧ byte.toNat ≤ highest.toNat := by
  rw [Byte.isBetween, Bool.and_eq_true, decide_eq_true_eq, decide_eq_true_eq,
    UInt8.le_iff_toNat_le, UInt8.le_iff_toNat_le]

theorem isTail_iff {byte : UInt8} : IsTail byte ↔ Byte.isBetween 0x80 0xBF byte = true :=
  (isBetween_iff 0x80 0xBF byte).symm

theorem IsTail.isHigh {byte : UInt8} (isTail : IsTail byte) : IsHigh byte :=
  isTail.1

theorem IsTail.mod {byte : UInt8} (isTail : IsTail byte) :
    byte.toNat % 64 = byte.toNat - 0x80 := by
  obtain ⟨low, high⟩ := isTail
  omega

theorem toNat_ofNat_of_lt {value : Nat} (small : value < 256) :
    (UInt8.ofNat value).toNat = value := by
  rw [UInt8.toNat_ofNat']
  exact Nat.mod_eq_of_lt small

theorem toNat_continuationByte (bits : Nat) :
    (continuationByte bits).toNat = 0x80 + bits % 64 :=
  toNat_ofNat_of_lt (by omega)

theorem isTail_continuationByte (bits : Nat) : IsTail (continuationByte bits) := by
  rw [IsTail, toNat_continuationByte]
  omega

theorem isBetween_narrowed_iff (raised lowered : Prop) [Decidable raised] [Decidable lowered]
    (lowest highest : UInt8) (lowest_ge : 0x80 ≤ lowest.toNat) (highest_le : highest.toNat ≤ 0xBF)
    (byte : UInt8) :
    Byte.isBetween (if raised then lowest else 0x80) (if lowered then highest else 0xBF) byte =
        true ↔
      IsTail byte ∧ (raised → lowest.toNat ≤ byte.toNat) ∧
        (lowered → byte.toNat ≤ highest.toNat) := by
  have low : (if raised then lowest else 0x80).toNat ≤ byte.toNat ↔
      0x80 ≤ byte.toNat ∧ (raised → lowest.toNat ≤ byte.toNat) := by
    split
    · next raises =>
        simp only [raises, true_implies]
        omega
    · next not =>
        simp only [not, false_implies, and_true]
        rfl
  have high : byte.toNat ≤ (if lowered then highest else 0xBF).toNat ↔
      byte.toNat ≤ 0xBF ∧ (lowered → byte.toNat ≤ highest.toNat) := by
    split
    · next lowers =>
        simp only [lowers, true_implies]
        omega
    · next not =>
        simp only [not, false_implies, and_true]
        rfl
  rw [isBetween_iff, low, high, IsTail, and_assoc, and_assoc, and_left_comm (b := byte.toNat ≤ _)]

namespace Multibyte

variable {first : UInt8} {tail : Bytes} {code : Nat}

theorem isHigh (multibyte : Multibyte first tail code) : ∀ byte ∈ first :: tail, IsHigh byte := by
  cases multibyte with
  | two low _ second =>
      have firstHigh : IsHigh first := Nat.le_trans (by decide) low
      simp [firstHigh, second.isHigh]
  | three low _ second third =>
      have firstHigh : IsHigh first := Nat.le_trans (by decide) low
      simp [firstHigh, second.isHigh, third.isHigh]
  | four low _ second third fourth =>
      have firstHigh : IsHigh first := Nat.le_trans (by decide) low
      simp [firstHigh, second.isHigh, third.isHigh, fourth.isHigh]

theorem ofFront (multibyte : Multibyte first tail code) (behind : Bytes) :
    Piece.ofFront first (tail ++ behind) = .character (Char.ofNat code) tail.length := by
  have notAscii : ¬first < 0x80 := by
    have high := multibyte.isHigh first List.mem_cons_self
    rw [UInt8.lt_iff_toNat_lt]
    exact Nat.not_lt.mpr high
  rw [Piece.ofFront, if_neg notAscii, lead?_eq]
  cases multibyte with
  | two low high second value =>
      simp [low, high, continuation, isTail_iff.mp second, second.mod, value]
  | @three second third _ low high secondTail thirdTail notOverlong notSurrogate value =>
      have notTwo : ¬(0xC2 ≤ first.toNat ∧ first.toNat ≤ 0xDF) := by omega
      have narrowed := (isBetween_narrowed_iff (first.toNat = 0xE0) (first.toNat = 0xED)
        0xA0 0x9F (by decide) (by decide) second).mpr
          ⟨secondTail, notOverlong, notSurrogate⟩
      simp [notTwo, low, high, continuation, narrowed, isTail_iff.mp thirdTail, secondTail.mod,
        thirdTail.mod, value]
  | @four second third fourth _ low high secondTail thirdTail fourthTail notOverlong notLarge
      value =>
      have notTwo : ¬(0xC2 ≤ first.toNat ∧ first.toNat ≤ 0xDF) := by omega
      have notThree : ¬(0xE0 ≤ first.toNat ∧ first.toNat ≤ 0xEF) := by omega
      have narrowed := (isBetween_narrowed_iff (first.toNat = 0xF0) (first.toNat = 0xF4)
        0x90 0x8F (by decide) (by decide) second).mpr
          ⟨secondTail, notOverlong, notLarge⟩
      simp [notTwo, notThree, low, high, continuation, narrowed, isTail_iff.mp thirdTail,
        isTail_iff.mp fourthTail, secondTail.mod, thirdTail.mod, fourthTail.mod, value]

theorem isValidChar (multibyte : Multibyte first tail code) : code.isValidChar := by
  cases multibyte with
  | two _ high second value =>
      obtain ⟨_, secondHigh⟩ := second
      exact .inl (by omega)
  | three low high second third notOverlong notSurrogate value =>
      obtain ⟨_, secondHigh⟩ := second
      obtain ⟨_, thirdHigh⟩ := third
      by_cases below : first.toNat ≤ 0xED
      · exact .inl (by omega)
      · exact .inr ⟨by omega, by omega⟩
  | four low high second third fourth notOverlong notLarge value =>
      obtain ⟨secondLow, secondHigh⟩ := second
      obtain ⟨_, thirdHigh⟩ := third
      obtain ⟨_, fourthHigh⟩ := fourth
      exact .inr ⟨by omega, by omega⟩

theorem toNat_ofNat (multibyte : Multibyte first tail code) : (Char.ofNat code).toNat = code := by
  rw [Char.ofNat, dif_pos multibyte.isValidChar]
  rfl

theorem exists_of_length_continuation {wanted : Nat} {lowest highest : UInt8} {rest : Bytes}
    (complete : (continuation (wanted + 1) lowest highest rest).length = wanted + 1) :
    ∃ byte others, rest = byte :: others ∧ Byte.isBetween lowest highest byte = true ∧
      (continuation wanted 0x80 0xBF others).length = wanted := by
  cases rest with
  | nil => cases complete
  | cons byte others =>
      rw [continuation] at complete
      split at complete
      · next between => exact ⟨byte, others, rfl, between, Nat.succ.inj complete⟩
      · cases complete

/-- The piece at the front of an input is a longer character only if it has the form of one. -/
theorem exists_of_ofFront {rest : Bytes} {char : Char} {further : Nat} (high : IsHigh first)
    (piece : Piece.ofFront first rest = .character char further) :
    ∃ tail behind, rest = tail ++ behind ∧ further = tail.length ∧
      Multibyte first tail char.toNat := by
  have notAscii : ¬first < 0x80 := by
    rw [UInt8.lt_iff_toNat_lt]
    exact Nat.not_lt.mpr high
  suffices found : ∃ tail behind code, rest = tail ++ behind ∧ Multibyte first tail code by
    obtain ⟨tail, behind, code, rfl, multibyte⟩ := found
    rw [multibyte.ofFront] at piece
    cases piece
    exact ⟨tail, behind, rfl, rfl, by rwa [multibyte.toNat_ofNat]⟩
  rw [Piece.ofFront, if_neg notAscii, lead?_eq] at piece
  split at piece
  · cases piece
  next lead found =>
  have complete : (continuation lead.following lead.lowest lead.highest rest).length =
      lead.following := by
    by_cases complete :
        (continuation lead.following lead.lowest lead.highest rest).length = lead.following
    · exact complete
    · simp only [if_neg complete] at piece
      cases piece
  split at found
  · next range =>
      cases found
      obtain ⟨second, behind, rfl, between, _⟩ := exists_of_length_continuation complete
      have secondTail := isTail_iff.mpr between
      exact ⟨[second], behind, _, rfl, .two range.1 range.2 secondTail rfl⟩
  split at found
  · next range =>
      cases found
      obtain ⟨second, others, rfl, between, more⟩ := exists_of_length_continuation complete
      obtain ⟨third, behind, rfl, betweenThird, _⟩ := exists_of_length_continuation more
      obtain ⟨secondTail, notOverlong, notSurrogate⟩ :=
        (isBetween_narrowed_iff _ _ _ _ (by decide) (by decide) second).mp between
      have thirdTail := isTail_iff.mpr betweenThird
      exact ⟨[second, third], behind, _, rfl,
        .three range.1 range.2 secondTail thirdTail notOverlong notSurrogate rfl⟩
  split at found
  · next range =>
      cases found
      obtain ⟨second, others, rfl, between, more⟩ := exists_of_length_continuation complete
      obtain ⟨third, others, rfl, betweenThird, more⟩ := exists_of_length_continuation more
      obtain ⟨fourth, behind, rfl, betweenFourth, _⟩ := exists_of_length_continuation more
      obtain ⟨secondTail, notOverlong, notLarge⟩ :=
        (isBetween_narrowed_iff _ _ _ _ (by decide) (by decide) second).mp between
      have thirdTail := isTail_iff.mpr betweenThird
      have fourthTail := isTail_iff.mpr betweenFourth
      exact ⟨[second, third, fourth], behind, _, rfl,
        .four range.1 range.2 secondTail thirdTail fourthTail notOverlong notLarge rfl⟩
  cases found

theorem exists_of_encodeChar {char : Char} (notAscii : 0x80 ≤ char.toNat) :
    ∃ first tail, encodeChar char = first :: tail ∧ Multibyte first tail char.toNat := by
  have valid : char.toNat.isValidChar := char.valid
  have atMost : char.toNat < 0x110000 := by
    rcases valid with low | high
    · omega
    · exact high.2
  unfold encodeChar
  dsimp only
  rw [if_neg (Nat.not_lt.mpr notAscii)]
  split
  · next small =>
      have first : (UInt8.ofNat (0xC0 + char.toNat / 64)).toNat = 0xC0 + char.toNat / 64 :=
        toNat_ofNat_of_lt (by omega)
      refine ⟨_, _, rfl, .two ?_ ?_ (isTail_continuationByte _) ?_⟩ <;>
        simp only [first, toNat_continuationByte] <;> omega
  split
  · next small =>
      have first : (UInt8.ofNat (0xE0 + char.toNat / 4096)).toNat = 0xE0 + char.toNat / 4096 :=
        toNat_ofNat_of_lt (by omega)
      refine ⟨_, _, rfl, .three ?_ ?_ (isTail_continuationByte _) (isTail_continuationByte _)
        ?_ ?_ ?_⟩ <;>
        simp only [first, toNat_continuationByte] <;> omega
  · have first : (UInt8.ofNat (0xF0 + char.toNat / 262144)).toNat = 0xF0 + char.toNat / 262144 :=
      toNat_ofNat_of_lt (by omega)
    refine ⟨_, _, rfl, .four ?_ ?_ (isTail_continuationByte _) (isTail_continuationByte _)
      (isTail_continuationByte _) ?_ ?_ ?_⟩ <;>
      simp only [first, toNat_continuationByte] <;> omega

theorem length_tail (multibyte : Multibyte first tail code) :
    tail.length = if code < 0x800 then 1 else if code < 0x10000 then 2 else 3 := by
  cases multibyte with
  | two low high second value =>
      obtain ⟨_, _⟩ := second
      rw [if_pos (by omega)]
      rfl
  | three low high second third notOverlong notSurrogate value =>
      obtain ⟨_, _⟩ := second
      obtain ⟨_, _⟩ := third
      rw [if_neg (by omega), if_pos (by omega)]
      rfl
  | four low high second third fourth notOverlong notLarge value =>
      obtain ⟨_, _⟩ := second
      obtain ⟨_, _⟩ := third
      obtain ⟨_, _⟩ := fourth
      rw [if_neg (by omega), if_neg (by omega)]
      rfl

theorem unique {other : UInt8} {otherTail : Bytes} (multibyte : Multibyte first tail code)
    (otherMultibyte : Multibyte other otherTail code) : first :: tail = other :: otherTail := by
  have sameLength := multibyte.length_tail.trans otherMultibyte.length_tail.symm
  cases multibyte with
  | two _ _ second value =>
      cases otherMultibyte with
      | two _ _ otherSecond otherValue =>
          simp only [List.cons.injEq, ← UInt8.toNat_inj, IsTail, and_true] at *
          omega
      | three | four => cases sameLength
  | three _ _ second third _ _ value =>
      cases otherMultibyte with
      | three _ _ otherSecond otherThird _ _ otherValue =>
          simp only [List.cons.injEq, ← UInt8.toNat_inj, IsTail, and_true] at *
          omega
      | two | four => cases sameLength
  | four _ _ second third fourth _ _ value =>
      cases otherMultibyte with
      | four _ _ otherSecond otherThird otherFourth _ _ otherValue =>
          simp only [List.cons.injEq, ← UInt8.toNat_inj, IsTail, and_true] at *
          omega
      | two | three => cases sameLength

theorem notAscii (multibyte : Multibyte first tail code) : 0x80 ≤ code := by
  cases multibyte with
  | two | three | four => omega

end Multibyte

/-- The bytes of a character are one ASCII byte, or have the form of a longer character. -/
theorem encodeChar_cases (char : Char) :
    (∃ byte, encodeChar char = [byte] ∧ byte.toNat < 0x80 ∧ char = Char.ofNat byte.toNat) ∨
      ∃ first tail, encodeChar char = first :: tail ∧ Multibyte first tail char.toNat := by
  by_cases ascii : char.toNat < 0x80
  · have value : (UInt8.ofNat char.toNat).toNat = char.toNat := toNat_ofNat_of_lt (by omega)
    refine .inl ⟨UInt8.ofNat char.toNat, ?_, ?_, ?_⟩
    · rw [encodeChar, if_pos ascii]
    · rw [value]
      exact ascii
    · rw [value, Char.ofNat_toNat]
  · exact .inr (Multibyte.exists_of_encodeChar (Nat.not_lt.mp ascii))

theorem encode_cons (char : Char) (chars : List Char) :
    encode (char :: chars) = encodeChar char ++ encode chars :=
  List.flatMap_cons

theorem encode_append (first second : List Char) :
    encode (first ++ second) = encode first ++ encode second :=
  List.flatMap_append

theorem pieces_cons (first : UInt8) (rest : Bytes) :
    pieces (first :: rest) =
      Piece.ofFront first rest :: pieces (rest.drop (Piece.ofFront first rest).further) := by
  rw [pieces]

/-- Decoding finds the character that was encoded. -/
theorem pieces_encodeChar_append (char : Char) (behind : Bytes) :
    ∃ further, pieces (encodeChar char ++ behind) = .character char further :: pieces behind := by
  rcases encodeChar_cases char with
    ⟨byte, spelled, ascii, rfl⟩ | ⟨first, tail, spelled, multibyte⟩
  · have isAscii : byte < 0x80 := by
      rw [UInt8.lt_iff_toNat_lt]
      exact ascii
    have front : Piece.ofFront byte behind = .character (Char.ofNat byte.toNat) 0 := by
      rw [Piece.ofFront, if_pos isAscii]
    refine ⟨0, ?_⟩
    rw [spelled, List.singleton_append, pieces_cons, front]
    rfl
  · have front := multibyte.ofFront behind
    rw [Char.ofNat_toNat] at front
    refine ⟨tail.length, ?_⟩
    rw [spelled, List.cons_append, pieces_cons, front, Piece.further, List.drop_left]

theorem char?_pieces_encode (chars : List Char) :
    (pieces (encode chars)).map Piece.char? = chars.map some := by
  induction chars with
  | nil =>
      rw [encode, List.flatMap_nil, pieces]
      rfl
  | cons char chars ih =>
      obtain ⟨further, front⟩ := pieces_encodeChar_append char (encode chars)
      rw [encode_cons, front, List.map_cons, ih]
      rfl

theorem isValid_encode (chars : List Char) : isValid (encode chars) = true := by
  have all : ((pieces (encode chars)).map Piece.char?).all Option.isSome = true := by
    rw [char?_pieces_encode]
    simp
  rw [List.all_map] at all
  exact all

theorem decodeLossy_encode (chars : List Char) : decodeLossy (encode chars) = chars := by
  have shown : ((pieces (encode chars)).map Piece.char?).map (·.getD replacement) = chars := by
    simp [char?_pieces_encode, Function.comp_def]
  rw [List.map_map] at shown
  exact shown

theorem ofString_text_encode (chars : List Char) :
    ofString (text (encode chars)) = encode chars := by
  rw [ofString, text, String.toList_ofList, decodeLossy_encode]

theorem encodeChar_of_ofFront {first : UInt8} {rest : Bytes} {char : Char} {further : Nat}
    (piece : Piece.ofFront first rest = .character char further) :
    first :: rest = encodeChar char ++ rest.drop further := by
  by_cases ascii : first < 0x80
  · rw [Piece.ofFront, if_pos ascii] at piece
    cases piece
    have small : first.toNat < 0x80 := by
      rw [UInt8.lt_iff_toNat_lt] at ascii
      exact ascii
    have value : (Char.ofNat first.toNat).toNat = first.toNat := by
      rw [Char.ofNat, dif_pos (.inl (by omega))]
      rfl
    rw [encodeChar, value, if_pos small, UInt8.ofNat_toNat]
    rfl
  · have high : IsHigh first := by
      rw [UInt8.lt_iff_toNat_lt] at ascii
      exact Nat.not_lt.mp ascii
    obtain ⟨tail, behind, rfl, rfl, multibyte⟩ := Multibyte.exists_of_ofFront high piece
    obtain ⟨other, otherTail, spelled, otherMultibyte⟩ :=
      Multibyte.exists_of_encodeChar multibyte.notAscii
    rw [spelled, ← multibyte.unique otherMultibyte, List.drop_left, List.cons_append]

/-- The valid byte strings are those that characters spell. -/
theorem isValid_iff (bytes : Bytes) : isValid bytes = true ↔ ∃ chars, bytes = encode chars := by
  constructor
  · intro valid
    induction bytes using pieces.induct with
    | case1 => exact ⟨[], rfl⟩
    | case2 first rest piece ih =>
        rw [isValid, pieces_cons, List.all_cons, Bool.and_eq_true] at valid
        obtain ⟨char, further, front⟩ : ∃ char further,
            Piece.ofFront first rest = .character char further := by
          cases front : Piece.ofFront first rest with
          | character char further => exact ⟨char, further, rfl⟩
          | illFormed further =>
              rw [front] at valid
              cases valid.1
        obtain ⟨chars, behind⟩ := ih valid.2
        simp only [piece, front, Piece.further] at behind
        refine ⟨char :: chars, ?_⟩
        rw [encodeChar_of_ofFront front, behind, encode_cons]
  · rintro ⟨chars, rfl⟩
    exact isValid_encode chars

theorem isValid_append {first second : Bytes} (firstValid : isValid first = true)
    (secondValid : isValid second = true) : isValid (first ++ second) = true := by
  obtain ⟨firstChars, rfl⟩ := (isValid_iff first).mp firstValid
  obtain ⟨secondChars, rfl⟩ := (isValid_iff second).mp secondValid
  rw [← encode_append]
  exact isValid_encode _

theorem isValid_nil : isValid [] = true :=
  isValid_encode []

theorem isValid_encodeChar (char : Char) : isValid (encodeChar char) = true := by
  have valid := isValid_encode [char]
  rw [encode_cons, encode, List.flatMap_nil, List.append_nil] at valid
  exact valid

/-! ## An ASCII byte stands between characters -/

theorem exists_of_encode_eq {chars : List Char} {before behind : Bytes} {byte : UInt8}
    (ascii : byte.toNat < 0x80) (split : encode chars = before ++ byte :: behind) :
    ∃ earlier later, before = encode earlier ∧ behind = encode later := by
  induction chars generalizing before with
  | nil =>
      rw [encode, List.flatMap_nil] at split
      exact absurd split.symm (by simp)
  | cons char chars ih =>
      rw [encode_cons] at split
      rcases List.append_eq_append_iff.mp split with ⟨more, rfl, rest⟩ | ⟨more, spelled, rest⟩
      · obtain ⟨earlier, later, rfl, rfl⟩ := ih rest
        exact ⟨char :: earlier, later, (encode_cons char earlier).symm, rfl⟩
      · cases more with
        | nil =>
            rw [List.nil_append] at rest
            obtain ⟨earlier, later, nothing, rfl⟩ := @ih [] rest.symm
            exact ⟨[char], later, by simpa [encode] using spelled.symm, rfl⟩
        | cons head more =>
            obtain ⟨rfl, rfl⟩ := List.cons.inj rest
            rcases encodeChar_cases char with
              ⟨single, spelledSingle, _⟩ | ⟨first, tail, spelledMany, multibyte⟩
            · rw [spelledSingle] at spelled
              obtain ⟨rfl, rfl⟩ : before = [] ∧ more = [] := by
                cases before with
                | nil => exact ⟨rfl, (List.cons.inj spelled).2.symm⟩
                | cons other others => simp at spelled
              exact ⟨[], chars, rfl, rfl⟩
            · have high := multibyte.isHigh byte (by
                rw [← spelledMany, spelled]
                exact List.mem_append_right before List.mem_cons_self)
              exact absurd high (Nat.not_le.mpr ascii)

theorem isValid_singleton {byte : UInt8} (ascii : byte.toNat < 0x80) : isValid [byte] = true := by
  rw [isValid, pieces_cons, Piece.ofFront, if_pos (UInt8.lt_iff_toNat_lt.mpr ascii)]
  simp [Piece.further, pieces, Piece.char?]

/-- Text falls into two valid parts at every ASCII byte. -/
theorem isValid_split {before behind : Bytes} {byte : UInt8} (ascii : byte.toNat < 0x80) :
    isValid (before ++ byte :: behind) = true ↔
      isValid before = true ∧ isValid behind = true := by
  constructor
  · intro valid
    obtain ⟨chars, split⟩ := (isValid_iff _).mp valid
    obtain ⟨earlier, later, rfl, rfl⟩ := exists_of_encode_eq ascii split.symm
    exact ⟨isValid_encode earlier, isValid_encode later⟩
  · rintro ⟨beforeValid, behindValid⟩
    exact isValid_append beforeValid (isValid_append (isValid_singleton ascii) behindValid)

theorem isValid_of_cons {byte : UInt8} {rest : Bytes} (ascii : byte.toNat < 0x80)
    (valid : isValid (byte :: rest) = true) : isValid rest = true :=
  ((@isValid_split [] rest byte ascii).mp valid).2

theorem isValid_of_concat {byte : UInt8} {before : Bytes} (ascii : byte.toNat < 0x80)
    (valid : isValid (before ++ [byte]) = true) : isValid before = true :=
  ((isValid_split ascii).mp valid).1

/-- The place lies between two characters of the text, or at one of its ends. -/
def IsBoundary (bytes : Bytes) (place : Nat) : Prop :=
  ∃ before behind : List Char,
    bytes = encode before ++ encode behind ∧ place = (encode before).length

theorem isBoundary_of_isValid {before behind : Bytes} (beforeValid : isValid before = true)
    (behindValid : isValid behind = true) : IsBoundary (before ++ behind) before.length := by
  obtain ⟨earlier, rfl⟩ := (isValid_iff before).mp beforeValid
  obtain ⟨later, rfl⟩ := (isValid_iff behind).mp behindValid
  exact ⟨earlier, later, rfl, rfl⟩

end Utf8

end SqlLexer
