import SqlLexer.Proofs.Lookahead

/-!
# The digits of a decimal numeral

A decimal numeral is a run of digits with a tail: a fraction, an exponent, both
or neither.  Behind a leading zero the digits are octal if there is no tail, so
that an eight or a nine among them is an error.  Both halves of that judgement
show one byte behind a run: the octal digits, and all of the digits.
-/

namespace SqlLexer

namespace Byte

def isOctalDigit (byte : UInt8) : Bool :=
  digitValue byte < 8

/-- An eight or a nine, which makes no octal digit. -/
def isDecimalOnly (byte : UInt8) : Bool :=
  byte == '8'.toUInt8 || byte == '9'.toUInt8

theorem isDigit_iff (byte : UInt8) :
    isDigit byte = true ↔ 48 ≤ byte.toNat ∧ byte.toNat ≤ 57 := by
  rw [isDigit, isBetween, Bool.and_eq_true, decide_eq_true_eq, decide_eq_true_eq,
    UInt8.le_iff_toNat_le, UInt8.le_iff_toNat_le]
  rfl

theorem digitValue_of_isDigit {byte : UInt8} (digit : isDigit byte = true) :
    digitValue byte = byte.toNat - 48 := by
  rw [digitValue, if_pos digit]
  rfl

theorem ten_le_digitValue {byte : UInt8} (notDigit : ¬isDigit byte = true) :
    10 ≤ digitValue byte := by
  rw [digitValue, if_neg notDigit]
  split
  · exact Nat.le_add_left _ _
  · split
    · exact Nat.le_add_left _ _
    · decide

theorem digitValue_lt_ten (byte : UInt8) : decide (digitValue byte < 10) = isDigit byte := by
  by_cases digit : isDigit byte = true
  · have bounds := (isDigit_iff byte).mp digit
    rw [digit, digitValue_of_isDigit digit]
    exact decide_eq_true (by omega)
  · rw [(Bool.not_eq_true _).mp digit]
    exact decide_eq_false (Nat.not_lt.mpr (ten_le_digitValue digit))

theorem isOctalDigit_iff (byte : UInt8) :
    isOctalDigit byte = true ↔ isDigit byte = true ∧ ¬('8'.toUInt8 ≤ byte) := by
  have eight : '8'.toUInt8.toNat = 56 := rfl
  rw [isOctalDigit, decide_eq_true_eq, UInt8.le_iff_toNat_le, eight]
  by_cases digit : isDigit byte = true
  · have bounds := (isDigit_iff byte).mp digit
    rw [digitValue_of_isDigit digit]
    simp only [digit, true_and]
    omega
  · have large := ten_le_digitValue digit
    exact ⟨fun small => by omega, fun octal => absurd octal.1 digit⟩

theorem isDecimalOnly_iff (byte : UInt8) :
    isDecimalOnly byte = true ↔ isDigit byte = true ∧ '8'.toUInt8 ≤ byte := by
  have eight : '8'.toUInt8.toNat = 56 := rfl
  have nine : '9'.toUInt8.toNat = 57 := rfl
  rw [isDecimalOnly, Bool.or_eq_true, beq_iff_eq, beq_iff_eq, ← UInt8.toNat_inj,
    ← UInt8.toNat_inj, isDigit_iff, UInt8.le_iff_toNat_le, eight, nine]
  omega

theorem digit_cases (byte : UInt8) :
    (isOctalDigit byte = true ∧ isDigit byte = true ∧ ¬('8'.toUInt8 ≤ byte)) ∨
      (¬isOctalDigit byte = true ∧ isDecimalOnly byte = true ∧ isDigit byte = true ∧
        '8'.toUInt8 ≤ byte) ∨
      (¬isOctalDigit byte = true ∧ ¬isDecimalOnly byte = true ∧ ¬isDigit byte = true) := by
  rw [isOctalDigit_iff, isDecimalOnly_iff]
  by_cases digit : isDigit byte = true
  · by_cases large : '8'.toUInt8 ≤ byte
    · exact .inr (.inl ⟨fun octal => octal.2 large, ⟨digit, large⟩, digit, large⟩)
    · exact .inl ⟨⟨digit, large⟩, digit, large⟩
  · exact .inr (.inr ⟨fun octal => digit octal.1, fun decimal => digit decimal.1, digit⟩)

end Byte

namespace Numeral

def behindOctal (input : Bytes) : Bytes :=
  input.drop (input.takeWhile Byte.isOctalDigit).length

theorem behindOctal_cons {byte : UInt8} (octal : Byte.isOctalDigit byte = true) (rest : Bytes) :
    behindOctal (byte :: rest) = behindOctal rest := by
  rw [behindOctal, List.takeWhile_cons_of_pos octal]
  rfl

theorem takeWhile_isDigit_eq (input : Bytes) :
    input.takeWhile Byte.isDigit =
      input.takeWhile Byte.isOctalDigit ++
        if (behindOctal input).head?.any Byte.isDecimalOnly then
          (behindOctal input).takeWhile Byte.isDigit
        else [] := by
  induction input with
  | nil => rfl
  | cons byte rest ih =>
      rcases Byte.digit_cases byte with
        ⟨octal, digit, _⟩ | ⟨notOctal, decimal, _⟩ | ⟨notOctal, notDecimal, notDigit⟩
      · rw [List.takeWhile_cons_of_pos digit, List.takeWhile_cons_of_pos octal,
          behindOctal_cons octal, ih]
        rfl
      · simp [behindOctal, List.takeWhile_cons_of_neg notOctal, decimal]
      · simp [behindOctal, List.takeWhile_cons_of_neg notOctal,
          List.takeWhile_cons_of_neg notDigit, notDecimal]

/-- Whether an eight or a nine is among the digits shows behind the octal ones. -/
theorem any_takeWhile_isDigit (input : Bytes) :
    ((input.takeWhile Byte.isDigit).any fun digit => '8'.toUInt8 ≤ digit) =
      (behindOctal input).head?.any Byte.isDecimalOnly := by
  induction input with
  | nil => rfl
  | cons byte rest ih =>
      rcases Byte.digit_cases byte with
        ⟨octal, digit, small⟩ | ⟨notOctal, decimal, digit, large⟩ |
          ⟨notOctal, notDecimal, notDigit⟩
      · rw [List.takeWhile_cons_of_pos digit, behindOctal_cons octal, List.any_cons, ih,
          decide_eq_false small]
        rfl
      · simp [behindOctal, List.takeWhile_cons_of_neg notOctal, decimal, digit, large]
      · simp [behindOctal, List.takeWhile_cons_of_neg notOctal,
          List.takeWhile_cons_of_neg notDigit, notDecimal]

theorem isBadOctal_of_mem {numeral : Bytes} {byte : UInt8} (among : byte ∈ numeral)
    (notDigit : ¬Byte.isDigit byte = true) : isBadOctal numeral = false := by
  have notAll : numeral.all Byte.isDigit = false :=
    List.all_eq_false.mpr ⟨byte, among, notDigit⟩
  rw [isBadOctal, notAll]
  rfl

theorem isBadOctal_of_head_ne_zero {first : UInt8} (notZero : ¬(first == '0'.toUInt8) = true)
    (others : Bytes) : isBadOctal (first :: others) = false := by
  have notFirst : ((first :: others).head? == some '0'.toUInt8) = false := by
    simpa using notZero
  rw [isBadOctal, notFirst, Bool.and_false]
  rfl

theorem isBadOctal_zero_cons {digits : Bytes} (all : digits.all Byte.isDigit = true) :
    isBadOctal ('0'.toUInt8 :: digits) = digits.any fun digit => '8'.toUInt8 ≤ digit := by
  have isDigit : Byte.isDigit '0'.toUInt8 = true := by decide
  have small : decide ('8'.toUInt8 ≤ '0'.toUInt8) = false := by decide
  simp only [isBadOctal, List.all_cons, isDigit, all, List.any_cons, small, List.head?_cons,
    beq_self_eq_true, Bool.true_and, Bool.false_or]

/-- A byte that makes digits the whole part of a decimal numeral. -/
def continuesDigits (byte : UInt8) : Bool :=
  byte == '.'.toUInt8 || byte == 'e'.toUInt8 || byte == 'E'.toUInt8

/-- What stands behind the digits of a decimal numeral. -/
def tail (behind : Bytes) : Bytes :=
  fraction behind ++ exponent (behind.drop (fraction behind).length)

theorem decimal_eq_digits_append_tail (input : Bytes) :
    decimal input =
      input.takeWhile Byte.isDigit ++
        tail (input.drop (input.takeWhile Byte.isDigit).length) := by
  rw [decimal, tail, drop_length_takeWhile, List.append_assoc]

theorem tail_of_not_continuesDigits {behind : Bytes}
    (ends : ¬behind.head?.any continuesDigits = true) : tail behind = [] := by
  cases behind with
  | nil => rfl
  | cons byte rest =>
      simp only [List.head?_cons, Option.any_some, continuesDigits, Bool.or_eq_true, not_or] at ends
      simp [tail, fraction, exponent, ends]

/-- A point or an exponent mark is in the numeral, so that its digits are not octal. -/
theorem isBadOctal_append_tail {behind : Bytes}
    (continues : behind.head?.any continuesDigits = true) (digits : Bytes) :
    isBadOctal (digits ++ tail behind) = false := by
  cases behind with
  | nil => cases continues
  | cons byte rest =>
      have among : byte ∈ tail (byte :: rest) := by
        by_cases point : (byte == '.'.toUInt8) = true
        · simp [tail, fraction, point]
        · have marks : (byte == 'e'.toUInt8 || byte == 'E'.toUInt8) = true := by
            simpa [continuesDigits, point] using continues
          simp [tail, fraction, point, exponent, marks]
      have notDigit : ¬Byte.isDigit byte = true := by
        simp only [List.head?_cons, Option.any_some, continuesDigits, Bool.or_eq_true,
          beq_iff_eq] at continues
        rcases continues with (rfl | rfl) | rfl <;> decide
      exact isBadOctal_of_mem (List.mem_append_right digits among) notDigit

theorem decimal_zero (rest : Bytes) :
    decimal ('0'.toUInt8 :: rest) =
      '0'.toUInt8 :: rest.takeWhile Byte.isDigit ++
        tail (rest.drop (rest.takeWhile Byte.isDigit).length) := by
  have isDigit : Byte.isDigit '0'.toUInt8 = true := by decide
  rw [decimal_eq_digits_append_tail, List.takeWhile_cons_of_pos isDigit]
  rfl

theorem isBadOctal_zero (rest : Bytes) :
    isBadOctal (decimal ('0'.toUInt8 :: rest)) =
      (!(rest.drop (rest.takeWhile Byte.isDigit).length).head?.any continuesDigits &&
        (rest.takeWhile Byte.isDigit).any fun digit => '8'.toUInt8 ≤ digit) := by
  rw [decimal_zero]
  by_cases continues :
      (rest.drop (rest.takeWhile Byte.isDigit).length).head?.any continuesDigits = true
  · rw [isBadOctal_append_tail continues, continues]
    rfl
  · rw [tail_of_not_continuesDigits continues, List.append_nil,
      isBadOctal_zero_cons List.all_takeWhile, (Bool.not_eq_true _).mp continues]
    rfl

theorem any_takeWhile_isDigit_eq (input : Bytes) :
    ((input.takeWhile Byte.isDigit).any fun digit => '8'.toUInt8 ≤ digit) =
      (input.takeWhile Byte.isDigit).any Byte.isDecimalOnly := by
  have all : (input.takeWhile Byte.isDigit).all Byte.isDigit = true := List.all_takeWhile
  rw [Bool.eq_iff_iff, List.any_eq_true, List.any_eq_true]
  constructor
  · rintro ⟨digit, member, large⟩
    have isDigit := List.all_eq_true.mp all digit member
    exact ⟨digit, member, (Byte.isDecimalOnly_iff digit).mpr ⟨isDigit, of_decide_eq_true large⟩⟩
  · rintro ⟨digit, member, decimal⟩
    exact ⟨digit, member, decide_eq_true ((Byte.isDecimalOnly_iff digit).mp decimal).2⟩

/-! ## Any numeral with a leading zero -/

theorem not_isDigit_of_isHexMark {mark : UInt8} (marked : isHexMark mark = true) :
    ¬Byte.isDigit mark = true := by
  simp only [isHexMark, Bool.or_eq_true, beq_iff_eq] at marked
  rcases marked with rfl | rfl <;> decide

/-- A numeral with a leading zero is judged by its digits and the byte behind
them alone.  This includes hexadecimal ones, whose mark ends the digits. -/
theorem isBadOctal_ofFront_zero (rest : Bytes) :
    isBadOctal (ofFront ('0'.toUInt8 :: rest)) = true ↔
      (('0'.toUInt8 :: rest).takeWhile Byte.isDigit).any Byte.isDecimalOnly = true ∧
        ¬(('0'.toUInt8 :: rest).dropWhile Byte.isDigit).head?.any continuesDigits = true := by
  have isDigit : Byte.isDigit '0'.toUInt8 = true := by decide
  have octal : Byte.isDecimalOnly '0'.toUInt8 = false := by decide
  rw [List.takeWhile_cons_of_pos isDigit, List.dropWhile_cons_of_pos isDigit, List.any_cons,
    octal, Bool.false_or, ofFront_zero]
  split
  · next marked =>
      cases rest with
      | nil => cases marked
      | cons mark digits =>
          have notDigit := not_isDigit_of_isHexMark marked
          have among : mark ∈ '0'.toUInt8 :: mark :: digits.takeWhile Byte.isHexDigit := by simp
          have valid := isBadOctal_of_mem among notDigit
          simp [valid, List.takeWhile_cons_of_neg notDigit]
  · rw [isBadOctal_zero, drop_length_takeWhile, any_takeWhile_isDigit_eq, Bool.and_eq_true,
      Bool.not_eq_true', Bool.not_eq_true]
    exact And.comm

theorem ofFront_zero_of_isBadOctal {rest : Bytes}
    (bad : isBadOctal (ofFront ('0'.toUInt8 :: rest)) = true) :
    ofFront ('0'.toUInt8 :: rest) = ('0'.toUInt8 :: rest).takeWhile Byte.isDigit := by
  obtain ⟨decimalOnly, ends⟩ := (isBadOctal_ofFront_zero rest).mp bad
  rw [ofFront_zero, if_neg, decimal_eq_digits_append_tail, drop_length_takeWhile,
    tail_of_not_continuesDigits ends, List.append_nil]
  intro marked
  cases rest with
  | nil => cases marked
  | cons mark digits =>
      have isDigit : Byte.isDigit '0'.toUInt8 = true := by decide
      rw [List.takeWhile_cons_of_pos isDigit,
        List.takeWhile_cons_of_neg (not_isDigit_of_isHexMark marked)] at decimalOnly
      revert decimalOnly
      decide

end Numeral

end SqlLexer
