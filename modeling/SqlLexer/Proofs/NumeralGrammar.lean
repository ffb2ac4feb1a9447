import SqlLexer.Proofs.LongestMatch
import SqlLexer.Proofs.SpanBytes

/-!
# The grammar of numerals

A numeral has one of three forms, each a regular language: hexadecimal behind a
mark, decimal from its first digit on, or decimal from its point on.  What is
read as a number is the longest match of the three.  The reader knows a single
decimal form, in which the digits before the point may be missing; where a
numeral starts, its longest match is one of the last two forms.
-/

namespace SqlLexer

open Grammar
open scoped Computability

theorem Byte.isHexDigit_eq (byte : UInt8) :
    isHexDigit byte =
      (isDigit byte || isBetween 'a'.toUInt8 'f'.toUInt8 byte ||
        isBetween 'A'.toUInt8 'F'.toUInt8 byte) := by
  have between {first last : UInt8} (within : isBetween first last byte = true) :
      byte.toNat ≤ last.toNat := by
    rw [isBetween, Bool.and_eq_true, decide_eq_true_eq, decide_eq_true_eq] at within
    exact UInt8.le_iff_toNat_le.mp within.2
  by_cases digit : isDigit byte = true
  · have bounds := (isDigit_iff byte).mp digit
    rw [digit, isHexDigit, digitValue_of_isDigit digit]
    exact decide_eq_true (by change byte.toNat - 48 < 16; omega)
  rw [isHexDigit, digitValue, if_neg digit, (Bool.not_eq_true _).mp digit, Bool.false_or]
  by_cases lower : isBetween 'a'.toUInt8 'f'.toUInt8 byte = true
  · have bound : byte.toNat ≤ 102 := between lower
    rw [if_pos lower, lower]
    exact decide_eq_true (by change byte.toNat - 97 + 10 < 16; omega)
  rw [if_neg lower, (Bool.not_eq_true _).mp lower, Bool.false_or]
  by_cases upper : isBetween 'A'.toUInt8 'F'.toUInt8 byte = true
  · have bound : byte.toNat ≤ 70 := between upper
    rw [if_pos upper, upper]
    exact decide_eq_true (by change byte.toNat - 65 + 10 < 16; omega)
  · rw [if_neg upper, (Bool.not_eq_true _).mp upper]
    rfl

namespace Numeral

/-! ## The forms -/

def digit : Language UInt8 :=
  range '0'.toUInt8 '9'.toUInt8

def hexDigit : Language UInt8 :=
  digit + range 'a'.toUInt8 'f'.toUInt8 + range 'A'.toUInt8 'F'.toUInt8

/-- `(\.[0-9]*)?` -/
def fractionPart : Language UInt8 :=
  1 + only '.'.toUInt8 * digit∗

/-- `([eE][+-]?[0-9]*)?` -/
def exponentPart : Language UInt8 :=
  1 + (only 'e'.toUInt8 + only 'E'.toUInt8) *
    ((1 + (only '+'.toUInt8 + only '-'.toUInt8)) * digit∗)

/-- `0[xX][0-9a-fA-F]*` -/
def hexadecimalForm : Language UInt8 :=
  only '0'.toUInt8 * ((only 'x'.toUInt8 + only 'X'.toUInt8) * hexDigit∗)

/-- `[0-9]+(\.[0-9]*)?([eE][+-]?[0-9]*)?` -/
def decimalForm : Language UInt8 :=
  digit * digit∗ * fractionPart * exponentPart

/-- `\.[0-9]+([eE][+-]?[0-9]*)?` -/
def pointForm : Language UInt8 :=
  only '.'.toUInt8 * (digit * digit∗) * exponentPart

def form : Language UInt8 :=
  hexadecimalForm + decimalForm + pointForm

/-- A numeral starts here: with a digit, or with a point before a digit. -/
def Opens (ahead : Bytes) : Prop :=
  ∃ first rest, Byte.isDigit first = true ∧
    (ahead = first :: rest ∨ ahead = '.'.toUInt8 :: first :: rest)

/-- A zero with the mark of a hexadecimal numeral stands here. -/
def OpensHexadecimal (ahead : Bytes) : Prop :=
  ∃ mark rest, isHexMark mark = true ∧ ahead = '0'.toUInt8 :: mark :: rest

/-- Nothing but digits, which a leading zero makes octal, and an eight or a nine
among them. -/
structure IsMistakenOctal (numeral : Bytes) : Prop where
  digits : numeral ∈ digit∗
  zero : numeral.head? = some '0'.toUInt8
  decimalOnly : '8'.toUInt8 ∈ numeral ∨ '9'.toUInt8 ∈ numeral

theorem digit_eq_oneOf : digit = oneOf Byte.isDigit :=
  range_eq_oneOf _ _

theorem hexDigit_eq_oneOf : hexDigit = oneOf Byte.isHexDigit := by
  rw [hexDigit, digit_eq_oneOf, range_eq_oneOf, range_eq_oneOf, oneOf_add_oneOf, oneOf_add_oneOf]
  exact congrArg oneOf (funext fun byte => (Byte.isHexDigit_eq byte).symm)

/-! ## What the readers find -/

theorem isLongest_digits (input : Bytes) :
    IsLongest digit∗ input (input.takeWhile Byte.isDigit) := by
  rw [digit_eq_oneOf]
  exact .run Byte.isDigit input

theorem isLongest_fraction (input : Bytes) : IsLongest fractionPart input (fraction input) := by
  rw [fractionPart, only_eq_oneOf]
  exact .headed isLongest_digits rfl (fun _ _ => rfl) input

theorem isLongest_sign (input : Bytes) :
    IsLongest (1 + (only '+'.toUInt8 + only '-'.toUInt8)) input (sign input) := by
  have signed : IsLongest
      (1 + oneOf (fun byte => byte == '+'.toUInt8 || byte == '-'.toUInt8) * 1) input
      (sign input) := .headed IsLongest.one rfl (fun _ _ => rfl) input
  rw [mul_one, ← only_add_only] at signed
  exact signed

theorem isLongest_exponent (input : Bytes) : IsLongest exponentPart input (exponent input) := by
  rw [exponentPart, only_add_only 'e'.toUInt8]
  refine .headed (.append (fun byte => byte == '+'.toUInt8 || byte == '-'.toUInt8) ?_ ?_
    isLongest_sign isLongest_digits) rfl (fun _ _ => rfl) input
  · rw [only_add_only]
    exact add_le one_le_kstar le_kstar
  · intro word isDigits
    rw [digit_eq_oneOf] at isDigits
    refine not_any_head?_of_mem_kstar (fun byte isDigit isSign => ?_) isDigits
    simp only [Bool.or_eq_true, beq_iff_eq] at isSign
    rcases isSign with rfl | rfl <;> cases isDigit

theorem isLongest_decimal (input : Bytes) :
    IsLongest (digit∗ * fractionPart * exponentPart) input (decimal input) := by
  rw [decimal_eq_append]
  let inMantissa := fun byte => Byte.isDigit byte || byte == '.'.toUInt8
  refine .append inMantissa ?_ ?_ (.append Byte.isDigit ?_ ?_ isLongest_digits isLongest_fraction)
    isLongest_exponent input
  · have digits : digit∗ ≤ (oneOf inMantissa)∗ := by
      rw [digit_eq_oneOf]
      exact kstar_mono (oneOf_mono fun byte isDigit => by simp [inMantissa, isDigit])
    have point : only '.'.toUInt8 ≤ (oneOf inMantissa)∗ := by
      rw [only_eq_oneOf]
      exact (oneOf_mono fun byte isPoint => by simp [inMantissa, isPoint]).trans le_kstar
    have fraction : fractionPart ≤ (oneOf inMantissa)∗ :=
      add_le one_le_kstar ((mul_le_mul' point digits).trans (kstar_mul_kstar _).le)
    exact (mul_le_mul' digits fraction).trans (kstar_mul_kstar _).le
  · intro word isExponent
    rw [exponentPart, only_add_only 'e'.toUInt8] at isExponent
    refine not_any_head?_of_mem_headed (fun byte isMark within => ?_) isExponent
    simp only [Bool.or_eq_true, beq_iff_eq] at isMark
    rcases isMark with rfl | rfl <;> cases within
  · rw [digit_eq_oneOf]
  · intro word isFraction
    rw [fractionPart, only_eq_oneOf] at isFraction
    refine not_any_head?_of_mem_headed (fun byte isPoint isDigit => ?_) isFraction
    rw [eq_of_beq isPoint] at isDigit
    cases isDigit

theorem decimalForm_le : decimalForm ≤ digit∗ * fractionPart * exponentPart :=
  mul_le_mul_left (mul_le_mul_left mul_kstar_le_kstar _) _

theorem pointForm_le : pointForm ≤ digit∗ * fractionPart * exponentPart := by
  have fraction : only '.'.toUInt8 * (digit * digit∗) ≤ fractionPart :=
    (mul_le_mul_right mul_kstar_le_kstar _).trans le_add_self
  calc
    pointForm = 1 * (only '.'.toUInt8 * (digit * digit∗)) * exponentPart := by
      rw [one_mul, pointForm]
    _ ≤ digit∗ * fractionPart * exponentPart :=
      mul_le_mul_left (mul_le_mul' one_le_kstar fraction) _

/-! ## The longest match of all forms -/

theorem mem_digits {first : UInt8} (isDigit : Byte.isDigit first = true) (rest : Bytes) :
    first :: rest.takeWhile Byte.isDigit ∈ digit * digit∗ := by
  have single : [first] ∈ digit := by
    rw [digit_eq_oneOf]
    exact ⟨first, rfl, isDigit⟩
  exact Language.append_mem_mul single (isLongest_digits rest).mem

theorem decimal_mem {input : Bytes} (opens : Opens input) :
    decimal input ∈ decimalForm + pointForm := by
  obtain ⟨first, rest, isDigit, rfl | rfl⟩ := opens
  · refine .inl ?_
    rw [decimal, List.takeWhile_cons_of_pos isDigit]
    exact Language.append_mem_mul
      (Language.append_mem_mul (mem_digits isDigit rest) (isLongest_fraction _).mem)
      (isLongest_exponent _).mem
  · refine .inr ?_
    have notDigit : ¬Byte.isDigit '.'.toUInt8 = true := by decide
    have isFraction : fraction ('.'.toUInt8 :: first :: rest) =
        '.'.toUInt8 :: first :: rest.takeWhile Byte.isDigit := by
      rw [fraction, if_pos (beq_self_eq_true _), List.takeWhile_cons_of_pos isDigit]
    rw [decimal, List.takeWhile_cons_of_neg notDigit, List.dropWhile_cons_of_neg notDigit,
      isFraction, List.nil_append]
    have point : ['.'.toUInt8] ∈ only '.'.toUInt8 := rfl
    exact Language.append_mem_mul (Language.append_mem_mul point (mem_digits isDigit rest))
      (isLongest_exponent _).mem

theorem opensHexadecimal_of_mem {word input : Bytes} (isHexadecimal : word ∈ hexadecimalForm)
    (starts : word <+: input) : OpensHexadecimal input := by
  rw [hexadecimalForm, only_add_only] at isHexadecimal
  obtain ⟨_, rfl, _, ⟨_, ⟨mark, rfl, isMark⟩, digits, _, rfl⟩, rfl⟩ := isHexadecimal
  obtain ⟨rest, rfl⟩ := starts
  exact ⟨mark, digits ++ rest, isMark, rfl⟩

/-- Behind the mark the longest match of all forms is that of the hexadecimal one. -/
theorem isLongest_of_opensHexadecimal {input : Bytes} (opens : OpensHexadecimal input) :
    IsLongest hexadecimalForm input (ofFront input) ∧ IsLongest form input (ofFront input) := by
  obtain ⟨mark, rest, isMark, rfl⟩ := opens
  have isDigit : Byte.isDigit '0'.toUInt8 = true := by decide
  have numeral : ofFront ('0'.toUInt8 :: mark :: rest) =
      '0'.toUInt8 :: mark :: rest.takeWhile Byte.isHexDigit := by
    rw [ofFront_zero]
    exact if_pos isMark
  have hexadecimal : IsLongest hexadecimalForm ('0'.toUInt8 :: mark :: rest)
      (ofFront ('0'.toUInt8 :: mark :: rest)) := by
    rw [numeral, hexadecimalForm, only_eq_oneOf '0'.toUInt8, only_add_only, hexDigit_eq_oneOf]
    exact .cons (beq_self_eq_true _) (.cons isMark (.run Byte.isHexDigit rest))
  refine ⟨hexadecimal, .inl (.inl hexadecimal.mem), hexadecimal.isPrefix, ?_⟩
  have zero : decimal ('0'.toUInt8 :: mark :: rest) = ['0'.toUInt8] := by
    have notDigit := not_isDigit_of_isHexMark isMark
    have notContinued : ¬continuesDigits mark = true := by
      simp only [isHexMark, Bool.or_eq_true, beq_iff_eq] at isMark
      rcases isMark with rfl | rfl <;> decide
    rw [decimal_eq_digits_append_tail, List.takeWhile_cons_of_pos isDigit,
      List.takeWhile_cons_of_neg notDigit]
    exact congrArg _ (tail_of_not_continuesDigits notContinued)
  have short {other : Bytes} (isDecimal : other ∈ digit∗ * fractionPart * exponentPart)
      (starts : other <+: '0'.toUInt8 :: mark :: rest) :
      other.length ≤ (ofFront ('0'.toUInt8 :: mark :: rest)).length := by
    have notLonger := (isLongest_decimal _).longest other isDecimal starts
    rw [zero] at notLonger
    rw [numeral]
    exact notLonger.trans (Nat.succ_le_succ (Nat.zero_le _))
  rintro other ((isHexadecimal | isDecimal) | isPoint) starts
  · exact hexadecimal.longest other isHexadecimal starts
  · exact short (decimalForm_le isDecimal) starts
  · exact short (pointForm_le isPoint) starts

/-- Where a numeral starts, the longest match of the grammar is read. -/
theorem isLongest_ofFront {input : Bytes} (opens : Opens input) :
    IsLongest form input (ofFront input) := by
  by_cases hexadecimal : OpensHexadecimal input
  · exact (isLongest_of_opensHexadecimal hexadecimal).2
  have isDecimal : ofFront input = decimal input := by
    cases isRead : hexadecimal? input with
    | none => rw [ofFront, isRead, Option.getD_none]
    | some numeral =>
        unfold hexadecimal? at isRead
        split at isRead
        · next zero mark rest =>
            split at isRead
            · next marks =>
                rw [Bool.and_eq_true, beq_iff_eq] at marks
                exact absurd ⟨mark, rest, marks.2, by rw [marks.1]⟩ hexadecimal
            · cases isRead
        · cases isRead
  have longest := isLongest_decimal input
  rw [isDecimal]
  refine ⟨?_, longest.isPrefix, ?_⟩
  · rcases decimal_mem opens with inDecimal | inPoint
    · exact .inl (.inr inDecimal)
    · exact .inr inPoint
  · rintro other ((isHexadecimal | inDecimal) | inPoint) starts
    · exact absurd (opensHexadecimal_of_mem isHexadecimal starts) hexadecimal
    · exact longest.longest other (decimalForm_le inDecimal) starts
    · exact longest.longest other (pointForm_le inPoint) starts

theorem isBadOctal_iff (numeral : Bytes) :
    isBadOctal numeral = true ↔ IsMistakenOctal numeral := by
  have digits : numeral.all Byte.isDigit = true ↔ numeral ∈ digit∗ := by
    rw [digit_eq_oneOf, mem_kstar_oneOf, List.all_eq_true]
  have decimalOnly (all : ∀ byte ∈ numeral, Byte.isDigit byte = true) :
      (numeral.any fun digit => '8'.toUInt8 ≤ digit) = true ↔
        '8'.toUInt8 ∈ numeral ∨ '9'.toUInt8 ∈ numeral := by
    rw [List.any_eq_true]
    constructor
    · rintro ⟨byte, member, large⟩
      have either := (Byte.isDecimalOnly_iff byte).mpr ⟨all byte member, of_decide_eq_true large⟩
      rw [Byte.isDecimalOnly, Bool.or_eq_true, beq_iff_eq, beq_iff_eq] at either
      rcases either with rfl | rfl
      · exact .inl member
      · exact .inr member
    · rintro (member | member)
      · exact ⟨_, member, by decide⟩
      · exact ⟨_, member, by decide⟩
  rw [isBadOctal, Bool.and_eq_true, Bool.and_eq_true, beq_iff_eq]
  constructor
  · rintro ⟨⟨all, zero⟩, large⟩
    exact ⟨digits.mp all, zero, (decimalOnly (List.all_eq_true.mp all)).mp large⟩
  · rintro ⟨all, zero, either⟩
    exact ⟨⟨digits.mpr all, zero⟩,
      (decimalOnly (List.all_eq_true.mp (digits.mpr all))).mpr either⟩

end Numeral

theorem Byte.not_isLetter_of_isDigit {byte : UInt8} (digit : isDigit byte = true) :
    ¬isLetter byte = true := by
  have bounds := (isDigit_iff byte).mp digit
  have upper : 'A'.toUInt8.toNat = 65 := rfl
  have lower : 'a'.toUInt8.toNat = 97 := rfl
  have underscore : '_'.toUInt8.toNat = 95 := rfl
  have atSign : '@'.toUInt8.toNat = 64 := rfl
  simp only [isLetter, isUpper, isLower, isBetween, Bool.or_eq_true, Bool.and_eq_true,
    decide_eq_true_eq, beq_iff_eq, UInt8.le_iff_toNat_le, ← UInt8.toNat_inj, upper, lower,
    underscore, atSign]
  omega

theorem Lexeme.ofFront_of_opens {first : UInt8} {rest : Bytes}
    (opens : Numeral.Opens (first :: rest)) :
    Byte.isBlank first = false ∧ ofFront first rest = number (first :: rest) := by
  obtain ⟨other, others, isDigit, same | same⟩ := opens
  · cases same
    refine ⟨Byte.isBlank_of_isPlain (Byte.isPlain_of_isDigit isDigit), ?_⟩
    rw [ofFront, if_neg (Byte.not_isLetter_of_isDigit isDigit), if_pos isDigit]
  · cases same
    have isPoint : ofFront '.'.toUInt8 (other :: others) = Mark.point (other :: others) := rfl
    rw [isPoint, Mark.point]
    exact ⟨by decide, if_pos isDigit⟩

/-- Where a number comes next, a scan takes the longest match of the grammar of
numerals and gives it as it stands.  Behind the mark of a hexadecimal numeral
that is the longest match of the hexadecimal form alone.  The number is valid
unless it consists of digits that cannot be octal. -/
theorem scan_longest_numeral {lexer : Lexer} {gap ahead : Bytes} (faces : lexer.Faces gap ahead)
    (opens : Numeral.Opens ahead) :
    ∃ numeral kind, IsLongest Numeral.form ahead numeral ∧
      (Numeral.OpensHexadecimal ahead → IsLongest Numeral.hexadecimalForm ahead numeral) ∧
      (kind = .invalid ↔ Numeral.IsMistakenOctal numeral) ∧
      (kind = .number ↔ ¬Numeral.IsMistakenOctal numeral) ∧
      lexer.Scans gap kind numeral := by
  have longest := Numeral.isLongest_ofFront opens
  have judged := Numeral.isBadOctal_iff (Numeral.ofFront ahead)
  refine ⟨Numeral.ofFront ahead, (Lexeme.number ahead).kind, longest,
    fun hexadecimal => (Numeral.isLongest_of_opensHexadecimal hexadecimal).1,
    (Lexeme.number_kind_iff ahead).trans judged, ?_, ?_⟩
  · rw [← judged, Lexeme.number, Lexeme.verbatim]
    split
    · next bad => simp [bad]
    · next valid => simp [valid]
  · obtain ⟨first, rest, rfl⟩ : ∃ first rest, ahead = first :: rest := by
      obtain ⟨first, rest, _, same | same⟩ := opens
      · exact ⟨first, rest, same⟩
      · exact ⟨_, _, same⟩
    obtain ⟨notBlank, isNumber⟩ := Lexeme.ofFront_of_opens opens
    refine faces.scans notBlank isNumber ?_
    rw [Lexeme.number, Lexeme.verbatim]
    split <;> rfl

/-- Octal digits that turn decimal half way and are rescued by a point, with an
exponent that has a sign and no digits, behind a placeholder. -/
theorem scan_longest_numeral_rescued :
    let lexer := ((Lexer.start (ascii "?\t0789.E+.5") .default).after [.scan])
    let ahead := ascii "0789.E+.5"
    lexer.Faces (ascii "\t") ahead ∧ Numeral.Opens ahead ∧
      IsLongest Numeral.form ahead (ascii "0789.E+") ∧
      lexer.scan.1 = { kind := .number, value := ascii "0789.E+", offset := 2 } := by
  intro lexer ahead
  have faces : lexer.Faces (ascii "\t") ahead :=
    ⟨by decide, by decide, .of_all (by decide)⟩
  have opens : Numeral.Opens ahead := ⟨'0'.toUInt8, ascii "789.E+.5", by decide, .inl (by decide)⟩
  have scanned : lexer.scan.1 = { kind := .number, value := ascii "0789.E+", offset := 2 } := by
    decide
  obtain ⟨numeral, kind, longest, _, _, _, found⟩ := scan_longest_numeral faces opens
  have isNumeral : numeral = ascii "0789.E+" := by
    rw [found] at scanned
    exact congrArg Token.value scanned
  rw [isNumeral] at longest
  exact ⟨faces, opens, longest, scanned⟩

end SqlLexer
