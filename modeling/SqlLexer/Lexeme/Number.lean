import SqlLexer.Lexeme

/-!
# Numbers

A numeral is either hexadecimal, with the mark `0x`, or decimal with an optional fraction and an
optional exponent.  Neither the digits after the mark nor those of the exponent are required.  The
text of a number is its spelling, never its value.
-/

namespace SqlLexer

namespace Numeral

/-- A point and the digits after it, if a point comes first. -/
def fraction : Bytes → Bytes
  | [] => []
  | byte :: rest =>
    if byte == '.'.toUInt8 then byte :: rest.takeWhile Byte.isDigit else []

/-- The sign that comes first, if any. -/
def sign : Bytes → Bytes
  | [] => []
  | byte :: _ => if byte == '+'.toUInt8 || byte == '-'.toUInt8 then [byte] else []

/-- An exponent mark with its sign and digits, if a mark comes first. -/
def exponent : Bytes → Bytes
  | [] => []
  | byte :: rest =>
    if byte == 'e'.toUInt8 || byte == 'E'.toUInt8 then
      byte :: (sign rest ++ (rest.drop (sign rest).length).takeWhile Byte.isDigit)
    else []

def decimal (input : Bytes) : Bytes :=
  let afterWhole := input.dropWhile Byte.isDigit
  let fractionPart := fraction afterWhole
  input.takeWhile Byte.isDigit ++ fractionPart ++ exponent (afterWhole.drop fractionPart.length)

/-- The hexadecimal numeral at the front of the input, if it carries the mark. -/
def hexadecimal? : Bytes → Option Bytes
  | zero :: mark :: rest =>
    if zero == '0'.toUInt8 && (mark == 'x'.toUInt8 || mark == 'X'.toUInt8) then
      some (zero :: mark :: rest.takeWhile Byte.isHexDigit)
    else none
  | _ => none

/-- The longest numeral at the front of the input.  The hexadecimal mark takes precedence. -/
def ofFront (input : Bytes) : Bytes :=
  (hexadecimal? input).getD (decimal input)

/-- Plain digits after a leading zero are octal, so an eight or a nine among them is an error.  A
fraction or an exponent makes the same digits decimal. -/
def isBadOctal (numeral : Bytes) : Bool :=
  numeral.all Byte.isDigit && numeral.head? == some '0'.toUInt8 &&
    numeral.any fun digit => '8'.toUInt8 ≤ digit

theorem ofFront_ne_nil_of_isDigit {first : UInt8} (digit : Byte.isDigit first = true)
    (rest : Bytes) : ofFront (first :: rest) ≠ [] := by
  unfold ofFront
  cases hex : hexadecimal? (first :: rest) with
  | none => simp [decimal, digit]
  | some numeral =>
    unfold hexadecimal? at hex
    split at hex <;> grind

theorem ofFront_point_ne_nil (rest : Bytes) : ofFront ('.'.toUInt8 :: rest) ≠ [] := by
  have notZero : ('.'.toUInt8 == '0'.toUInt8) = false := by decide
  have noMark : hexadecimal? ('.'.toUInt8 :: rest) = none := by
    cases rest with
    | nil => rfl
    | cons mark digits => simp only [hexadecimal?, notZero, Bool.false_and]; rfl
  have notDigit : Byte.isDigit '.'.toUInt8 = false := by decide
  simp [ofFront, noMark, decimal, notDigit, fraction]

end Numeral

def Lexeme.number (input : Bytes) : Lexeme :=
  let numeral := Numeral.ofFront input
  verbatim (if Numeral.isBadOctal numeral then .invalid else .number) numeral

theorem Lexeme.kind_number_ne (input : Bytes) : (number input).kind ≠ .valueArgument := by
  unfold number verbatim
  dsimp only
  split <;> exact Kind.noConfusion

theorem Lexeme.takesInput_number {input : Bytes} (numeral : Numeral.ofFront input ≠ []) :
    (number input).TakesInput := by
  apply takesInput_verbatim _ numeral
  split <;> simp

end SqlLexer
