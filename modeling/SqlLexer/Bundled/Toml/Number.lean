import SqlLexer.Bundled.Toml.Quoted

/-!
# Numbers of a document

Underscores may stand between digits.  Integers are decimal, or carry a mark for base sixteen,
eight or two.  A number outside the range that documents may use is refused.
-/

namespace SqlLexer.Toml.Number

/-- The digits of a group, with the underscores between them removed. -/
def ungroup (isDigit : Char → Bool) : List Char → Option (List Char)
  | [] => none
  | [digit] => if isDigit digit then some [digit] else none
  | digit :: '_' :: rest => if isDigit digit then (ungroup isDigit rest).map (digit :: ·) else none
  | digit :: rest => if isDigit digit then (ungroup isDigit rest).map (digit :: ·) else none

def valueOf (base : Nat) (digits : List Char) : Nat :=
  digits.foldl (fun value digit => value * base + (Quoted.hexValue? digit).getD 0) 0

/-- A digit of a base up to sixteen. -/
def isDigitOf (base : Nat) (char : Char) : Bool :=
  (Quoted.hexValue? char).any (· < base)

def isDecimal : Char → Bool :=
  isDigitOf 10

/-- A sign and the text after it; without a sign the number is positive. -/
def splitSign : List Char → Bool × List Char
  | '-' :: rest => (true, rest)
  | '+' :: rest => (false, rest)
  | text => (false, text)

/-- The digits of a whole number.  A zero may not be followed by further digits. -/
def wholeDigits? (text : List Char) : Option (List Char) :=
  match ungroup isDecimal text with
  | some ('0' :: _ :: _) => none
  | digits => digits

/-- The value of an integer in any base. -/
def integer? : List Char → Option Int
  | '0' :: 'x' :: digits => (ungroup (isDigitOf 16) digits).map fun digits => valueOf 16 digits
  | '0' :: 'o' :: digits => (ungroup (isDigitOf 8) digits).map fun digits => valueOf 8 digits
  | '0' :: 'b' :: digits => (ungroup (isDigitOf 2) digits).map fun digits => valueOf 2 digits
  | text =>
    let (isNegative, whole) := splitSign text
    (wholeDigits? whole).map fun digits =>
      let value : Int := valueOf 10 digits
      if isNegative then -value else value

/-- The integers that a document may hold: those of 128 bits, with or without a sign. -/
def isIntegerInRange (value : Int) : Bool :=
  -Int.ofNat (Nat.pow 2 127) ≤ value && value < Int.ofNat (Nat.pow 2 128)

/-- A decimal fraction: all its digits as one whole number, times a power of ten. -/
structure Decimal where
  digits : List Char
  exponent : Int
  deriving DecidableEq, Repr

/-- The exponent written after its mark. -/
def exponent? (text : List Char) : Option Int :=
  let (isNegative, digits) := splitSign text
  (ungroup isDecimal digits).map fun digits =>
    let value : Int := valueOf 10 digits
    if isNegative then -value else value

/-- The decimal fraction with a point, an exponent or both, read without its sign. -/
def decimal? (text : List Char) : Option Decimal := do
  let isMark (char : Char) : Bool := char == 'e' || char == 'E'
  let mantissa := text.takeWhile fun char => !isMark char
  let exponent ←
    match text.dropWhile fun char => !isMark char with
    | [] => if mantissa.contains '.' then some 0 else none
    | _ :: digits => exponent? digits
  let whole ← wholeDigits? (mantissa.takeWhile (· != '.'))
  match mantissa.dropWhile (· != '.') with
  | [] => some { digits := whole, exponent }
  | _ :: fraction => do
    let digits ← ungroup isDecimal fraction
    some { digits := whole ++ digits, exponent := exponent - digits.length }

/-- A decimal fraction too large for a double: at least half a unit beyond the largest one.  Powers
of ten far from that bound are decided by the number of digits alone. -/
def Decimal.overflows (decimal : Decimal) : Bool :=
  let digits := decimal.digits.dropWhile (· == '0')
  let magnitude : Int := digits.length + decimal.exponent
  if digits.isEmpty || magnitude < 300 then false
  else if 320 < magnitude then true
  else
    let bound := Nat.pow 2 1024 - Nat.pow 2 970
    let value := valueOf 10 digits
    if 0 ≤ decimal.exponent then bound ≤ value * Nat.pow 10 decimal.exponent.toNat
    else bound * Nat.pow 10 (-decimal.exponent).toNat ≤ value

/-- The text is a number with a fraction or an exponent, or one of the special values. -/
def isFloat (text : List Char) : Bool :=
  let magnitude := (splitSign text).2
  magnitude == ['i', 'n', 'f'] || magnitude == ['n', 'a', 'n'] ||
    (decimal? magnitude).any fun decimal => !decimal.overflows

/-- The text is a number that a document may hold. -/
def isNumber (text : List Char) : Bool :=
  (integer? text).any isIntegerInRange || isFloat text

end SqlLexer.Toml.Number
