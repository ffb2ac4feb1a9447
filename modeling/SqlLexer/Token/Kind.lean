import SqlLexer.Keyword

/-!
# Kinds of tokens

Every kind has an integer code for the grammar: zero for the end of the input, the byte itself
for a structural byte, and numbers from 57346 on for the rest.  Keywords come last, in the order
of the table of reserved words.
-/

namespace SqlLexer

/-- What a token is, apart from its text and place. -/
inductive Kind where
  | endOfInput
  | punctuation (byte : UInt8)
  | keyword (word : Keyword)
  /-- A name, with or without quotes. -/
  | identifier
  | string
  | number
  /-- A bind variable such as `:name`, or the placeholder `?`. -/
  | valueArgument
  | comment
  /-- The operator `<>`, also written `!=`. -/
  | notEqual
  | lessOrEqual
  | greaterOrEqual
  /-- The operator `<=>`. -/
  | nullSafeEqual
  /-- Text that is no token of the dialect. -/
  | invalid
  deriving DecidableEq, Repr

namespace Kind

/-- The bytes that are tokens on their own. -/
def structuralBytes : Bytes :=
  ['=', ',', ';', '(', ')', '+', '*', '%', '&', '|', '^', '~', '.', '/', '-', '<', '>'].map
    Char.toUInt8

def firstKeywordCode : Nat := 57356

/-- The code by which the grammar knows a kind. -/
def code : Kind → Nat
  | endOfInput => 0
  | punctuation byte => byte.toNat
  | keyword word => firstKeywordCode + word.index
  | invalid => 57346
  | identifier => 57347
  | string => 57348
  | number => 57349
  | valueArgument => 57350
  | comment => 57351
  | notEqual => 57352
  | lessOrEqual => 57353
  | greaterOrEqual => 57354
  | nullSafeEqual => 57355

/-- The kinds other than keywords and structural bytes, in the order of their codes. -/
def named : List Kind :=
  [endOfInput, invalid, identifier, string, number, valueArgument, comment, notEqual,
    lessOrEqual, greaterOrEqual, nullSafeEqual]

/-- The kind that has a code.  A byte that is not structural is the code of nothing. -/
def ofCode? (code : Int) : Option Kind :=
  if code < 0 then none
  else
    let code := code.toNat
    match named.find? fun kind => kind.code == code with
    | some kind => some kind
    | none =>
      match structuralBytes.find? fun byte => byte.toNat == code with
      | some byte => some (punctuation byte)
      | none =>
        if firstKeywordCode ≤ code then
          (Keyword.ofIndex? (code - firstKeywordCode)).map keyword
        else none

/-- The name of a kind in listings and messages.  A structural byte is shown as the character of
the same number, in apostrophes. -/
def display : Kind → String
  | endOfInput => "EOF"
  | punctuation byte => String.ofList ['\x27', Char.ofNat byte.toNat, '\x27']
  | keyword word => word.display
  | identifier => "ID"
  | string => "STRING"
  | number => "NUMBER"
  | valueArgument => "VALUE_ARG"
  | comment => "COMMENTS"
  | notEqual => "NE"
  | lessOrEqual => "LE"
  | greaterOrEqual => "GE"
  | nullSafeEqual => "NULL_SAFE_EQUAL"
  | invalid => "LEX_ERROR"

def isKeyword : Kind → Bool
  | keyword _ => true
  | _ => false

/-- The grammar receives the text of such a token. -/
def hasSemanticValue : Kind → Bool
  | identifier | string | number | valueArgument | comment => true
  | _ => false

/-- The text of such a token is shown in error messages. -/
def carriesText (kind : Kind) : Bool :=
  kind.hasSemanticValue || kind.isKeyword || kind == invalid

/-- Such a token is withheld from the grammar unless comments are allowed. -/
def isSkippable (kind : Kind) : Bool :=
  kind == comment

end Kind

end SqlLexer
