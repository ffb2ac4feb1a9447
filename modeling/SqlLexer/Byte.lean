/-!
# Bytes and their classes

SQL text is read as bytes, so that malformed UTF-8 cannot stop the lexer.  Every class below is
decided by ASCII alone: a byte of a longer character is neither a letter, a digit nor a blank.
-/

namespace SqlLexer

abbrev Bytes := List UInt8

/-- The bytes of an ASCII text, one for each character. -/
def ascii (text : String) : Bytes :=
  text.toList.map Char.toUInt8

namespace Byte

def lineFeed : UInt8 := 0x0A

/-- The quote that encloses a string literal. -/
def singleQuote : UInt8 := 0x27

/-- The other quote that may enclose a string literal. -/
def doubleQuote : UInt8 := 0x22

/-- The quote that encloses an identifier. -/
def backQuote : UInt8 := 0x60

/-- The byte that starts an escape inside quoted text. -/
def backslash : UInt8 := 0x5C

def isBetween (first last byte : UInt8) : Bool :=
  first ≤ byte && byte ≤ last

def isUpper (byte : UInt8) : Bool :=
  isBetween 'A'.toUInt8 'Z'.toUInt8 byte

def isLower (byte : UInt8) : Bool :=
  isBetween 'a'.toUInt8 'z'.toUInt8 byte

/-- A byte that may start a word: an ASCII letter, an underscore or an at sign. -/
def isLetter (byte : UInt8) : Bool :=
  isUpper byte || isLower byte || byte == '_'.toUInt8 || byte == '@'.toUInt8

def isDigit (byte : UInt8) : Bool :=
  isBetween '0'.toUInt8 '9'.toUInt8 byte

/-- A byte that separates lexemes: space, tab, carriage return or line feed. -/
def isBlank (byte : UInt8) : Bool :=
  byte == ' '.toUInt8 || byte == '\t'.toUInt8 || byte == '\r'.toUInt8 || byte == '\n'.toUInt8

/-- A byte that may continue a word. -/
def isWordByte (byte : UInt8) : Bool :=
  isLetter byte || isDigit byte

/-- A byte that may follow the colon of a bind variable. -/
def isBindByte (byte : UInt8) : Bool :=
  isWordByte byte || byte == '.'.toUInt8

/-- One of the three bytes that open quoted text. -/
def isQuote (byte : UInt8) : Bool :=
  byte == singleQuote || byte == doubleQuote || byte == backQuote

/-- The value that stands for "no digit": larger than that of every hexadecimal digit. -/
def noDigit : Nat := 16

/-- The value of a hexadecimal digit of either case, and `noDigit` for any other byte. -/
def digitValue (byte : UInt8) : Nat :=
  if isDigit byte then byte.toNat - '0'.toNat
  else if isBetween 'a'.toUInt8 'f'.toUInt8 byte then byte.toNat - 'a'.toNat + 10
  else if isBetween 'A'.toUInt8 'F'.toUInt8 byte then byte.toNat - 'A'.toNat + 10
  else noDigit

def isHexDigit (byte : UInt8) : Bool :=
  digitValue byte < noDigit

/-- The lower-case form of an ASCII letter; any other byte is kept. -/
def lower (byte : UInt8) : UInt8 :=
  if isUpper byte then byte + 32 else byte

end Byte

def Bytes.lower (bytes : Bytes) : Bytes :=
  bytes.map Byte.lower

end SqlLexer
