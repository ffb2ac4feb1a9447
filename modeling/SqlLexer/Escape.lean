import SqlLexer.Byte

/-!
# Escapes in quoted text

Nine bytes have a marker that stands for them after a backslash.  The same pairs serve both
directions, so writing a literal and reading it back cannot disagree about a marker.
-/

namespace SqlLexer

namespace Escape

/-- Each escapable byte with the marker that stands for it after a backslash. -/
def pairs : List (UInt8 × UInt8) :=
  [(0x00, '0'.toUInt8), (Byte.singleQuote, Byte.singleQuote),
    (Byte.doubleQuote, Byte.doubleQuote), (0x08, 'b'.toUInt8), ('\n'.toUInt8, 'n'.toUInt8),
    ('\r'.toUInt8, 'r'.toUInt8), ('\t'.toUInt8, 't'.toUInt8), (0x1A, 'Z'.toUInt8),
    (Byte.backslash, Byte.backslash)]

/-- The byte that a marker stands for after a backslash, if it is a marker. -/
def decode? (marker : UInt8) : Option UInt8 :=
  (pairs.find? fun pair => pair.2 == marker).map Prod.fst

/-- The marker to write after a backslash for a byte, if it has to be escaped. -/
def encode? (byte : UInt8) : Option UInt8 :=
  (pairs.find? fun pair => pair.1 == byte).map Prod.snd

/-- What a byte means after a backslash: a byte that is no marker means itself. -/
def meaning (byte : UInt8) : UInt8 :=
  (decode? byte).getD byte

end Escape

namespace Literal

/-- The spelling of one byte of a value inside a string literal. -/
def encodeByte (byte : UInt8) : Bytes :=
  match Escape.encode? byte with
  | some marker => [Byte.backslash, marker]
  | none => [byte]

/-- A value written as a string literal in single quotes. -/
def encode (value : Bytes) : Bytes :=
  Byte.singleQuote :: (value.flatMap encodeByte ++ [Byte.singleQuote])

end Literal

end SqlLexer
