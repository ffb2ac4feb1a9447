import SqlLexer.Byte

/-!
# A reading position in a byte string

A cursor holds the bytes that are still to be read and counts those already read.  The end of the
input is the absence of a byte, so no byte value can be mistaken for it.
-/

namespace SqlLexer

/-- The bytes not yet read, and how many were read before them. -/
structure Cursor where
  rest : Bytes
  position : Nat
  deriving DecidableEq, Repr

/-- The fault of reading a byte where none is left. -/
structure EndOfInput where
  position : Nat
  deriving DecidableEq, Repr

def EndOfInput.message (fault : EndOfInput) : String :=
  s!"unexpected end of input at position {fault.position}"

namespace Cursor

def start (input : Bytes) : Cursor :=
  { rest := input, position := 0 }

def peek (cursor : Cursor) : Option UInt8 :=
  cursor.rest.head?

/-- There is a next byte, and it is in the class. -/
def peekIs (cursor : Cursor) (inClass : UInt8 → Bool) : Bool :=
  cursor.peek.any inClass

/-- Reads one byte.  At the end of the input this is a fault that names the position. -/
def bump (cursor : Cursor) : Except EndOfInput (UInt8 × Cursor) :=
  match cursor.rest with
  | [] => .error { position := cursor.position }
  | byte :: rest => .ok (byte, { rest, position := cursor.position + 1 })

/-- Reads one byte and appends it to a buffer. -/
def bumpInto (cursor : Cursor) (buffer : Bytes) : Except EndOfInput (Bytes × Cursor) :=
  cursor.bump.map fun (byte, next) => (buffer ++ [byte], next)

/-- Moves past `count` bytes at once. -/
def advance (cursor : Cursor) (count : Nat) : Cursor :=
  { rest := cursor.rest.drop count, position := cursor.position + count }

/-- Moves past the blanks that stand next. -/
def skipBlanks (cursor : Cursor) : Cursor :=
  cursor.advance (cursor.rest.takeWhile Byte.isBlank).length

theorem rest_advance (cursor : Cursor) (count : Nat) :
    (cursor.advance count).rest = cursor.rest.drop count :=
  rfl

theorem position_advance (cursor : Cursor) (count : Nat) :
    (cursor.advance count).position = cursor.position + count :=
  rfl

theorem rest_skipBlanks (cursor : Cursor) :
    cursor.skipBlanks.rest = cursor.rest.dropWhile Byte.isBlank := by
  rw [skipBlanks, rest_advance]
  induction cursor.rest with
  | nil => rfl
  | cons byte rest ih =>
    by_cases blank : Byte.isBlank byte = true <;> simp_all

theorem length_rest_skipBlanks_le (cursor : Cursor) :
    cursor.skipBlanks.rest.length ≤ cursor.rest.length := by
  rw [skipBlanks, rest_advance, List.length_drop]
  omega

end Cursor

end SqlLexer
