import SqlLexer.Byte

/-!
# UTF-8

Bytes are decoded piece by piece.  A piece is a character, or a *maximal subpart*: the longest
run of bytes that starts like a character but does not complete one.  Strict decoding refuses
such a run; lossy decoding shows the replacement character in its place.
-/

namespace SqlLexer.Utf8

/-- The character shown in place of an ill-formed piece. -/
def replacement : Char := '\uFFFD'

/-- What the first byte of a longer character announces: how many bytes are to follow, the range
of the first of them, and the bits that the first byte itself carries. -/
structure Lead where
  following : Nat
  lowest : UInt8
  highest : UInt8
  bits : Nat
  deriving DecidableEq, Repr

/-- Reads a first byte.  The narrowed ranges rule out overlong forms, surrogates and everything
above U+10FFFF. -/
def lead? (byte : UInt8) : Option Lead :=
  if Byte.isBetween 0xC2 0xDF byte then some ⟨1, 0x80, 0xBF, byte.toNat % 32⟩
  else if byte == 0xE0 then some ⟨2, 0xA0, 0xBF, 0⟩
  else if byte == 0xED then some ⟨2, 0x80, 0x9F, byte.toNat % 16⟩
  else if Byte.isBetween 0xE1 0xEF byte then some ⟨2, 0x80, 0xBF, byte.toNat % 16⟩
  else if byte == 0xF0 then some ⟨3, 0x90, 0xBF, 0⟩
  else if Byte.isBetween 0xF1 0xF3 byte then some ⟨3, 0x80, 0xBF, byte.toNat % 8⟩
  else if byte == 0xF4 then some ⟨3, 0x80, 0x8F, byte.toNat % 8⟩
  else none

/-- The bytes at the front that continue a character which still lacks `wanted` bytes, when the
next one has to lie between `lowest` and `highest`. -/
def continuation : (wanted : Nat) → (lowest highest : UInt8) → Bytes → Bytes
  | 0, _, _, _ => []
  | _ + 1, _, _, [] => []
  | wanted + 1, lowest, highest, byte :: rest =>
    if Byte.isBetween lowest highest byte then
      byte :: continuation wanted 0x80 0xBF rest
    else []

/-- A piece of a byte string, with the number of its bytes after the first. -/
inductive Piece where
  | character (char : Char) (further : Nat)
  | illFormed (further : Nat)
  deriving DecidableEq, Repr

namespace Piece

def further : Piece → Nat
  | character _ count => count
  | illFormed count => count

def char? : Piece → Option Char
  | character char _ => some char
  | illFormed _ => none

/-- The piece at the front of a byte string, given its first byte and the others. -/
def ofFront (first : UInt8) (rest : Bytes) : Piece :=
  if first < 0x80 then character (Char.ofNat first.toNat) 0
  else
    match lead? first with
    | none => illFormed 0
    | some lead =>
      let tail := continuation lead.following lead.lowest lead.highest rest
      if tail.length = lead.following then
        let code := tail.foldl (fun code byte => code * 64 + byte.toNat % 64) lead.bits
        character (Char.ofNat code) tail.length
      else illFormed tail.length

end Piece

def pieces : Bytes → List Piece
  | [] => []
  | first :: rest =>
    let piece := Piece.ofFront first rest
    piece :: pieces (rest.drop piece.further)
termination_by bytes => bytes.length
decreasing_by simp only [List.length_drop, List.length_cons]; omega

/-- The characters of a well-formed byte string. -/
def decode? (bytes : Bytes) : Option (List Char) :=
  (pieces bytes).mapM Piece.char?

def isValid (bytes : Bytes) : Bool :=
  (pieces bytes).all fun piece => piece.char?.isSome

/-- The characters of any byte string, each ill-formed piece shown as one replacement. -/
def decodeLossy (bytes : Bytes) : List Char :=
  (pieces bytes).map fun piece => piece.char?.getD replacement

/-- Any byte string as text, each ill-formed piece shown as one replacement character. -/
def text (bytes : Bytes) : String :=
  String.ofList (decodeLossy bytes)

/-- A byte that continues a character: it carries the lowest six bits of a number. -/
def continuationByte (bits : Nat) : UInt8 :=
  UInt8.ofNat (0x80 + bits % 64)

/-- The bytes of a character: one for ASCII, otherwise a first byte that announces one, two or
three continuation bytes. -/
def encodeChar (char : Char) : Bytes :=
  let code := char.toNat
  if code < 0x80 then [UInt8.ofNat code]
  else if code < 0x800 then [UInt8.ofNat (0xC0 + code / 64), continuationByte code]
  else if code < 0x10000 then
    [UInt8.ofNat (0xE0 + code / 4096), continuationByte (code / 64), continuationByte code]
  else
    [UInt8.ofNat (0xF0 + code / 262144), continuationByte (code / 4096),
      continuationByte (code / 64), continuationByte code]

def encode (characters : List Char) : Bytes :=
  characters.flatMap encodeChar

def ofString (text : String) : Bytes :=
  encode text.toList

end SqlLexer.Utf8
