import SqlLexer.Bundled.Toml.Reader

/-!
# Quoted text of a document

Text in double quotes knows escapes, text in apostrophes does not.  Each may be written on one
line, or over several lines between tripled quotes.  Only keys are ever looked at again, and a key
stands on one line; the meaning of longer text is therefore not kept.
-/

namespace SqlLexer.Toml.Quoted

def hexValue? (char : Char) : Option Nat :=
  if '0' ≤ char && char ≤ '9' then some (char.toNat - '0'.toNat)
  else if 'a' ≤ char && char ≤ 'f' then some (char.toNat - 'a'.toNat + 10)
  else if 'A' ≤ char && char ≤ 'F' then some (char.toNat - 'A'.toNat + 10)
  else none

/-- The number written by exactly `count` hexadecimal digits, after the digits already read. -/
def hexNumber (soFar : Nat) : (count : Nat) → Reader Nat
  | 0 => pure soFar
  | count + 1 => do
    match hexValue? (← Reader.any) with
    | some digit => hexNumber (soFar * 16 + digit) count
    | none => Reader.refuse

/-- The character with the number that `count` hexadecimal digits write. -/
def numbered (count : Nat) : Reader Char := do
  let code ← hexNumber 0 count
  if valid : code.isValidChar then return Char.ofNatAux code valid
  else Reader.refuse

/-- The character that an escape stands for, read after the backslash. -/
def escape : Reader Char := do
  match ← Reader.any with
  | 'b' => return '\x08'
  | 't' => return '\t'
  | 'n' => return '\n'
  | 'f' => return '\x0c'
  | 'r' => return '\r'
  | 'e' => return '\x1b'
  | '"' => return '"'
  | '\\' => return '\\'
  | 'x' => numbered 2
  | 'u' => numbered 4
  | 'U' => numbered 8
  | _ => Reader.refuse

/-- Text in double quotes on one line, read after the opening quote. -/
def basic : Reader (List Char) :=
  Reader.collect (do
    match ← Reader.any with
    | '"' => return none
    | '\\' => return some (← escape)
    | char =>
      Reader.require (Space.isPrintable char)
      return some char)

/-- Text in apostrophes on one line, read after the opening one. -/
def literal : Reader (List Char) := do
  let text ← Reader.span fun char => Space.isPrintable char && char != '\x27'
  Reader.expect ['\x27']
  return text

/-- Reads the quotes that stand next inside text between tripled quotes.  Three of them close the
text, and up to two more may belong to it. -/
def acceptClose (quote : Char) : Reader Bool := do
  let quotes ← Reader.span (· == quote)
  Reader.require (quotes.length ≤ 5)
  return 3 ≤ quotes.length

/-- Skips a backslash at the end of a line, with all blanks and ends of lines after it, read after
the backslash. -/
def skipJoinedLines : Reader Unit := do
  Space.skipBlanks
  Reader.require (← Space.acceptLineEnd)
  let _ ← Reader.collect (do
    Space.skipBlanks
    if ← Space.acceptLineEnd then return some () else return none)

/-- Text between tripled quotes, read after the opening ones.  Escapes are known only inside double
quotes. -/
def multiline (quote : Char) (escapes : Bool) : Reader Unit := do
  let _ ← Reader.collect (do
    if (← Reader.next?) == some quote then
      if ← acceptClose quote then return none else return some ()
    else if ← Space.acceptLineEnd then return some ()
    else
      let char ← Reader.any
      if escapes && char == '\\' then
        match ← Reader.next? with
        | some ' ' | some '\t' | some '\n' | some '\r' => skipJoinedLines
        | _ => let _ ← escape
      else Reader.require (Space.isPrintable char)
      return some ())

/-- Quoted text of any of the four kinds.  The opening quote stands next. -/
def skip : Reader Unit := do
  if ← Reader.accept ['"', '"', '"'] then multiline '"' true
  else if ← Reader.accept ['\x27', '\x27', '\x27'] then multiline '\x27' false
  else if ← Reader.accept ['"'] then
    let _ ← basic
  else
    Reader.expect ['\x27']
    let _ ← literal

end SqlLexer.Toml.Quoted
