/-!
# Reading characters

A reader takes characters from the front of a text and gives a value, or refuses the text.  The
documents read here are either accepted or refused as a whole, so a refusal carries no reason.
-/

namespace SqlLexer.Toml

/-- A reader of values from the front of a text. -/
abbrev Reader := StateT (List Char) Option

namespace Reader

def refuse : Reader α :=
  fun _ => none

def require (condition : Bool) : Reader Unit :=
  if condition then pure () else refuse

def next? : Reader (Option Char) :=
  fun text => some (text.head?, text)

def any : Reader Char
  | [] => none
  | char :: rest => some (char, rest)

/-- The longest run of characters of a class. -/
def span (inClass : Char → Bool) : Reader (List Char) :=
  fun text => some (text.takeWhile inClass, text.dropWhile inClass)

/-- Reads the characters if they stand next, and says whether they did. -/
def accept (expected : List Char) : Reader Bool :=
  fun text =>
    if expected.isPrefixOf text then some (true, text.drop expected.length)
    else some (false, text)

/-- Reads the characters, which have to stand next. -/
def expect (expected : List Char) : Reader Unit := do
  require (← accept expected)

/-- Repeats a round until it says that nothing is left to do.  A round that reads nothing and yet
wants to go on is refused, so the repetition ends. -/
def collect (round : Reader (Option α)) (text : List Char) : Option (List α × List Char) :=
  match round text with
  | none => none
  | some (none, rest) => some ([], rest)
  | some (some item, rest) =>
    if _ : rest.length < text.length then
      (collect round rest).map fun (items, after) => (item :: items, after)
    else none
termination_by text.length

/-- The value of a reader that reads all of a text. -/
def readAll? (reader : Reader α) (text : List Char) : Option α :=
  match reader text with
  | some (value, []) => some value
  | _ => none

end Reader

/-! ### Space, lines and comments -/

namespace Space

/-- A blank inside a line. -/
def isBlank (char : Char) : Bool :=
  char == ' ' || char == '\t'

/-- A character that may stand in a comment or a quoted text: everything but the control
characters, of which only the tab is allowed. -/
def isPrintable (char : Char) : Bool :=
  char == '\t' || (0x20 ≤ char.toNat && char.toNat != 0x7F)

def skipBlanks : Reader Unit := do
  let _ ← Reader.span isBlank

/-- Reads the end of a line if it stands next, and says whether it did. -/
def acceptLineEnd : Reader Bool := do
  if ← Reader.accept ['\n'] then return true
  Reader.accept ['\r', '\n']

/-- Reads a comment if one stands next.  It runs to the end of the line, which is left unread. -/
def skipComment : Reader Unit := do
  if ← Reader.accept ['#'] then
    let _ ← Reader.span isPrintable

/-- Reads the rest of a line on which nothing but a comment may stand. -/
def finishLine : Reader Unit := do
  skipBlanks
  skipComment
  if (← Reader.next?).isSome then
    Reader.require (← acceptLineEnd)

/-- Skips blanks, comments and ends of lines. -/
def skipLines : Reader Unit := do
  let _ ← Reader.collect (do
    skipBlanks
    skipComment
    if ← acceptLineEnd then return some () else return none)

end Space

end SqlLexer.Toml
