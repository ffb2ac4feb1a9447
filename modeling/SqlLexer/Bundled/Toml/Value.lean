import SqlLexer.Bundled.Toml.Moment
import SqlLexer.Bundled.Toml.Table

/-!
# Keys and values of a document

A key is a path of parts joined by points.  Values nest through arrays and tables in braces.  The
number of parts and the depth of nesting are bounded.
-/

namespace SqlLexer.Toml

/-- A key of one or more parts: those before the last, and the last. -/
structure KeyPath where
  parents : List String
  last : String
  deriving DecidableEq, Repr

namespace KeyPath

/-- A character of a part that is written without quotes. -/
def isBare (char : Char) : Bool :=
  char.isAlphanum || char == '-' || char == '_'

/-- One part of a key, with or without quotes. -/
def part : Reader String := do
  if ← Reader.accept ['"'] then return String.ofList (← Quoted.basic)
  if ← Reader.accept ['\x27'] then return String.ofList (← Quoted.literal)
  let bare ← Reader.span isBare
  Reader.require !bare.isEmpty
  return String.ofList bare

/-- How many parts a key may have. -/
def maxParts : Nat := 80

/-- The path made of a first part and the others. -/
def ofParts (first : String) (others : List String) : KeyPath :=
  let parts := first :: others
  { parents := parts.dropLast, last := others.getLastD first }

/-- A key with blanks around it and its points.  It stands on one line. -/
def read : Reader KeyPath := do
  Space.skipBlanks
  let first ← part
  Space.skipBlanks
  let others ← Reader.collect (do
    if ← Reader.accept ['.'] then
      Space.skipBlanks
      let next ← part
      Space.skipBlanks
      return some next
    else return none)
  Reader.require (others.length < maxParts)
  return ofParts first others

end KeyPath

namespace Value

/-- How deep arrays and tables in braces may nest. -/
def maxDepth : Nat := 80

/-- A character that ends a value written without quotes or brackets. -/
def endsBare (char : Char) : Bool :=
  [',', ']', '\x7d', '#', '\n', '\r', '\t', '[', '\x7b', '=', '"', '\x27'].contains char

/-- A value written without quotes or brackets: a truth value, a number or a moment.  Blanks after
it are no part of it, but a single one may stand inside a moment. -/
def bare : Reader Node := do
  let spelled ← Reader.span fun char => !endsBare char
  let text := (spelled.reverse.dropWhile (· == ' ')).reverse
  if text == "true".toList then return .boolean true
  if text == "false".toList then return .boolean false
  Reader.require (Number.isNumber text || Moment.isMoment text)
  return .scalar

/-- The items of a bracketed list up to and including its closing bracket.  Commas separate the
items, and one more may follow the last. -/
def itemsThrough (close : Char) (item : Reader α) : Reader (List α) :=
  Reader.collect (do
    Space.skipLines
    if ← Reader.accept [close] then return none
    let value ← item
    Space.skipLines
    if (← Reader.next?) != some close then Reader.expect [',']
    return some value)

/-- A key with the value assigned to it.  `gap` skips what may stand around the equals sign. -/
def assignment (gap : Reader Unit) (value : Reader Node) : Reader (KeyPath × Node) := do
  let key ← KeyPath.read
  gap
  Reader.expect ['=']
  gap
  return (key, ← value)

/-- The table that assignments in braces make. -/
def inlineTable (assignments : List (KeyPath × Node)) : Option Entries :=
  assignments.foldlM
    (fun entries (key, value) => Entries.assign entries key.parents key.last value) []

/-- A value that holds no others. -/
def flat : Reader Node := do
  match ← Reader.next? with
  | some '"' | some '\x27' =>
    Quoted.skip
    return .scalar
  | _ => bare

/-- A value in which arrays and tables in braces nest at most `depth` deep. -/
def read : (depth : Nat) → Reader Node
  | 0 => flat
  | inner + 1 => do
    if ← Reader.accept ['['] then
      let _ ← itemsThrough ']' (read inner)
      return .array
    else if ← Reader.accept ['\x7b'] then
      let assigned := assignment Space.skipLines (read inner)
      match inlineTable (← itemsThrough '\x7d' assigned) with
      | some entries => return .table .braces entries
      | none => Reader.refuse
    else flat

end Value

end SqlLexer.Toml
