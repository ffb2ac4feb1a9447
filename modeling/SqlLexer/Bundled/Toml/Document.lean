import SqlLexer.Bundled.Toml.Value

/-!
# Documents

A document is a list of statements, each on a line of its own.  Headers choose the table to which
the assignments after them belong.
-/

namespace SqlLexer.Toml

/-- A line of a document that says something. -/
inductive Statement where
  | assignment (key : KeyPath) (value : Node)
  | tableHeader (key : KeyPath)
  | elementHeader (key : KeyPath)

namespace Statement

/-- A header, read after its first bracket. -/
def header : Reader Statement := do
  if ← Reader.accept ['['] then
    let key ← KeyPath.read
    Reader.expect [']', ']']
    return .elementHeader key
  else
    let key ← KeyPath.read
    Reader.expect [']']
    return .tableHeader key

/-- A statement with the rest of its line. -/
def read : Reader Statement := do
  let statement ←
    if ← Reader.accept ['['] then header
    else
      let (key, value) ← Value.assignment Space.skipBlanks (Value.read Value.maxDepth)
      pure (.assignment key value)
  Space.finishLine
  return statement

/-- All statements of a document, up to its end. -/
def readAll : Reader (List Statement) :=
  Reader.collect (do
    Space.skipLines
    if (← Reader.next?).isNone then return none
    return some (← read))

end Statement

/-- A document as far as its statements were carried out: what it holds, and the path to the table
that receives the next assignment. -/
structure Document where
  entries : Entries
  current : List String

namespace Document

/-- Carries out a statement, unless it contradicts an earlier one. -/
def apply (document : Document) : Statement → Option Document
  | .assignment key value => do
    let entries ← document.entries.changeAt document.current fun target =>
      target.assign key.parents key.last value
    return { document with entries }
  | .tableHeader key => do
    let entries ← Entries.define document.entries key.parents key.last
    return { entries, current := key.parents ++ [key.last] }
  | .elementHeader key => do
    let entries ← Entries.addElement document.entries key.parents key.last
    return { entries, current := key.parents ++ [key.last] }

/-- What a text says as a document, or nothing if it is none.  A byte order mark may come first. -/
def entries? (text : String) : Option Entries := do
  let characters := text.toList
  let body := if characters.head? == some '\uFEFF' then characters.tail else characters
  let statements ← Reader.readAll? Statement.readAll body
  let document ← statements.foldlM apply { entries := [], current := [] }
  return document.entries

end Document

end SqlLexer.Toml
