/-!
# Tables of a document

A table may be defined by its own header, in braces, or by being named on the way to something
else.  How it came about decides what may still be added to it, so every table remembers that.
-/

namespace SqlLexer.Toml

/-- How a table came about. -/
inductive Origin where
  /-- By a header of its own, or as the document itself. -/
  | header
  /-- On the way to a table that has a header, and so far in no other way. -/
  | headerPath
  /-- On the way to a value that has a dotted key, perhaps after a header had passed it. -/
  | dottedKey
  /-- In braces; nothing can be added to it. -/
  | braces
  deriving DecidableEq, Repr

/-- What a key stands for.  Of scalars only truth values are kept; a list of tables keeps its
latest table, the only one to which something can be added. -/
inductive Node where
  | boolean (isTrue : Bool)
  | scalar
  | array
  | table (origin : Origin) (entries : List (String × Node))
  | tables (latest : List (String × Node))

/-- The keys of a table with what they stand for, in the order of their first mention. -/
abbrev Entries := List (String × Node)

namespace Entries

/-- Lets a key stand for a node, in place of what it stood for. -/
def replace (entries : Entries) (key : String) (node : Node) : Entries :=
  if entries.any fun entry => entry.1 == key then
    entries.map fun entry => if entry.1 == key then (key, node) else entry
  else entries ++ [(key, node)]

/-- A table on the way along a path: how it came about, what it holds, and the node that it
becomes when it holds something else. -/
structure Opened where
  origin : Origin
  entries : Entries
  rebuild : Entries → Node

/-- A table that is entered and keeps its origin. -/
def Opened.table (origin : Origin) (entries : Entries) : Opened :=
  { origin, entries, rebuild := .table origin }

/-- Enters what a key stands for on the path of a header.  It passes through every table but those
in braces, and through the latest of a list. -/
def enterByHeader : Option Node → Option Opened
  | none => some (.table .headerPath [])
  | some (.table .braces _) => none
  | some (.table origin entries) => some (.table origin entries)
  | some (.tables latest) => some { origin := .header, entries := latest, rebuild := .tables }
  | some _ => none

/-- Enters what a key stands for on the way of a dotted key.  It passes through tables without a
header of their own, which from then on cannot get one, and through the latest of a list. -/
def enterByDots : Option Node → Option Opened
  | none => some (.table .dottedKey [])
  | some (.table .headerPath entries) => some (.table .dottedKey entries)
  | some (.table .dottedKey entries) => some (.table .dottedKey entries)
  | some (.tables latest) => some { origin := .header, entries := latest, rebuild := .tables }
  | some _ => none

/-- Follows a path from a table by entering each of its keys, and changes the table at its end. -/
def descend (enter : Option Node → Option Opened)
    (change : Origin → Entries → Option Entries) (origin : Origin) (entries : Entries) :
    List String → Option Entries
  | [] => change origin entries
  | key :: path => do
    let opened ← enter (entries.lookup key)
    let changed ← descend enter change opened.origin opened.entries path
    return entries.replace key (opened.rebuild changed)

/-- Gives a value to a dotted key.  A key names one value only, and a key of several parts cannot
add a value to the latest table of a list itself. -/
def assign (entries : Entries) (path : List String) (key : String) (value : Node) :
    Option Entries :=
  let change (origin : Origin) (target : Entries) : Option Entries :=
    if !path.isEmpty && origin != .dottedKey then none
    else if (target.lookup key).isSome then none
    else some (target ++ [(key, value)])
  descend enterByDots change .header entries path

/-- Changes the table at the end of the path of a header. -/
def changeAt (entries : Entries) (path : List String) (change : Entries → Option Entries) :
    Option Entries :=
  descend enterByHeader (fun _ target => change target) .header entries path

/-- Defines a table by a header.  A table that so far was only passed by headers keeps what it
holds; any other earlier meaning of the key is a second definition. -/
def define (entries : Entries) (path : List String) (key : String) : Option Entries :=
  entries.changeAt path fun target =>
    match target.lookup key with
    | none => some (target ++ [(key, .table .header [])])
    | some (.table .headerPath held) => some (target.replace key (.table .header held))
    | some _ => none

/-- Adds a table to a list of tables by a header. -/
def addElement (entries : Entries) (path : List String) (key : String) : Option Entries :=
  entries.changeAt path fun target =>
    match target.lookup key with
    | none => some (target ++ [(key, .tables [])])
    | some (.tables _) => some (target.replace key (.tables []))
    | some _ => none

end Entries

end SqlLexer.Toml
