import SqlLexer.Byte
import SqlLexer.Keyword.Table

/-!
# Keywords

A keyword is a place in the table of reserved words.  It is found by its lower-case spelling or by
one of the aliases, and is shown in upper case.
-/

namespace SqlLexer

/-- A reserved word, named by its place in the table. -/
structure Keyword where
  index : Fin ReservedWord.all.length
  deriving DecidableEq, Repr

namespace Keyword

def all : List Keyword :=
  (List.finRange ReservedWord.all.length).map Keyword.mk

def ofIndex? (index : Nat) : Option Keyword :=
  if inTable : index < ReservedWord.all.length then some ⟨index, inTable⟩ else none

/-- The canonical spelling, in lower case. -/
def spelling (keyword : Keyword) : String :=
  ReservedWord.all[keyword.index]

/-- The spelling shown to people, in upper case. -/
def display (keyword : Keyword) : String :=
  keyword.spelling.toUpper

/-- The canonical spellings as bytes, each with its keyword. -/
def canonicalEntries : List (Bytes × Keyword) :=
  all.map fun keyword => (ascii keyword.spelling, keyword)

/-- The keyword with a canonical spelling. -/
def ofSpelling (canonical : String) (listed : canonical ∈ ReservedWord.all) : Keyword :=
  ⟨ReservedWord.all.idxOf canonical, List.idxOf_lt_length_of_mem listed⟩

/-- The aliases, each with the keyword that it stands for. -/
def aliases : List (String × Keyword) :=
  ReservedWord.aliases.pmap (fun entry listed => (entry.1, ofSpelling entry.2 listed))
    ReservedWord.canonical_mem_all

def entries : List (Bytes × Keyword) :=
  canonicalEntries ++ aliases.map fun (spelling, keyword) => (ascii spelling, keyword)

/-- The keyword spelled by a word, which has to be in lower case.  Of two entries for one word the
later one counts. -/
def find? (word : Bytes) : Option Keyword :=
  entries.reverse.lookup word

end Keyword

end SqlLexer
