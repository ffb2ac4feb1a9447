import SqlLexer.Escape
import SqlLexer.Token

/-!
# Listings of tokens

A listing has one row for each token.  As text it has aligned columns.
-/

namespace SqlLexer.CommandLine

structure Row where
  kind : String
  code : Nat
  offset : Nat
  value : String
  deriving DecidableEq, Repr

namespace Row

/-- The row of a token.  If asked to, a string is shown as a literal that means the same. -/
def ofToken (requote : Bool) (token : Token) : Row :=
  { kind := token.kind.display
    code := token.code
    offset := token.offset
    value :=
      if requote && token.kind == .string then Utf8.text (Literal.encode token.value)
      else token.text }

def alignRight (width : Nat) (text : String) : String :=
  String.ofList (List.replicate (width - text.length) ' ') ++ text

def alignLeft (width : Nat) (text : String) : String :=
  text ++ String.ofList (List.replicate (width - text.length) ' ')

def toLine (row : Row) : String :=
  alignRight 6 (toString row.offset) ++ " " ++ alignLeft 16 row.kind ++ " " ++
    alignRight 6 (toString row.code) ++ " " ++ row.value ++ "\n"

end Row

def textListing (rows : List Row) : String :=
  String.join (rows.map Row.toLine)

end SqlLexer.CommandLine
