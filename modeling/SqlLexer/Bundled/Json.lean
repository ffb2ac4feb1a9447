import SqlLexer.CommandLine.Listing

/-!
# Rows in JSON

Rows are written as an array of objects, with an indentation of two blanks.  A text stands between
double quotes.  The quote itself, the backslash and the control characters are escaped, the latter
by a letter where there is one; all else stands for itself.
-/

namespace SqlLexer.Text

/-- The control characters that have an escape of one letter. -/
def jsonLetterEscapes : List (Char × Char) :=
  [('\x08', 'b'), ('\t', 't'), ('\n', 'n'), ('\x0c', 'f'), ('\r', 'r'), ('"', '"'), ('\\', '\\')]

/-- The spelling of one character inside a quoted text. -/
def jsonEscape (char : Char) : List Char :=
  match jsonLetterEscapes.lookup char with
  | some letter => ['\\', letter]
  | none =>
    if char.toNat < 0x20 then
      ['\\', 'u', '0', '0', Nat.digitChar (char.toNat / 16), Nat.digitChar (char.toNat % 16)]
    else [char]

def jsonQuoted (text : String) : String :=
  String.ofList ('"' :: (text.toList.flatMap jsonEscape ++ ['"']))

end SqlLexer.Text

namespace SqlLexer.CommandLine

/-- A row as an object inside an array. -/
def Row.toJson (row : Row) : String :=
  "  \x7b\n    \"kind\": " ++ Text.jsonQuoted row.kind ++
    ",\n    \"code\": " ++ toString row.code ++
    ",\n    \"offset\": " ++ toString row.offset ++
    ",\n    \"value\": " ++ Text.jsonQuoted row.value ++ "\n  \x7d"

/-- Rows as an array on several lines.  There is at least one row. -/
def jsonRows (rows : List Row) : String :=
  "[\n" ++ String.intercalate ",\n" (rows.map Row.toJson) ++ "\n]"

end SqlLexer.CommandLine
