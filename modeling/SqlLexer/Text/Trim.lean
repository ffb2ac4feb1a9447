/-!
# White space around a text

White space is the Unicode property of that name, not only its ASCII part.
-/

namespace SqlLexer.Text

/-- The ranges of the characters with the property `White_Space`. -/
def whiteSpaceRanges : List (Nat × Nat) :=
  [(0x09, 0x0D), (0x20, 0x20), (0x85, 0x85), (0xA0, 0xA0), (0x1680, 0x1680), (0x2000, 0x200A),
    (0x2028, 0x2029), (0x202F, 0x202F), (0x205F, 0x205F), (0x3000, 0x3000)]

def isWhiteSpace (char : Char) : Bool :=
  whiteSpaceRanges.any fun (first, last) => first ≤ char.toNat && char.toNat ≤ last

/-- The characters without the white space at both ends. -/
def trim (characters : List Char) : List Char :=
  ((characters.dropWhile isWhiteSpace).reverse.dropWhile isWhiteSpace).reverse

/-- A text without white space at its ends and with its ASCII letters in lower case. -/
def normalize (text : String) : String :=
  String.ofList ((trim text.toList).map Char.toLower)

end SqlLexer.Text
