import SqlLexer.Lexeme

/-!
# Words and bind variables

A word is the longest run of letters and digits.  Its lower-case form decides whether it is a
keyword; an identifier keeps the case in which it was written.
-/

namespace SqlLexer.Lexeme

def word (input : Bytes) : Lexeme :=
  let spelling := input.takeWhile Byte.isWordByte
  match Keyword.find? (Bytes.lower spelling) with
  | some keyword =>
    { kind := .keyword keyword, value := Bytes.lower spelling, width := spelling.length }
  | none => verbatim .identifier spelling

/-- A colon with the longest run of letters, digits and points after it.  A colon without a name
is no token. -/
def bindVariable (afterColon : Bytes) : Lexeme :=
  let name := afterColon.takeWhile Byte.isBindByte
  verbatim (if name.isEmpty then .invalid else .valueArgument) (':'.toUInt8 :: name)

theorem kind_word_ne (input : Bytes) : (word input).kind ≠ .valueArgument := by
  unfold word
  dsimp only
  split <;> exact Kind.noConfusion

theorem width_word (input : Bytes) :
    (word input).width = (input.takeWhile Byte.isWordByte).length := by
  unfold word
  dsimp only
  split <;> rfl

theorem takesInput_word {first : UInt8} (letter : Byte.isLetter first = true) (rest : Bytes) :
    (word (first :: rest)).TakesInput := by
  constructor
  · unfold word
    dsimp only
    split <;> simp [verbatim]
  · simp [width_word, Byte.isWordByte, letter]

theorem takesInput_bindVariable (afterColon : Bytes) : (bindVariable afterColon).TakesInput := by
  apply takesInput_verbatim
  · split <;> simp
  · simp

end SqlLexer.Lexeme
