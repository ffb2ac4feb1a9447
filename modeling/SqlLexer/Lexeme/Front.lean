import SqlLexer.Lexeme.Mark
import SqlLexer.Lexeme.Quoted
import SqlLexer.Lexeme.Word

/-!
# The lexeme at the front of the input

The first byte decides what kind of lexeme is read.  Every lexeme takes at least one byte and
none is an end of input, so repeated reading always comes to an end.
-/

namespace SqlLexer.Lexeme

/-- The lexeme at the front of an input, given its first byte, which is no blank, and the rest. -/
def ofFront (first : UInt8) (rest : Bytes) : Lexeme :=
  if Byte.isLetter first then word (first :: rest)
  else if Byte.isDigit first then number (first :: rest)
  else if Byte.isQuote first then quoted first rest
  else if first == ':'.toUInt8 then bindVariable rest
  else Mark.lexeme first rest

/-- The lexeme at the front is a placeholder exactly if its mark stands first. -/
theorem isPlaceholder_ofFront (first : UInt8) (rest : Bytes) (offset : Nat) :
    ((ofFront first rest).toToken offset).isPlaceholder = (first == '?'.toUInt8) := by
  by_cases isMark : (first == '?'.toUInt8) = true
  · cases eq_of_beq isMark
    rfl
  have otherKind {lexeme : Lexeme} (differs : lexeme.kind ≠ .valueArgument) :
      (lexeme.toToken offset).isPlaceholder = false := by
    rw [Token.isPlaceholder, toToken, beq_false_of_ne differs, Bool.false_and]
  rw [(Bool.not_eq_true _).mp isMark]
  unfold ofFront
  repeat' split
  · exact otherKind (kind_word_ne _)
  · exact otherKind (kind_number_ne _)
  · exact otherKind (kind_quoted_ne first rest)
  · have colon : (':'.toUInt8 == '?'.toUInt8) = false := by decide
    simp [Token.isPlaceholder, toToken, bindVariable, verbatim, colon]
  · exact otherKind (Mark.kind_lexeme_ne isMark rest)

theorem takesInput_ofFront (first : UInt8) (rest : Bytes) :
    (ofFront first rest).TakesInput := by
  unfold ofFront
  repeat' split
  · next letter => exact takesInput_word letter rest
  · next digit => exact takesInput_number (Numeral.ofFront_ne_nil_of_isDigit digit rest)
  · exact takesInput_quoted first rest
  · exact takesInput_bindVariable rest
  · exact Mark.takesInput_lexeme first rest

end SqlLexer.Lexeme
