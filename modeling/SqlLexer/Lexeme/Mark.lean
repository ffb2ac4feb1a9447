import SqlLexer.Lexeme.Comment
import SqlLexer.Lexeme.Number

/-!
# Marks

A mark is a byte that opens no word, plain number, quoted text or bind variable.  Some marks
change their meaning with what follows: a point may start a number, a slash or a minus sign a
comment, and a comparison sign a longer operator.
-/

namespace SqlLexer

open Lexeme

namespace Mark

/-- A point: the start of a number before a digit, and a structural byte otherwise. -/
def point (rest : Bytes) : Lexeme :=
  if rest.head?.any Byte.isDigit then number ('.'.toUInt8 :: rest)
  else symbol (.punctuation '.'.toUInt8) 1

/-- A slash: the start of a comment before a slash or a star, and a structural byte otherwise. -/
def slash (rest : Bytes) : Lexeme :=
  if rest.head? == some '/'.toUInt8 then lineComment '/'.toUInt8 rest.tail
  else if rest.head? == some '*'.toUInt8 then blockComment rest.tail
  else symbol (.punctuation '/'.toUInt8) 1

/-- A minus sign: the start of a comment before another one, and a structural byte otherwise. -/
def minus (rest : Bytes) : Lexeme :=
  if rest.head? == some '-'.toUInt8 then lineComment '-'.toUInt8 rest.tail
  else symbol (.punctuation '-'.toUInt8) 1

/-- A less-than sign, alone or as the start of one of three longer operators. -/
def less (rest : Bytes) : Lexeme :=
  if rest.head? == some '>'.toUInt8 then symbol .notEqual 2
  else if rest.head? == some '='.toUInt8 then
    if rest.tail.head? == some '>'.toUInt8 then symbol .nullSafeEqual 3
    else symbol .lessOrEqual 2
  else symbol (.punctuation '<'.toUInt8) 1

/-- A greater-than sign, alone or before an equals sign. -/
def greater (rest : Bytes) : Lexeme :=
  if rest.head? == some '='.toUInt8 then symbol .greaterOrEqual 2
  else symbol (.punctuation '>'.toUInt8) 1

/-- An exclamation mark, which is a token only before an equals sign. -/
def exclamation (rest : Bytes) : Lexeme :=
  if rest.head? == some '='.toUInt8 then symbol .notEqual 2
  else verbatim .invalid ['!'.toUInt8]

/-- The marks that are tokens on their own, whatever follows. -/
def standalone : Bytes :=
  ['=', ',', ';', '(', ')', '+', '*', '%', '&', '|', '^', '~'].map Char.toUInt8

/-- The lexeme that starts with a mark.  A byte that is no mark at all is no token. -/
def lexeme (first : UInt8) (rest : Bytes) : Lexeme :=
  if first == '?'.toUInt8 then verbatim .valueArgument ['?'.toUInt8]
  else if first == '.'.toUInt8 then point rest
  else if first == '/'.toUInt8 then slash rest
  else if first == '-'.toUInt8 then minus rest
  else if first == '<'.toUInt8 then less rest
  else if first == '>'.toUInt8 then greater rest
  else if first == '!'.toUInt8 then exclamation rest
  else if standalone.contains first then symbol (.punctuation first) 1
  else verbatim .invalid [first]

/-- The grammar knows the standalone marks, and those that may also open something longer. -/
theorem structuralBytes_eq :
    Kind.structuralBytes = standalone ++ ['.', '/', '-', '<', '>'].map Char.toUInt8 := by
  decide

theorem structural_of_standalone {byte : UInt8} (alone : standalone.contains byte = true) :
    Kind.structuralBytes.contains byte = true := by
  rw [structuralBytes_eq, List.contains_append, alone, Bool.true_or]

theorem takesInput_point (rest : Bytes) : (point rest).TakesInput := by
  unfold point
  split
  · exact takesInput_number (Numeral.ofFront_point_ne_nil rest)
  · exact takesInput_symbol (by simp) (by decide)

theorem takesInput_slash (rest : Bytes) : (slash rest).TakesInput := by
  unfold slash
  repeat' split
  · exact takesInput_lineComment _ _
  · exact takesInput_blockComment _
  · exact takesInput_symbol (by simp) (by decide)

theorem takesInput_minus (rest : Bytes) : (minus rest).TakesInput := by
  unfold minus
  split
  · exact takesInput_lineComment _ _
  · exact takesInput_symbol (by simp) (by decide)

theorem takesInput_less (rest : Bytes) : (less rest).TakesInput := by
  unfold less
  repeat' split
  all_goals exact takesInput_symbol (by simp) (by decide)

theorem takesInput_greater (rest : Bytes) : (greater rest).TakesInput := by
  unfold greater
  split <;> exact takesInput_symbol (by simp) (by decide)

theorem takesInput_exclamation (rest : Bytes) : (exclamation rest).TakesInput := by
  unfold exclamation
  split
  · exact takesInput_symbol (by simp) (by decide)
  · exact takesInput_verbatim (by simp) (by simp)

theorem kind_lexeme_ne {first : UInt8} (other : ¬(first == '?'.toUInt8) = true) (rest : Bytes) :
    (lexeme first rest).kind ≠ .valueArgument := by
  unfold lexeme point slash minus less greater exclamation
  rw [if_neg other]
  repeat' split
  all_goals first
    | exact kind_number_ne _
    | exact kind_lineComment_ne _ _
    | exact kind_blockComment_ne _
    | exact Kind.noConfusion

theorem takesInput_lexeme (first : UInt8) (rest : Bytes) : (lexeme first rest).TakesInput := by
  unfold lexeme
  repeat' split
  · exact takesInput_verbatim (by simp) (by simp)
  · exact takesInput_point rest
  · exact takesInput_slash rest
  · exact takesInput_minus rest
  · exact takesInput_less rest
  · exact takesInput_greater rest
  · exact takesInput_exclamation rest
  · exact takesInput_symbol (by simp) (by decide)
  · exact takesInput_verbatim (by simp) (by simp)

end Mark

end SqlLexer
