import SqlLexer.Lexeme

/-!
# Comments

A line comment runs through the end of its line, or to the end of the input.  A block comment
runs through the first closing mark after the opening one; without a closing mark it is no token.
-/

namespace SqlLexer

namespace Comment

/-- The input through its first line feed, or all of it. -/
def throughLine : Bytes → Bytes
  | [] => []
  | byte :: rest => if byte == Byte.lineFeed then [byte] else byte :: throughLine rest

/-- The input through its first star that is followed by a slash. -/
def throughClose? : Bytes → Option Bytes
  | [] => none
  | byte :: rest =>
    if byte == '*'.toUInt8 && rest.head? == some '/'.toUInt8 then
      some ['*'.toUInt8, '/'.toUInt8]
    else (throughClose? rest).map (byte :: ·)

end Comment

namespace Lexeme

/-- A line comment, given the byte that is doubled to open it and the input after both. -/
def lineComment (mark : UInt8) (afterMarks : Bytes) : Lexeme :=
  verbatim .comment (mark :: mark :: Comment.throughLine afterMarks)

/-- A block comment, given the input after its opening mark. -/
def blockComment (afterOpen : Bytes) : Lexeme :=
  match Comment.throughClose? afterOpen with
  | some body => verbatim .comment ('/'.toUInt8 :: '*'.toUInt8 :: body)
  | none => verbatim .invalid ('/'.toUInt8 :: '*'.toUInt8 :: afterOpen)

theorem kind_lineComment_ne (mark : UInt8) (afterMarks : Bytes) :
    (lineComment mark afterMarks).kind ≠ .valueArgument :=
  Kind.noConfusion

theorem kind_blockComment_ne (afterOpen : Bytes) :
    (blockComment afterOpen).kind ≠ .valueArgument := by
  unfold blockComment
  split <;> exact Kind.noConfusion

theorem takesInput_lineComment (mark : UInt8) (afterMarks : Bytes) :
    (lineComment mark afterMarks).TakesInput :=
  takesInput_verbatim (by simp) (by simp)

theorem takesInput_blockComment (afterOpen : Bytes) : (blockComment afterOpen).TakesInput := by
  unfold blockComment
  split <;> exact takesInput_verbatim (by simp) (by simp)

end Lexeme

end SqlLexer
