import SqlLexer.Token

/-!
# Lexemes

A lexeme is what stands at the front of the unread input: a kind, the text it carries, and how
many bytes it takes.  It does not know its place; a token is a lexeme together with an offset.
-/

namespace SqlLexer

/-- A token without its place, and the number of bytes that spell it. -/
structure Lexeme where
  kind : Kind
  value : Bytes
  width : Nat
  deriving DecidableEq, Repr

namespace Lexeme

/-- A lexeme that carries its own spelling. -/
def verbatim (kind : Kind) (spelling : Bytes) : Lexeme :=
  { kind, value := spelling, width := spelling.length }

/-- A lexeme that carries no text and takes `width` bytes. -/
def symbol (kind : Kind) (width : Nat) : Lexeme :=
  { kind, value := [], width }

def toToken (lexeme : Lexeme) (offset : Nat) : Token :=
  { kind := lexeme.kind, value := lexeme.value, offset }

/-- The lexeme stands for text of the input: it takes at least one byte, and it does not mark the
end. -/
structure TakesInput (lexeme : Lexeme) : Prop where
  kind_ne : lexeme.kind ≠ .endOfInput
  width_pos : 0 < lexeme.width

theorem takesInput_verbatim {kind : Kind} {spelling : Bytes} (notEnd : kind ≠ .endOfInput)
    (spelled : spelling ≠ []) : (verbatim kind spelling).TakesInput :=
  ⟨notEnd, List.length_pos_iff.mpr spelled⟩

theorem takesInput_symbol {kind : Kind} {width : Nat} (notEnd : kind ≠ .endOfInput)
    (wide : 0 < width) : (symbol kind width).TakesInput :=
  ⟨notEnd, wide⟩

end Lexeme

end SqlLexer
