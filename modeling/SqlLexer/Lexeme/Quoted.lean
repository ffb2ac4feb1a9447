import SqlLexer.Escape
import SqlLexer.Lexeme

/-!
# Quoted text

After the opening quote the text runs to the next single occurrence of the same quote.  Two of
them stand for one, and a backslash gives the next byte the meaning found in the escape table.
-/

namespace SqlLexer

/-- What was read after an opening quote: the meaning of the text, the number of bytes taken, and
whether the closing quote was among them. -/
structure QuotedText where
  value : Bytes
  width : Nat
  closed : Bool
  deriving DecidableEq, Repr

namespace QuotedText

/-- Puts a byte of the meaning, spelled by `width` bytes, in front. -/
def prepend (byte : UInt8) (width : Nat) (text : QuotedText) : QuotedText :=
  { text with value := byte :: text.value, width := width + text.width }

/-- Reads up to and including the closing quote, or all of the input if it is missing.  A
backslash that ends the input has no meaning. -/
def read (quote : UInt8) : Bytes → QuotedText
  | [] => { value := [], width := 0, closed := false }
  | [byte] =>
    if byte == quote then { value := [], width := 1, closed := true }
    else if byte == Byte.backslash then { value := [], width := 1, closed := false }
    else { value := [byte], width := 1, closed := false }
  | byte :: next :: rest =>
    if byte == quote then
      if next == quote then (read quote rest).prepend quote 2
      else { value := [], width := 1, closed := true }
    else if byte == Byte.backslash then (read quote rest).prepend (Escape.meaning next) 2
    else (read quote (next :: rest)).prepend byte 1

end QuotedText

/-- The quoted text after an opening quote.  Back quotes enclose an identifier, which is never a
keyword; the other two enclose a string.  Without a closing quote the text is no token. -/
def Lexeme.quoted (quote : UInt8) (afterQuote : Bytes) : Lexeme :=
  let text := QuotedText.read quote afterQuote
  let kind : Kind :=
    if text.closed then if quote == Byte.backQuote then .identifier else .string else .invalid
  { kind, value := text.value, width := text.width + 1 }

theorem Lexeme.kind_quoted_ne (quote : UInt8) (afterQuote : Bytes) :
    (quoted quote afterQuote).kind ≠ .valueArgument := by
  unfold quoted
  dsimp only
  repeat' split
  all_goals exact Kind.noConfusion

theorem Lexeme.takesInput_quoted (quote : UInt8) (afterQuote : Bytes) :
    (quoted quote afterQuote).TakesInput := by
  constructor
  · simp only [quoted]
    split
    · split <;> simp
    · simp
  · exact Nat.succ_pos _

end SqlLexer
