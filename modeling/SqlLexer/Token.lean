import SqlLexer.Token.Kind
import SqlLexer.Utf8

/-!
# Tokens

A token is a kind with its text and the offset of its first byte.  The text of a quoted token is
what it means, not how it is written.
-/

namespace SqlLexer

structure Token where
  kind : Kind
  value : Bytes
  offset : Nat
  deriving DecidableEq, Repr

namespace Token

def bare (kind : Kind) (offset : Nat) : Token :=
  { kind, value := [], offset }

/-- The code by which the grammar knows the token. -/
def code (token : Token) : Nat :=
  token.kind.code

/-- The token marks the end of the input. -/
def isEnd (token : Token) : Bool :=
  token.kind == .endOfInput

/-- The token is no token of the dialect. -/
def isInvalid (token : Token) : Bool :=
  token.kind == .invalid

/-- The token is a positional placeholder; a bind variable starts with a colon instead. -/
def isPlaceholder (token : Token) : Bool :=
  token.kind == .valueArgument && token.value == ['?'.toUInt8]

/-- The text that the grammar receives, for the kinds that have one. -/
def semanticValue? (token : Token) : Option Bytes :=
  if token.kind.hasSemanticValue then some token.value else none

/-- The text to show in error messages, for the kinds that carry one. -/
def errorContext? (token : Token) : Option Bytes :=
  if token.kind.carriesText then some token.value else none

def text (token : Token) : String :=
  Utf8.text token.value

def display (token : Token) : String :=
  s!"{token.kind.display}('{token.text}') at {token.offset}"

end Token

end SqlLexer
