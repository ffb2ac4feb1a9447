import SqlLexer.Byte

/-!
# Results of a grammar

A grammar that drives the lexer may leave a result of any type with it.  The lexer only keeps the
result; whoever takes it back has to name the type.
-/

namespace SqlLexer

/-- The identity of a type.  There is no limit to the number of types. -/
structure TypeCode where
  number : Nat
  deriving DecidableEq, Repr

/-- A value of some type, in whatever representation its type gives it. -/
structure ParseResult where
  type : TypeCode
  value : Bytes
  deriving DecidableEq, Repr

namespace ParseResult

/-- The value, if it is of the expected type.  Otherwise the result comes back as it is. -/
def downcast (result : ParseResult) (expected : TypeCode) : Except ParseResult Bytes :=
  if result.type = expected then .ok result.value else .error result

end ParseResult

end SqlLexer
