/-!
# Errors

The four ways in which an operation of the library can fail.  Only a lexical error points into
the input.
-/

namespace SqlLexer

inductive Error where
  /-- A file could not be read or written. -/
  | io (cause : String)
  /-- A value could not be brought into its written form, or out of it. -/
  | serialization (cause : String)
  /-- The input holds something that is no token; positions count from one. -/
  | lexical (message : String) (position : Nat)
  /-- A setting cannot be used. -/
  | configuration (message : String)
  deriving DecidableEq, Repr

namespace Error

def message : Error → String
  | io cause => s!"I/O error: {cause}"
  | serialization cause => s!"Serialization error: {cause}"
  | lexical message position => s!"Lexical error: {message} at position {position}"
  | configuration message => s!"Configuration error: {message}"

/-- What lies behind an error, as the library that it comes from tells it. -/
def sources : Error → List String
  | io cause | serialization cause => [cause]
  | lexical _ _ | configuration _ => []

/-- The place of an error in the input, where one is known. -/
def position? : Error → Option Nat
  | lexical _ position => some position
  | _ => none

end Error

end SqlLexer
