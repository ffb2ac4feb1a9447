import SqlLexer.Token

/-!
# The log

What the lexer reports while it runs, apart from its answers.  An entry is kept as data; its level
and its text are functions of it.
-/

namespace SqlLexer

inductive LogLevel where
  | error
  | warn
  | info
  | debug
  | trace
  deriving DecidableEq, Repr

namespace LogLevel

/-- The name of a level at the head of a log line. -/
def display : LogLevel → String
  | error => "ERROR"
  | warn => "WARN"
  | info => "INFO"
  | debug => "DEBUG"
  | trace => "TRACE"

/-- How much a log has to admit for entries of this level to be kept. -/
def detail : LogLevel → Nat
  | error => 1
  | warn => 2
  | info => 3
  | debug => 4
  | trace => 5

end LogLevel

/-- Something that the lexer reports. -/
inductive LogEntry where
  /-- A token that is none was handed out. -/
  | invalidToken (token : Token)
  /-- A token was handed out while tokens are traced. -/
  | tracedToken (token : Token)
  /-- An error message was recorded. -/
  | recordedError (message : String)
  /-- The lexer was told to stop at this position. -/
  | forcedEnd (position : Nat)
  deriving DecidableEq, Repr

namespace LogEntry

/-- Traced tokens are the finest entries; all others serve debugging. -/
def level : LogEntry → LogLevel
  | tracedToken _ => .trace
  | _ => .debug

def message : LogEntry → String
  | invalidToken token => s!"lexical error at position {token.offset + 1}: '{token.text}'"
  | tracedToken token => s!"token {token.display}"
  | recordedError message => message
  | forcedEnd position => s!"force EOF at position {position}"

end LogEntry

end SqlLexer
