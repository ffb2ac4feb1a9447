/-!
# Settings of the lexer

Two switches.  Both are off unless something turns them on.
-/

namespace SqlLexer

structure Config where
  /-- Comments are handed out like other tokens. -/
  allowComments : Bool
  /-- Every token handed out is logged. -/
  traceTokens : Bool
  deriving DecidableEq, Repr

namespace Config

def default : Config :=
  { allowComments := false, traceTokens := false }

/-- The written form of a switch. -/
def showSwitch (isOn : Bool) : String :=
  if isOn then "true" else "false"

def describe (config : Config) : String :=
  "LexerConfig \x7b allow_comments: " ++ showSwitch config.allowComments ++
    ", trace_tokens: " ++ showSwitch config.traceTokens ++ " \x7d"

/-- What one source of settings tells of the switches. -/
structure Layer where
  allowComments : Option Bool
  traceTokens : Option Bool
  deriving DecidableEq, Repr

namespace Layer

/-- A source that tells nothing. -/
def silent : Layer :=
  { allowComments := none, traceTokens := none }

/-- This layer laid onto settings: what it tells counts first. -/
def onto (layer : Layer) (config : Config) : Config :=
  { allowComments := layer.allowComments.getD config.allowComments
    traceTokens := layer.traceTokens.getD config.traceTokens }

end Layer

end Config

end SqlLexer
