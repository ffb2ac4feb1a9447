import SqlLexer.Config
import SqlLexer.Error
import SqlLexer.Text.Trim

/-!
# Settings from the environment

Each switch has a variable that overrides it.  The value of a variable is read without the white
space around it and without regard to case.
-/

namespace SqlLexer

/-- The variables of a process with their values. -/
abbrev Environment := String → Option String

namespace Config

/-- The variable that overrides whether comments are allowed. -/
def allowCommentsVariable : String := "SHARDSQL_ALLOW_COMMENTS"

/-- The variable that overrides whether tokens are traced. -/
def traceTokensVariable : String := "SHARDSQL_TRACE_TOKENS"

def switchOfWord? (word : String) : Option Bool :=
  if ["1", "true", "yes", "on"].contains word then some true
  else if ["0", "false", "no", "off"].contains word then some false
  else none

/-- A variable whose value is no switch, with that value in normal form. -/
structure VariableFault where
  variableName : String
  value : String
  deriving DecidableEq, Repr

def VariableFault.toError (fault : VariableFault) : Error :=
  .configuration s!"{fault.variableName} expects a boolean, got '{fault.value}'"

/-- The switch in a variable, or the given one if the variable is not set. -/
def switchInVariable (environment : Environment) (variableName : String) (otherwise : Bool) :
    Except VariableFault Bool :=
  match environment variableName with
  | none => .ok otherwise
  | some value =>
    match switchOfWord? (Text.normalize value) with
    | some isOn => .ok isOn
    | none => .error { variableName, value := Text.normalize value }

/-- The settings with those overridden that the environment sets.  The first variable at fault is
the one reported. -/
def override (config : Config) (environment : Environment) : Except Error Config :=
  let overridden : Except VariableFault Config := do
    let allowComments ← switchInVariable environment allowCommentsVariable config.allowComments
    let traceTokens ← switchInVariable environment traceTokensVariable config.traceTokens
    return { allowComments, traceTokens }
  overridden.mapError VariableFault.toError

/-- The settings that the environment alone makes. -/
def ofEnvironment (environment : Environment) : Except Error Config :=
  Config.default.override environment

end Config

end SqlLexer
