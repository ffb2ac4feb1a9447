import SqlLexer.CommandLine.Libraries
import SqlLexer.Config.Environment
import SqlLexer.Lexer.Stream

/-!
# The command line

The program lists the tokens of an SQL text.  Its outcome is a function of its arguments and of
what it may ask for: the environment, the files and the standard input.
-/

namespace SqlLexer.CommandLine

/-- The variable that says how much is logged. -/
def logVariable : String := "RUST_LOG"

/-- What the program may ask for. -/
structure Surroundings where
  environment : Environment
  /-- The content of a file, or the reason why there is none. -/
  file : String → Except String Bytes
  /-- All of the standard input, or the reason why it cannot be read. -/
  standardInput : Except String Bytes

/-- Why a run of the program fails after its arguments were accepted. -/
inductive Failure where
  /-- The file with the settings cannot be used. -/
  | settingsFile (path : String) (cause : Error)
  /-- A variable of the environment cannot be used. -/
  | settings (cause : Error)
  | standardInput (cause : String)
  /-- The listing holds an invalid token. -/
  | invalidToken (token : Token)
  deriving DecidableEq, Repr

namespace Failure

/-- The message of the failure itself. -/
def message : Failure → String
  | settingsFile path _ => s!"cannot load config {path}"
  | settings cause => cause.message
  | standardInput _ => "cannot read SQL from stdin"
  | invalidToken token => s!"invalid token '{token.text}' at position {token.offset + 1}"

/-- The messages of the errors behind the failure, the nearest one first. -/
def causes : Failure → List String
  | settingsFile _ cause => cause.message :: cause.sources
  | settings cause => cause.sources
  | standardInput cause => [cause]
  | invalidToken _ => []

end Failure

structure Outcome where
  output : String
  failure : Option Failure
  log : List LogLine
  deriving DecidableEq, Repr

namespace Outcome

def exitCode (outcome : Outcome) : Nat :=
  if outcome.failure.isSome then 1 else 0

/-- What is written to standard error, apart from the log. -/
def standardError (outcome : Outcome) (libraries : Libraries) : String :=
  match outcome.failure with
  | some failure => s!"Error: {libraries.report failure.message failure.causes}\n"
  | none => ""

end Outcome

/-- The settings in force: a flag counts before the environment, the environment before the file,
and the file before the default.  Every source is checked even if another one counts before it. -/
def settings (format : Config.DocumentFormat) (options : Options) (surroundings : Surroundings) :
    Except Failure Config := do
  let base ←
    match options.configPath with
    | some path =>
      (Config.ofFile format (surroundings.file path)).mapError (Failure.settingsFile path)
    | none => .ok .default
  let config ← (base.override surroundings.environment).mapError Failure.settings
  return { config with allowComments := options.allowComments || config.allowComments }

/-- The SQL text to list, from the arguments or else from standard input. -/
def statement (options : Options) (surroundings : Surroundings) : Except String Bytes :=
  match options.statement with
  | some text => .ok (Utf8.ofString text)
  | none => surroundings.standardInput

/-- Lists the tokens of the SQL text.  All of them are listed even if some are invalid; the first
invalid one is then the failure. -/
def list (libraries : Libraries) (options : Options) (surroundings : Surroundings) : Outcome :=
  let isLogged := libraries.admits options.logLevel (surroundings.environment logVariable)
  match settings libraries.documentFormat options surroundings with
  | .error failure => { output := "", failure := some failure, log := [] }
  | .ok config =>
    let loaded : LogLine :=
      { level := .debug, source := "shardsql", message := s!"lexer config: {config.describe}" }
    match statement options surroundings with
    | .error cause =>
      { output := "", failure := some (.standardInput cause), log := [loaded].filter isLogged }
    | .ok input =>
      let reply := (Lexer.start input config).tokenize
      let rows := reply.answer.map (Row.ofToken options.requote)
      { output := if options.json then libraries.writeJson rows ++ "\n" else textListing rows
        failure := (reply.answer.find? Token.isInvalid).map .invalidToken
        log := (loaded :: reply.log.map LogLine.ofEntry).filter isLogged }

/-- A run of the program: a listing, unless the arguments ask for something else or are wrong. -/
def run (libraries : Libraries) (arguments : List String) (surroundings : Surroundings) :
    Except Notice Outcome :=
  (libraries.readArguments arguments).map fun options => list libraries options surroundings

end SqlLexer.CommandLine
