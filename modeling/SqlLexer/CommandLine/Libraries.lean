import SqlLexer.CommandLine.Listing
import SqlLexer.Config.Document
import SqlLexer.Log

/-!
# Libraries of the command line

The program leaves to libraries how arguments and documents are read, what is logged, and how rows
are written as JSON and errors as a report.  What it relies on is stated with them.
-/

namespace SqlLexer.CommandLine

/-- What the arguments ask for. -/
structure Options where
  /-- The SQL text; without it the text comes from standard input. -/
  statement : Option String
  configPath : Option String
  logLevel : Option String
  /-- Comments are listed. -/
  allowComments : Bool
  json : Bool
  /-- String literals are listed as they would be written. -/
  requote : Bool
  deriving DecidableEq, Repr

def Options.empty : Options :=
  { statement := none
    configPath := none
    logLevel := none
    allowComments := false
    json := false
    requote := false }

/-- What is shown in place of a listing: help, the version, or what is wrong with the arguments. -/
structure Notice where
  exitCode : Nat
  output : String
  standardError : String
  deriving DecidableEq, Repr

/-- A line of the log: how urgent it is, which part of the program wrote it, and its text. -/
structure LogLine where
  level : LogLevel
  source : String
  message : String
  deriving DecidableEq, Repr

/-- The line of an entry that the lexer wrote. -/
def LogLine.ofEntry (entry : LogEntry) : LogLine :=
  { level := entry.level, source := "shardsql::parser::lexer", message := entry.message }

/-- The libraries with their laws. -/
structure Libraries where
  readArguments : List String → Except Notice Options
  documentFormat : Config.DocumentFormat
  /-- The line is logged, given what the arguments and the environment say about the level. -/
  admits : (fromArguments fromVariable : Option String) → LogLine → Bool
  /-- Rows as a JSON array of objects. -/
  writeJson : List Row → String
  /-- The report of an error, from its message and those of the errors behind it. -/
  report : (message : String) → (causes : List String) → String
  /-- The message itself comes first. -/
  report_begins : ∀ message causes, ∃ behind, report message causes = message ++ behind
  /-- Where no error lies behind, there is nothing else to report. -/
  report_alone : ∀ message, report message [] = message

end SqlLexer.CommandLine
