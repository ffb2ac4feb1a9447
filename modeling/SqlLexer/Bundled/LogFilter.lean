import SqlLexer.CommandLine.Libraries
import SqlLexer.Text.Trim

/-!
# Choosing what is logged

How much is logged is said by a word, on the command line or in a variable.  Without a word only
errors are logged.
-/

namespace SqlLexer.CommandLine

/-- How much detail a word admits into the log, in any case. -/
def detailOfWord? (word : String) : Option Nat :=
  let word := Text.normalize word
  if word == "off" then some 0
  else
    ([.error, .warn, .info, .debug, .trace].find? fun level : LogLevel =>
      Text.normalize level.display == word).map LogLevel.detail

/-- How much detail the log admits.  The command line counts before the variable. -/
def admittedDetail (fromArguments fromVariable : Option String) : Nat :=
  ((fromArguments.bind detailOfWord?).or (fromVariable.bind detailOfWord?)).getD
    LogLevel.error.detail

namespace LogLine

/-- The line as it is shown, without the bracket that opens it. -/
def display (line : LogLine) : String :=
  let level := line.level.display
  let padding := String.ofList (List.replicate (5 - level.length) ' ')
  level ++ padding ++ " " ++ line.source ++ "] " ++ line.message

end LogLine

end SqlLexer.CommandLine
