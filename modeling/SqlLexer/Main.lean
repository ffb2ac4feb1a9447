import SqlLexer.Bundled
import SqlLexer.CommandLine

/-!
# The program

Gathers what a run may ask for, and writes what the run comes to.
-/

namespace SqlLexer.CommandLine

/-- All bytes of a stream. -/
partial def readToEnd (stream : IO.FS.Stream) (soFar : ByteArray) : IO ByteArray := do
  let chunk ← stream.read 65536
  if chunk.isEmpty then return soFar else readToEnd stream (soFar ++ chunk)

/-- The bytes that an action reads, or the complaint of the system. -/
def attempt (action : IO ByteArray) : IO (Except String Bytes) := do
  try
    return .ok (← action).toList
  catch fault =>
    return .error (toString fault)

/-- The variables that a run looks at. -/
def readEnvironment : IO Environment := do
  let names := [Config.allowCommentsVariable, Config.traceTokensVariable, logVariable]
  let values ← names.mapM fun name => return (name, ← IO.getEnv name)
  return fun name => (values.lookup name).join

/-- What a listing may ask for.  Files and standard input are read only if it needs them. -/
def surroundingsOf (options : Options) : IO Surroundings := do
  let environment ← readEnvironment
  let content ←
    match options.configPath with
    | some path => attempt (IO.FS.readBinFile path)
    | none => pure (.error "not read")
  let standardInput ←
    match options.statement with
    | some _ => pure (.error "not read")
    | none => attempt do readToEnd (← IO.getStdin) .empty
  return { environment, file := fun _ => content, standardInput }

/-- Writes the outcome of a run: the log and a failure to standard error, the rest to standard
output. -/
def Outcome.write (outcome : Outcome) (libraries : Libraries) : IO Unit := do
  for line in outcome.log do
    IO.eprintln ("[" ++ line.display)
  IO.print outcome.output
  IO.eprint (outcome.standardError libraries)

end SqlLexer.CommandLine

open SqlLexer.CommandLine in
/-- Runs the program on the arguments of the process. -/
def main (arguments : List String) : IO UInt32 := do
  let libraries := Libraries.bundled
  match libraries.readArguments arguments with
  | .error notice =>
    IO.print notice.output
    IO.eprint notice.standardError
    return notice.exitCode.toUInt32
  | .ok options =>
    let outcome := list libraries options (← surroundingsOf options)
    outcome.write libraries
    return outcome.exitCode.toUInt32
