import SqlLexer.Bundled.Toml.Document
import SqlLexer.Config.Document

/-!
# Settings in TOML

The switches are the top-level keys `allow_comments` and `trace_tokens`.  Other keys are ignored
whatever they stand for.
-/

namespace SqlLexer.Toml

/-- What a top-level key tells of its switch. -/
def switchAt (entries : Entries) (key : String) : Except String (Option Bool) :=
  match entries.lookup key with
  | none => .ok none
  | some (.boolean isOn) => .ok (some isOn)
  | some _ => .error s!"{key} is no boolean"

def readSettings (text : String) : Except String Config.Layer :=
  match Document.entries? text with
  | none => .error "the document is malformed"
  | some entries => do
    let allowComments ← switchAt entries "allow_comments"
    let traceTokens ← switchAt entries "trace_tokens"
    return { allowComments, traceTokens }

def writeSettings (config : Config) : String :=
  "allow_comments = " ++ Config.showSwitch config.allowComments ++ "\n" ++
    "trace_tokens = " ++ Config.showSwitch config.traceTokens ++ "\n"

def documentFormat : Config.DocumentFormat where
  read := readSettings
  write config := .ok (writeSettings config)

end SqlLexer.Toml
