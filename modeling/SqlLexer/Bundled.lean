import SqlLexer.Bundled.Arguments
import SqlLexer.Bundled.Json
import SqlLexer.Bundled.LogFilter
import SqlLexer.Bundled.Toml.Settings

/-!
# Bundled libraries

The libraries with which the program runs.  Their reports show below an error the errors behind
it, numbered if there are several.
-/

namespace SqlLexer.CommandLine

def numberedCauses (causes : List String) : List String :=
  causes.zipIdx.map fun (cause, index) => s!"    {index}: {cause}"

def causesListing : List String → String
  | [] => ""
  | [cause] => s!"\n\nCaused by:\n    {cause}"
  | causes => "\n\nCaused by:\n" ++ String.intercalate "\n" (numberedCauses causes)

def errorReport (message : String) (causes : List String) : String :=
  message ++ causesListing causes

def Libraries.bundled : Libraries where
  readArguments arguments := (Options.ofArguments arguments).mapError Stop.notice
  documentFormat := Toml.documentFormat
  admits fromArguments fromVariable line :=
    line.level.detail ≤ admittedDetail fromArguments fromVariable
  writeJson := jsonRows
  report := errorReport
  report_begins _ causes := ⟨causesListing causes, rfl⟩
  report_alone _ := String.append_empty

end SqlLexer.CommandLine
