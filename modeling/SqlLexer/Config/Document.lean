import SqlLexer.Config
import SqlLexer.Error
import SqlLexer.Utf8

/-!
# Settings in a document

A document tells of the switches in a format of its own.  A switch of which it does not tell has
its default.
-/

namespace SqlLexer.Config

/-- A format of documents with settings. -/
structure DocumentFormat where
  /-- What a document tells, or why it cannot be read. -/
  read : String → Except String Layer
  /-- The document for some settings, or why it cannot be written. -/
  write : Config → Except String String

def ofDocument (format : DocumentFormat) (text : String) : Except Error Config :=
  match format.read text with
  | .ok layer => .ok (layer.onto .default)
  | .error cause => .error (.configuration cause)

/-- The settings in a file, given what reading it came to: the content, or the reason why there is
none.  The content has to be well-formed text. -/
def ofFile (format : DocumentFormat) (content : Except String Bytes) : Except Error Config :=
  match content with
  | .error reason => .error (.io reason)
  | .ok bytes =>
    match Utf8.decode? bytes with
    | some characters => ofDocument format (String.ofList characters)
    | none => .error (.io "stream did not contain valid UTF-8")

/-- Writes the settings to a file by the given operation. -/
def toFile (config : Config) (format : DocumentFormat) (write : String → Except String α) :
    Except Error α := do
  let text ← (format.write config).mapError .configuration
  (write text).mapError .io

end SqlLexer.Config
