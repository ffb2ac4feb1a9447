import SqlLexer.Lexer.Stream

/-!
# Sessions

A session drives one lexer by a list of commands.  Commands and answers are data, so a statement
about every order of calls is a statement about every list.
-/

namespace SqlLexer

inductive Command where
  /-- Read one token of any kind, unreported. -/
  | scan
  | lex
  | next
  | take (count : Nat)
  | collect
  | tokenize
  | tokenizeStrict
  | forceEnd
  | setAllowComments (allowed : Bool)
  | recordError (message : String)
  | putResult (result : ParseResult)
  | takeResult (expected : TypeCode)
  /-- Only look at the state. -/
  | inspect
  deriving DecidableEq, Repr

/-- What a call gives back. -/
inductive Answer where
  | token (token : Token)
  | nextToken (token : Option Token)
  | tokens (tokens : List Token)
  | failure (error : Error)
  | result (value : Option Bytes)
  | nothing
  deriving DecidableEq, Repr

namespace Answer

/-- The answer of a pull that may fail. -/
def ofStrict : Except Error (List Token) → Answer
  | .ok pulled => .tokens pulled
  | .error cause => .failure cause

end Answer

namespace Lexer

def perform (lexer : Lexer) : Command → Reply Answer
  | .scan =>
    let scanned := lexer.scan
    { answer := .token scanned.1, lexer := scanned.2, log := [] }
  | .lex => lexer.lex.map .token
  | .next => lexer.next.map .nextToken
  | .take count => (lexer.take count).map .tokens
  | .collect => lexer.collect.map .tokens
  | .tokenize => lexer.tokenize.map .tokens
  | .tokenizeStrict => lexer.tokenizeStrict.map .ofStrict
  | .forceEnd => lexer.forceEnd.map fun _ => .nothing
  | .setAllowComments allowed =>
    { answer := .nothing, lexer := lexer.setAllowComments allowed, log := [] }
  | .recordError message => (lexer.recordError message).map fun _ => .nothing
  | .putResult result => { answer := .nothing, lexer := lexer.putResult result, log := [] }
  | .takeResult expected =>
    let taken := lexer.takeResult expected
    { answer := .result taken.1, lexer := taken.2, log := [] }
  | .inspect => { answer := .nothing, lexer, log := [] }

/-- Carries out commands one after the other and gives the reply to each. -/
def run (lexer : Lexer) : List Command → List (Reply Answer)
  | [] => []
  | command :: commands =>
    let reply := lexer.perform command
    reply :: reply.lexer.run commands

/-- The lexer that a session leaves behind. -/
def after (lexer : Lexer) (commands : List Command) : Lexer :=
  commands.foldl (fun lexer command => (lexer.perform command).lexer) lexer

end Lexer

end SqlLexer
