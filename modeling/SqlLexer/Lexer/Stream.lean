import SqlLexer.Error
import SqlLexer.Lexer

/-!
# Pulling many tokens

The longer pulls are repetitions of `lex`.  They end because every token but the end of the input
takes at least one byte.
-/

namespace SqlLexer.Lexer

/-- The next token, or nothing at the end of the input. -/
def next (lexer : Lexer) : Reply (Option Token) :=
  lexer.lex.map fun token => if token.isEnd then none else some token

/-- All tokens that are left, the end of the input included. -/
def tokenize (lexer : Lexer) : Reply (List Token) :=
  let pulled := lexer.lex
  if _ : pulled.answer.isEnd = false then
    let others := pulled.lexer.tokenize
    { answer := pulled.answer :: others.answer
      lexer := others.lexer
      log := pulled.log ++ others.log }
  else pulled.map fun token => [token]
termination_by lexer.remaining
decreasing_by exact remaining_lex_lt ‹_›

theorem remaining_next_lt {lexer : Lexer} {token : Token}
    (given : lexer.next.answer = some token) : lexer.next.lexer.remaining < lexer.remaining := by
  refine remaining_lex_lt ((Bool.not_eq_true _).mp fun isEnd => ?_)
  simp [next, Reply.map, isEnd] at given

/-- The tokens that `next` gives before it gives nothing. -/
def collect (lexer : Lexer) : Reply (List Token) :=
  let pulled := lexer.next
  match _ : pulled.answer with
  | none => pulled.map fun _ => []
  | some token =>
    let others := pulled.lexer.collect
    { answer := token :: others.answer
      lexer := others.lexer
      log := pulled.log ++ others.log }
termination_by lexer.remaining
decreasing_by exact remaining_next_lt ‹_›

/-- At most `count` tokens.  The end of the input is pulled at most once and is not given. -/
def take (lexer : Lexer) : Nat → Reply (List Token)
  | 0 => { answer := [], lexer, log := [] }
  | count + 1 =>
    let pulled := lexer.next
    match pulled.answer with
    | none => pulled.map fun _ => []
    | some token =>
      let others := pulled.lexer.take count
      { answer := token :: others.answer
        lexer := others.lexer
        log := pulled.log ++ others.log }

/-- The error that an invalid token makes of strict tokenizing. -/
def invalidTokenError (token : Token) : Error :=
  .lexical s!"invalid token '{token.text}'" (token.offset + 1)

/-- All tokens that are left, as long as each is valid.  The first invalid token is recorded and
becomes the error; the lexer stays behind it. -/
def tokenizeStrict (lexer : Lexer) : Reply (Except Error (List Token)) :=
  let pulled := lexer.lex
  if pulled.answer.isInvalid then
    let recorded := pulled.lexer.recordError "invalid token"
    { answer := .error (invalidTokenError pulled.answer)
      lexer := recorded.lexer
      log := pulled.log ++ recorded.log }
  else if _ : pulled.answer.isEnd = false then
    let others := pulled.lexer.tokenizeStrict
    { answer := others.answer.map (pulled.answer :: ·)
      lexer := others.lexer
      log := pulled.log ++ others.log }
  else pulled.map fun token => .ok [token]
termination_by lexer.remaining
decreasing_by exact remaining_lex_lt ‹_›

end SqlLexer.Lexer

namespace SqlLexer

/-- All tokens of a text under the default settings, the end of the input included. -/
def tokenize (text : String) : List Token :=
  (Lexer.start (Utf8.ofString text) .default).tokenize.answer

end SqlLexer
