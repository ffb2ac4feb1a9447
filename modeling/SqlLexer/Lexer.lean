import SqlLexer.Config
import SqlLexer.Cursor
import SqlLexer.Lexeme.Front
import SqlLexer.Log
import SqlLexer.ParseResult

/-!
# The lexer

A lexer is a cursor with its settings and with what it has to remember for diagnostics.  `scan`
reads the next token of any kind.  `lex` is what a grammar calls: it withholds comments unless they
are allowed, reports what it hands out, and remembers its text for later error messages.
-/

namespace SqlLexer

structure Lexer where
  cursor : Cursor
  config : Config
  /-- The lexer was told to hand out nothing but the end of the input. -/
  isStopped : Bool
  placeholders : Nat
  /-- The text of the last token handed out, if its kind carries text. -/
  context : Option Bytes
  lastError : Option String
  /-- The result that a grammar left here. -/
  result : Option ParseResult
  deriving DecidableEq, Repr

/-- The answer of an operation, with the lexer after it and what was logged on the way. -/
structure Reply (α : Type) where
  answer : α
  lexer : Lexer
  log : List LogEntry
  deriving DecidableEq, Repr

namespace Reply

/-- Changes the answer alone. -/
def map (change : α → β) (reply : Reply α) : Reply β :=
  { answer := change reply.answer, lexer := reply.lexer, log := reply.log }

end Reply

namespace Lexer

def start (input : Bytes) (config : Config) : Lexer :=
  { cursor := Cursor.start input
    config
    isStopped := false
    placeholders := 0
    context := none
    lastError := none
    result := none }

def position (lexer : Lexer) : Nat :=
  lexer.cursor.position

/-- The position as error messages count it, from one. -/
def errorPosition (lexer : Lexer) : Nat :=
  lexer.position + 1

def remaining (lexer : Lexer) : Nat :=
  lexer.cursor.rest.length

def setAllowComments (lexer : Lexer) (allowed : Bool) : Lexer :=
  { lexer with config := { lexer.config with allowComments := allowed } }

/-- Reads the token after the blanks that stand next, comments included. -/
def scan (lexer : Lexer) : Token × Lexer :=
  if lexer.isStopped then (Token.bare .endOfInput lexer.position, lexer)
  else
    let cursor := lexer.cursor.skipBlanks
    match cursor.rest with
    | [] => (Token.bare .endOfInput cursor.position, { lexer with cursor })
    | first :: rest =>
      let lexeme := Lexeme.ofFront first rest
      let placeholders :=
        if first == '?'.toUInt8 then lexer.placeholders + 1 else lexer.placeholders
      (lexeme.toToken cursor.position,
        { lexer with cursor := cursor.advance lexeme.width, placeholders })

theorem scan_stopped {lexer : Lexer} (stopped : lexer.isStopped = true) :
    lexer.scan = (Token.bare .endOfInput lexer.position, lexer) := by
  simp [scan, stopped]

theorem scan_end {lexer : Lexer} (running : lexer.isStopped = false)
    (atEnd : lexer.cursor.skipBlanks.rest = []) :
    lexer.scan =
      (Token.bare .endOfInput lexer.cursor.skipBlanks.position,
        { lexer with cursor := lexer.cursor.skipBlanks }) := by
  simp [scan, running, atEnd]

/-- A scan reads the lexeme at the front, and counts the token if it is a placeholder. -/
theorem scan_front {lexer : Lexer} (running : lexer.isStopped = false)
    {first : UInt8} {rest : Bytes} (front : lexer.cursor.skipBlanks.rest = first :: rest) :
    lexer.scan =
      (let lexeme := Lexeme.ofFront first rest
       let token := lexeme.toToken lexer.cursor.skipBlanks.position
       (token,
        { lexer with
          cursor := lexer.cursor.skipBlanks.advance lexeme.width
          placeholders := lexer.placeholders + if token.isPlaceholder then 1 else 0 })) := by
  simp only [scan, running, Bool.false_eq_true, if_false, front, Lexeme.isPlaceholder_ofFront]
  split <;> rfl

/-- A scan that finds more than the end of the input reads at least one byte. -/
theorem remaining_scan_lt {lexer : Lexer} (notEnd : lexer.scan.1.isEnd = false) :
    lexer.scan.2.remaining < lexer.remaining := by
  cases running : lexer.isStopped with
  | true =>
    rw [scan_stopped running] at notEnd
    simp [Token.bare, Token.isEnd] at notEnd
  | false =>
    cases front : lexer.cursor.skipBlanks.rest with
    | nil =>
      rw [scan_end running front] at notEnd
      simp [Token.bare, Token.isEnd] at notEnd
    | cons first rest =>
      have shorter := lexer.cursor.length_rest_skipBlanks_le
      have taken := (Lexeme.takesInput_ofFront first rest).width_pos
      rw [scan_front running front]
      simp only [remaining, Cursor.rest_advance, front, List.length_drop, List.length_cons]
        at shorter ⊢
      omega

/-- The log entry for a token that is handed out: invalid tokens are always reported, others only
while tokens are traced. -/
def report (config : Config) (token : Token) : List LogEntry :=
  if token.isInvalid then [.invalidToken token]
  else if config.traceTokens then [.tracedToken token]
  else []

/-- Hands out a token: reports it and remembers its text. -/
def handOut (lexer : Lexer) (token : Token) : Reply Token :=
  { answer := token
    lexer := { lexer with context := token.errorContext? }
    log := report lexer.config token }

/-- The token is withheld under these settings. -/
def withholds (lexer : Lexer) (token : Token) : Bool :=
  token.kind.isSkippable && !lexer.config.allowComments

theorem isEnd_of_withholds {lexer : Lexer} {token : Token}
    (withheld : lexer.withholds token = true) : token.isEnd = false := by
  simp only [withholds, Kind.isSkippable, Bool.and_eq_true, beq_iff_eq] at withheld
  simp [Token.isEnd, withheld.1]

/-- The next token for the grammar. -/
def lex (lexer : Lexer) : Reply Token :=
  let scanned := lexer.scan
  if _ : lexer.withholds scanned.1 = true then scanned.2.lex
  else scanned.2.handOut scanned.1
termination_by lexer.remaining
decreasing_by exact remaining_scan_lt (isEnd_of_withholds ‹_›)

theorem remaining_lex_lt {lexer : Lexer} (notEnd : lexer.lex.answer.isEnd = false) :
    lexer.lex.lexer.remaining < lexer.remaining := by
  fun_induction lex lexer with
  | case1 lexer scanned withheld ih =>
    exact Nat.lt_trans (ih notEnd) (remaining_scan_lt (isEnd_of_withholds withheld))
  | case2 lexer scanned withheld => exact remaining_scan_lt notEnd

/-- Hands out nothing but the end of the input from now on.  Only the first call is logged. -/
def forceEnd (lexer : Lexer) : Reply Unit :=
  { answer := ()
    lexer := { lexer with isStopped := true }
    log := if lexer.isStopped then [] else [.forcedEnd lexer.position] }

/-- An error message with the position and, where one is known, the last token handed out. -/
def errorReport (lexer : Lexer) (message : String) : String :=
  let place := s!"{message} at position {lexer.errorPosition}"
  match lexer.context with
  | some context => s!"{place} near {Utf8.text context}"
  | none => place

def recordError (lexer : Lexer) (message : String) : Reply Unit :=
  let report := lexer.errorReport message
  { answer := (), lexer := { lexer with lastError := some report }, log := [.recordedError report] }

/-- Keeps a result of the grammar, in place of any earlier one. -/
def putResult (lexer : Lexer) (result : ParseResult) : Lexer :=
  { lexer with result := some result }

/-- Hands over the kept result, whatever its type, and keeps none. -/
def removeResult (lexer : Lexer) : Option ParseResult × Lexer :=
  (lexer.result, { lexer with result := none })

/-- Gives back the value of the kept result if it is of the expected type.  The result is removed
before its type is known, and a result of another type is put back. -/
def takeResult (lexer : Lexer) (expected : TypeCode) : Option Bytes × Lexer :=
  match lexer.removeResult with
  | (none, emptied) => (none, emptied)
  | (some result, emptied) =>
    match result.downcast expected with
    | .ok value => (some value, emptied)
    | .error other => (none, emptied.putResult other)

end Lexer

end SqlLexer
