import SqlLexer.Proofs.Pull

/-!
# Notes have no part in reading

A lexer keeps the last error message and the result of the grammar for others.
Reading neither asks for these notes nor changes them: with other notes a pull
gives the same answer, the same log and, but for the notes, the same lexer.
-/

namespace SqlLexer

namespace Lexer

/-- The change is aside from a scan: it keeps what a scan looks at, and does not look at what
a scan writes. -/
structure IsAside (change : Lexer → Lexer) : Prop where
  isStopped_eq : ∀ lexer, (change lexer).isStopped = lexer.isStopped
  cursor_eq : ∀ lexer, (change lexer).cursor = lexer.cursor
  placeholders_eq : ∀ lexer, (change lexer).placeholders = lexer.placeholders
  write : ∀ lexer cursor placeholders,
    change { lexer with cursor, placeholders } = { change lexer with cursor, placeholders }

/-- A scan and a change aside from it may be exchanged. -/
theorem IsAside.scan {change : Lexer → Lexer} (aside : IsAside change) (lexer : Lexer) :
    (change lexer).scan = (lexer.scan.1, change lexer.scan.2) := by
  have stopped := aside.isStopped_eq lexer
  have cursor := aside.cursor_eq lexer
  have placeholders := aside.placeholders_eq lexer
  cases running : lexer.isStopped with
  | true =>
      rw [scan_stopped running, scan_stopped (stopped.trans running), position, position, cursor]
  | false =>
      have otherRunning := stopped.trans running
      cases front : lexer.cursor.skipBlanks.rest with
      | nil =>
          have written := aside.write lexer lexer.cursor.skipBlanks lexer.placeholders
          have otherFront : (change lexer).cursor.skipBlanks.rest = [] := by rw [cursor, front]
          rw [scan_end running front, scan_end otherRunning otherFront, cursor, written,
            ← placeholders]
      | cons first rest =>
          have otherFront : (change lexer).cursor.skipBlanks.rest = first :: rest := by
            rw [cursor, front]
          rw [scan_front running front, scan_front otherRunning otherFront, cursor, placeholders]
          exact congrArg _ (aside.write lexer _ _).symm

/-- The same lexer with other notes. -/
def withNotes (lexer : Lexer) (lastError : Option String) (result : Option ParseResult) :
    Lexer :=
  { lexer with lastError, result }

end Lexer

/-- The same reply from a lexer with other notes. -/
def Reply.withNotes {α : Type} (reply : Reply α) (lastError : Option String)
    (result : Option ParseResult) : Reply α :=
  { reply with lexer := reply.lexer.withNotes lastError result }

namespace Lexer

variable (lexer : Lexer) (lastError : Option String) (result : Option ParseResult)

theorem scan_withNotes :
    (lexer.withNotes lastError result).scan =
      (lexer.scan.1, lexer.scan.2.withNotes lastError result) := by
  have aside : IsAside fun lexer => lexer.withNotes lastError result :=
    ⟨fun _ => rfl, fun _ => rfl, fun _ => rfl, fun _ _ _ => rfl⟩
  exact aside.scan lexer

theorem lex_withNotes :
    (lexer.withNotes lastError result).lex = lexer.lex.withNotes lastError result := by
  induction lexer using Lexer.lex.induct
  case case1 lexer scanned withheld ih =>
    have withheldThere : (lexer.withNotes lastError result).withholds
        (lexer.withNotes lastError result).scan.1 = true := by
      rw [scan_withNotes]
      exact withheld
    rw [lex_of_withholds withheldThere, scan_withNotes, lex_of_withholds withheld]
    exact ih
  case case2 lexer scanned visible =>
    have visibleThere : ¬(lexer.withNotes lastError result).withholds
        (lexer.withNotes lastError result).scan.1 = true := by
      rw [scan_withNotes]
      exact visible
    rw [lex_of_not_withholds visibleThere, scan_withNotes, lex_of_not_withholds visible]
    rfl

theorem tokenize_withNotes :
    (lexer.withNotes lastError result).tokenize =
      lexer.tokenize.withNotes lastError result := by
  induction lexer using Lexer.tokenize.induct
  case case1 lexer pulled notEnd ih =>
    have notEndThere : (lexer.withNotes lastError result).lex.answer.isEnd = false := by
      rw [lex_withNotes]
      exact notEnd
    have others : (lexer.lex.lexer.withNotes lastError result).tokenize =
        lexer.lex.lexer.tokenize.withNotes lastError result := ih
    rw [tokenize_of_not_isEnd notEndThere, lex_withNotes, tokenize_of_not_isEnd notEnd]
    simp only [Reply.withNotes, others]
  case case2 lexer pulled isEnd =>
    have isEnd := (Bool.not_eq_false _).mp isEnd
    have isEndThere : (lexer.withNotes lastError result).lex.answer.isEnd = true := by
      rw [lex_withNotes]
      exact isEnd
    rw [tokenize_of_isEnd isEndThere, lex_withNotes, tokenize_of_isEnd isEnd]
    rfl

theorem tokenize_withNotes_self :
    lexer.tokenize.withNotes lexer.lastError lexer.result = lexer.tokenize :=
  (lexer.tokenize_withNotes lexer.lastError lexer.result).symm

theorem lastError_tokenize : lexer.tokenize.lexer.lastError = lexer.lastError := by
  rw [← tokenize_withNotes_self]
  rfl

theorem result_tokenize : lexer.tokenize.lexer.result = lexer.result := by
  rw [← tokenize_withNotes_self]
  rfl

end Lexer

end SqlLexer
