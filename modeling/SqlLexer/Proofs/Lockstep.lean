import SqlLexer.Proofs.Pull

/-!
# Two lexers in lockstep

Some statements about sessions compare two runs, such as one with tracing and one
without.  `Lockstep` packages what a scan and the bookkeeping of pulls have to keep
between two lexers.  What follows for a pull follows for the loops of pulls, and so
for every call that reads: both lexers give the same answer, and what the second logs
is a part of what the first logs.
-/

namespace SqlLexer

/-- The command only writes or takes notes: it neither reads nor changes how to read. -/
def Command.isNote : Command → Bool
  | .recordError _ | .putResult _ | .takeResult _ => true
  | .scan | .lex | .next | .take _ | .collect | .tokenize | .tokenizeStrict | .forceEnd
  | .setAllowComments _ | .inspect => false

namespace Reply

variable {α β γ : Type} {related : Lexer → Lexer → Prop} {kept : LogEntry → Bool}

/-- The replies of two lexers that stay related.  The second one logs those entries
of the first that are kept. -/
structure Matches (related : Lexer → Lexer → Prop) (kept : LogEntry → Bool)
    (first second : Reply α) : Prop where
  answer_eq : second.answer = first.answer
  lexer_related : related first.lexer second.lexer
  log_eq : second.log = first.log.filter kept

namespace Matches

theorem map {first second : Reply α} (replies : Matches related kept first second)
    (change : α → β) : Matches related kept (first.map change) (second.map change) where
  answer_eq := congrArg change replies.answer_eq
  lexer_related := replies.lexer_related
  log_eq := replies.log_eq

theorem before {first second : Reply α} {firstOthers secondOthers : Reply β}
    (replies : Matches related kept first second)
    (others : Matches related kept firstOthers secondOthers) (combine : α → β → γ) :
    Matches related kept
      { answer := combine first.answer firstOthers.answer
        lexer := firstOthers.lexer
        log := first.log ++ firstOthers.log }
      { answer := combine second.answer secondOthers.answer
        lexer := secondOthers.lexer
        log := second.log ++ secondOthers.log } where
  answer_eq := by rw [replies.answer_eq, others.answer_eq]
  lexer_related := others.lexer_related
  log_eq := by rw [replies.log_eq, others.log_eq, List.filter_append]

end Matches

end Reply

namespace Lexer

open Reply (Matches)

/-- What two lexers keep between them over a scan, and over the calls that only keep
books for a pull. -/
structure Lockstep (related : Lexer → Lexer → Prop) (kept : LogEntry → Bool) : Prop where
  answer_scan : ∀ {first second}, related first second → second.scan.1 = first.scan.1
  scan : ∀ {first second}, related first second → related first.scan.2 second.scan.2
  allowComments_eq : ∀ {first second}, related first second →
    second.config.allowComments = first.config.allowComments
  handOut : ∀ {first second}, related first second → ∀ token,
    Matches related kept (first.handOut token) (second.handOut token)
  recordError : ∀ {first second}, related first second → ∀ message,
    Matches related kept (first.recordError message) (second.recordError message)
  forceEnd : ∀ {first second}, related first second →
    Matches related kept first.forceEnd second.forceEnd
  setAllowComments : ∀ {first second}, related first second → ∀ allowed,
    related (first.setAllowComments allowed) (second.setAllowComments allowed)

namespace Lockstep

variable {related : Lexer → Lexer → Prop} {kept : LogEntry → Bool} {first second : Lexer}

theorem withholds_scan (lockstep : Lockstep related kept) (start : related first second) :
    second.withholds second.scan.1 = first.withholds first.scan.1 := by
  rw [withholds, withholds, lockstep.answer_scan start, lockstep.allowComments_eq start]

theorem lex (lockstep : Lockstep related kept) (start : related first second) :
    Matches related kept first.lex second.lex := by
  induction first using Lexer.lex.induct generalizing second
  case case1 first scanned withheld ih =>
    have withheldThere := (lockstep.withholds_scan start).trans withheld
    rw [lex_of_withholds withheld, lex_of_withholds withheldThere]
    exact ih (lockstep.scan start)
  case case2 first scanned visible =>
    have visibleThere : ¬second.withholds second.scan.1 = true := by
      rw [lockstep.withholds_scan start]
      exact visible
    rw [lex_of_not_withholds visible, lex_of_not_withholds visibleThere,
      lockstep.answer_scan start]
    exact lockstep.handOut (lockstep.scan start) _

theorem next (lockstep : Lockstep related kept) (start : related first second) :
    Matches related kept first.next second.next :=
  (lockstep.lex start).map _

theorem take (lockstep : Lockstep related kept) (start : related first second) (count : Nat) :
    Matches related kept (first.take count) (second.take count) := by
  induction count generalizing first second with
  | zero => exact ⟨rfl, start, rfl⟩
  | succ count ih =>
      have pulled := lockstep.lex start
      cases isEnd : first.lex.answer.isEnd with
      | true =>
          have isEndThere : second.lex.answer.isEnd = true := by rw [pulled.answer_eq, isEnd]
          rw [take_succ_of_isEnd isEnd, take_succ_of_isEnd isEndThere]
          exact pulled.map _
      | false =>
          have notEndThere : second.lex.answer.isEnd = false := by rw [pulled.answer_eq, isEnd]
          rw [take_succ_of_not_isEnd isEnd, take_succ_of_not_isEnd notEndThere]
          exact pulled.before (ih pulled.lexer_related) List.cons

theorem tokenize (lockstep : Lockstep related kept) (start : related first second) :
    Matches related kept first.tokenize second.tokenize := by
  induction first using Lexer.tokenize.induct generalizing second
  case case1 first _ notEnd ih =>
    have pulled := lockstep.lex start
    have notEndThere : second.lex.answer.isEnd = false := by rw [pulled.answer_eq, notEnd]
    rw [tokenize_of_not_isEnd notEnd, tokenize_of_not_isEnd notEndThere]
    exact pulled.before (ih pulled.lexer_related) List.cons
  case case2 first _ isEnd =>
    have pulled := lockstep.lex start
    have isEnd : first.lex.answer.isEnd = true := (Bool.not_eq_false _).mp isEnd
    have isEndThere : second.lex.answer.isEnd = true := by rw [pulled.answer_eq, isEnd]
    rw [tokenize_of_isEnd isEnd, tokenize_of_isEnd isEndThere]
    exact pulled.map _

theorem tokenizeStrict (lockstep : Lockstep related kept) (start : related first second) :
    Matches related kept first.tokenizeStrict second.tokenizeStrict := by
  induction first using Lexer.tokenizeStrict.induct generalizing second
  case case1 first _ invalid =>
    have pulled := lockstep.lex start
    have invalidThere : second.lex.answer.isInvalid = true := by rw [pulled.answer_eq, invalid]
    rw [tokenizeStrict_of_isInvalid invalid, tokenizeStrict_of_isInvalid invalidThere]
    have recorded := lockstep.recordError pulled.lexer_related "invalid token"
    exact pulled.before recorded fun token _ => Except.error (invalidTokenError token)
  case case2 first _ notInvalid notEnd ih =>
    have pulled := lockstep.lex start
    have valid : first.lex.answer.isInvalid = false := (Bool.not_eq_true _).mp notInvalid
    have validThere : second.lex.answer.isInvalid = false := by rw [pulled.answer_eq, valid]
    have notEndThere : second.lex.answer.isEnd = false := by rw [pulled.answer_eq, notEnd]
    rw [tokenizeStrict_of_not_isEnd valid notEnd,
      tokenizeStrict_of_not_isEnd validThere notEndThere]
    exact pulled.before (ih pulled.lexer_related) fun token others => others.map (token :: ·)
  case case3 first _ notInvalid isEnd =>
    have pulled := lockstep.lex start
    have isEnd : first.lex.answer.isEnd = true := (Bool.not_eq_false _).mp isEnd
    have isEndThere : second.lex.answer.isEnd = true := by rw [pulled.answer_eq, isEnd]
    rw [tokenizeStrict_of_isEnd isEnd, tokenizeStrict_of_isEnd isEndThere]
    exact pulled.map _

/-- Every call but those on notes keeps two lexers in lockstep. -/
theorem perform (lockstep : Lockstep related kept) (start : related first second)
    {command : Command} (reads : command.isNote = false) :
    Matches related kept (first.perform command) (second.perform command) := by
  cases command with
  | scan =>
      exact ⟨congrArg Answer.token (lockstep.answer_scan start), lockstep.scan start, rfl⟩
  | lex => exact (lockstep.lex start).map _
  | next => exact (lockstep.next start).map _
  | take count => exact (lockstep.take start count).map _
  | collect =>
      rw [perform_collect, perform_collect]
      exact (lockstep.tokenize start).map _
  | tokenize => exact (lockstep.tokenize start).map _
  | tokenizeStrict => exact (lockstep.tokenizeStrict start).map _
  | forceEnd => exact (lockstep.forceEnd start).map fun _ => Answer.nothing
  | setAllowComments allowed => exact ⟨rfl, lockstep.setAllowComments start allowed, rfl⟩
  | inspect => exact ⟨rfl, start, rfl⟩
  | recordError | putResult | takeResult => cases reads

end Lockstep

end Lexer

end SqlLexer
