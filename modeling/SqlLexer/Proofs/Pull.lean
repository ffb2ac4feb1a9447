import SqlLexer.Session

/-!
# Pulls and sessions, step by step

Every pull is a repetition of `scan`, with a token handed out now and then.
The equations below unfold one round of each.  `Lexer.Invariant` packages what
follows for sessions: what a scan keeps, and the bookkeeping calls keep, holds
in every state that a session can reach.
-/

namespace SqlLexer.Lexer

variable {lexer : Lexer}

theorem lex_of_withholds (withheld : lexer.withholds lexer.scan.1 = true) :
    lexer.lex = lexer.scan.2.lex := by
  rw [lex]
  simp only [withheld, dif_pos]

theorem lex_of_not_withholds (visible : ¬lexer.withholds lexer.scan.1 = true) :
    lexer.lex = lexer.scan.2.handOut lexer.scan.1 := by
  rw [lex]
  exact dif_neg visible

theorem tokenize_of_not_isEnd (notEnd : lexer.lex.answer.isEnd = false) :
    lexer.tokenize =
      { answer := lexer.lex.answer :: lexer.lex.lexer.tokenize.answer
        lexer := lexer.lex.lexer.tokenize.lexer
        log := lexer.lex.log ++ lexer.lex.lexer.tokenize.log } := by
  rw [tokenize]
  simp only [notEnd, dif_pos]

theorem tokenize_of_isEnd (isEnd : lexer.lex.answer.isEnd = true) :
    lexer.tokenize = lexer.lex.map fun token => [token] := by
  rw [tokenize]
  simp only [isEnd, Bool.true_eq_false, dite_false]

theorem tokenizeStrict_of_isInvalid (invalid : lexer.lex.answer.isInvalid = true) :
    lexer.tokenizeStrict =
      (let recorded := lexer.lex.lexer.recordError "invalid token"
       { answer := .error (invalidTokenError lexer.lex.answer)
         lexer := recorded.lexer
         log := lexer.lex.log ++ recorded.log }) := by
  rw [tokenizeStrict]
  simp only [invalid, if_true]

theorem tokenizeStrict_of_not_isEnd (valid : lexer.lex.answer.isInvalid = false)
    (notEnd : lexer.lex.answer.isEnd = false) :
    lexer.tokenizeStrict =
      (let others := lexer.lex.lexer.tokenizeStrict
       { answer := others.answer.map (lexer.lex.answer :: ·)
         lexer := others.lexer
         log := lexer.lex.log ++ others.log }) := by
  rw [tokenizeStrict]
  simp only [valid, notEnd, dif_pos, Bool.false_eq_true, if_false]

theorem tokenizeStrict_of_isEnd (isEnd : lexer.lex.answer.isEnd = true) :
    lexer.tokenizeStrict = lexer.lex.map fun token => .ok [token] := by
  have valid : lexer.lex.answer.isInvalid = false := by
    simp only [Token.isEnd, beq_iff_eq] at isEnd
    simp [Token.isInvalid, isEnd]
  rw [tokenizeStrict]
  simp only [valid, isEnd, Bool.true_eq_false, Bool.false_eq_true, dite_false, if_false]

theorem take_succ_of_isEnd (isEnd : lexer.lex.answer.isEnd = true) (count : Nat) :
    lexer.take (count + 1) = lexer.lex.map fun _ => [] := by
  simp [take, next, Reply.map, isEnd]

theorem take_succ_of_not_isEnd (notEnd : lexer.lex.answer.isEnd = false) (count : Nat) :
    lexer.take (count + 1) =
      { answer := lexer.lex.answer :: (lexer.lex.lexer.take count).answer
        lexer := (lexer.lex.lexer.take count).lexer
        log := lexer.lex.log ++ (lexer.lex.lexer.take count).log } := by
  simp [take, next, Reply.map, notEnd]

theorem collect_of_none (nothing : lexer.next.answer = none) :
    lexer.collect = lexer.next.map fun _ => [] := by
  rw [collect]
  split
  · rfl
  · next _ given => cases nothing.symm.trans given

theorem collect_of_some {token : Token} (given : lexer.next.answer = some token) :
    lexer.collect =
      { answer := token :: lexer.next.lexer.collect.answer
        lexer := lexer.next.lexer.collect.lexer
        log := lexer.next.log ++ lexer.next.lexer.collect.log } := by
  rw [collect]
  split
  · next nothing => cases given.symm.trans nothing
  · next token same =>
      cases given.symm.trans same
      rfl

theorem answer_next_of_isEnd (isEnd : lexer.lex.answer.isEnd = true) :
    lexer.next.answer = none :=
  if_pos isEnd

theorem answer_next_of_not_isEnd (notEnd : lexer.lex.answer.isEnd = false) :
    lexer.next.answer = some lexer.lex.answer :=
  if_neg ((Bool.not_eq_true _).mpr notEnd)

theorem answer_tokenize_ne_nil (lexer : Lexer) : lexer.tokenize.answer ≠ [] := by
  cases isEnd : lexer.lex.answer.isEnd with
  | true =>
      rw [tokenize_of_isEnd isEnd]
      exact List.cons_ne_nil _ _
  | false =>
      rw [tokenize_of_not_isEnd isEnd]
      exact List.cons_ne_nil _ _

/-- What `next` gives, call after call, are all tokens but the end of the input. -/
theorem collect_eq (lexer : Lexer) : lexer.collect = lexer.tokenize.map List.dropLast := by
  induction lexer using Lexer.tokenize.induct
  case case1 lexer pulled notEnd ih =>
    have left := answer_tokenize_ne_nil lexer.lex.lexer
    rw [collect_of_some (answer_next_of_not_isEnd notEnd), tokenize_of_not_isEnd notEnd,
      Reply.map, List.dropLast_cons_of_ne_nil left]
    simp only [next, Reply.map] at ih ⊢
    rw [ih]
  case case2 lexer pulled isEnd =>
    have atEnd := (Bool.not_eq_false _).mp isEnd
    rw [collect_of_none (answer_next_of_isEnd atEnd), tokenize_of_isEnd atEnd]
    rfl

theorem perform_collect (lexer : Lexer) :
    lexer.perform .collect = lexer.tokenize.map fun tokens => .tokens tokens.dropLast := by
  rw [perform, collect_eq]
  rfl

theorem downcast_of_eq (expected : TypeCode) (value : Bytes) :
    ParseResult.downcast ⟨expected, value⟩ expected = .ok value :=
  if_pos rfl

theorem takeResult_of_some {expected : TypeCode} {value : Bytes}
    (kept : lexer.result = some ⟨expected, value⟩) :
    lexer.takeResult expected = (some value, { lexer with result := none }) := by
  simp only [takeResult, removeResult, kept, downcast_of_eq]

/-- A result of another type is back in its place after it was removed. -/
theorem takeResult_of_ne {expected : TypeCode}
    (other : ∀ value, lexer.result ≠ some ⟨expected, value⟩) :
    lexer.takeResult expected = (none, lexer) := by
  cases kept : lexer.result with
  | none =>
      simp only [takeResult, removeResult, kept]
      rw [← kept]
  | some result =>
      have differs : result.type ≠ expected := by
        rintro rfl
        exact other result.value kept
      have returned : result.downcast expected = .error result := if_neg differs
      simp only [takeResult, removeResult, kept, returned, putResult]
      rw [← kept]

/-- A value is given back if it is the kept one and of the expected type.  Otherwise nothing
happens. -/
theorem takeResult_cases (lexer : Lexer) (expected : TypeCode) :
    (∃ value, lexer.result = some ⟨expected, value⟩ ∧
      lexer.takeResult expected = (some value, { lexer with result := none })) ∨
    ((∀ value, lexer.result ≠ some ⟨expected, value⟩) ∧
      lexer.takeResult expected = (none, lexer)) := by
  by_cases waits : ∃ value, lexer.result = some ⟨expected, value⟩
  · obtain ⟨value, kept⟩ := waits
    exact .inl ⟨value, kept, takeResult_of_some kept⟩
  · have other value : lexer.result ≠ some ⟨expected, value⟩ := fun kept => waits ⟨value, kept⟩
    exact .inr ⟨other, takeResult_of_ne other⟩

theorem takeResult_eq (lexer : Lexer) (expected : TypeCode) :
    ∃ result, (lexer.takeResult expected).2 = { lexer with result } := by
  rcases lexer.takeResult_cases expected with ⟨_, _, taken⟩ | ⟨_, missed⟩
  · exact ⟨none, congrArg Prod.snd taken⟩
  · exact ⟨lexer.result, congrArg Prod.snd missed⟩

/-- What a scan keeps, and every call that only keeps books. -/
structure Invariant (holds : Lexer → Prop) : Prop where
  scan : ∀ lexer, holds lexer → holds lexer.scan.2
  handOut : ∀ lexer token, holds lexer → holds (lexer.handOut token).lexer
  forceEnd : ∀ lexer, holds lexer → holds lexer.forceEnd.lexer
  setAllowComments : ∀ lexer allowed, holds lexer → holds (lexer.setAllowComments allowed)
  recordError : ∀ lexer message, holds lexer → holds (lexer.recordError message).lexer
  putResult : ∀ lexer result, holds lexer → holds (lexer.putResult result)
  takeResult : ∀ lexer expected, holds lexer → holds (lexer.takeResult expected).2

namespace Invariant

variable {holds : Lexer → Prop}

theorem lex (invariant : Invariant holds) (start : holds lexer) : holds lexer.lex.lexer := by
  induction lexer using Lexer.lex.induct
  case case1 lexer scanned withheld ih =>
    rw [lex_of_withholds withheld]
    exact ih (invariant.scan lexer start)
  case case2 lexer scanned visible =>
    rw [lex_of_not_withholds visible]
    exact invariant.handOut _ _ (invariant.scan lexer start)

theorem take (invariant : Invariant holds) (count : Nat) (start : holds lexer) :
    holds (lexer.take count).lexer := by
  induction count generalizing lexer with
  | zero => exact start
  | succ count ih =>
      cases isEnd : lexer.lex.answer.isEnd with
      | true =>
          rw [take_succ_of_isEnd isEnd]
          exact invariant.lex start
      | false =>
          rw [take_succ_of_not_isEnd isEnd]
          exact ih (invariant.lex start)

theorem tokenize (invariant : Invariant holds) (start : holds lexer) :
    holds lexer.tokenize.lexer := by
  induction lexer using Lexer.tokenize.induct
  case case1 lexer pulled notEnd ih =>
    rw [tokenize_of_not_isEnd notEnd]
    exact ih (invariant.lex start)
  case case2 lexer pulled isEnd =>
    rw [tokenize_of_isEnd ((Bool.not_eq_false _).mp isEnd)]
    exact invariant.lex start

theorem tokenizeStrict (invariant : Invariant holds) (start : holds lexer) :
    holds lexer.tokenizeStrict.lexer := by
  induction lexer using Lexer.tokenizeStrict.induct
  case case1 lexer pulled invalid =>
    rw [tokenizeStrict_of_isInvalid invalid]
    exact invariant.recordError _ _ (invariant.lex start)
  case case2 lexer pulled valid notEnd ih =>
    rw [tokenizeStrict_of_not_isEnd ((Bool.not_eq_true _).mp valid) notEnd]
    exact ih (invariant.lex start)
  case case3 lexer pulled valid isEnd =>
    rw [tokenizeStrict_of_isEnd ((Bool.not_eq_false _).mp isEnd)]
    exact invariant.lex start

theorem perform (invariant : Invariant holds) (command : Command) (start : holds lexer) :
    holds (lexer.perform command).lexer := by
  cases command with
  | scan => exact invariant.scan lexer start
  | lex => exact invariant.lex start
  | next => exact invariant.lex start
  | take count => exact invariant.take count start
  | collect =>
      rw [perform_collect]
      exact invariant.tokenize start
  | tokenize => exact invariant.tokenize start
  | tokenizeStrict => exact invariant.tokenizeStrict start
  | forceEnd => exact invariant.forceEnd lexer start
  | setAllowComments allowed => exact invariant.setAllowComments lexer allowed start
  | recordError message => exact invariant.recordError lexer message start
  | putResult result => exact invariant.putResult lexer result start
  | takeResult expected => exact invariant.takeResult lexer expected start
  | inspect => exact start

/-- An invariant that holds at the start of a session holds at its end. -/
theorem after (invariant : Invariant holds) (commands : List Command) (start : holds lexer) :
    holds (lexer.after commands) := by
  induction commands generalizing lexer with
  | nil => exact start
  | cons command commands ih => exact ih (invariant.perform command start)

theorem run (invariant : Invariant holds) (commands : List Command) (start : holds lexer) :
    ∀ reply ∈ lexer.run commands, holds reply.lexer := by
  induction commands generalizing lexer with
  | nil => simp [Lexer.run]
  | cons command commands ih =>
      have behind := invariant.perform command start
      rw [Lexer.run]
      exact List.forall_mem_cons.mpr ⟨behind, ih behind⟩

end Invariant

end SqlLexer.Lexer
