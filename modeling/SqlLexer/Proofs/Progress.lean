import SqlLexer.Proofs.Tiling

/-!
# Every loop of the lexer comes to an end

A scan that finds a token moves the position forward, and the position never
passes the end of the input.  The unread bytes therefore bound the rounds of
every loop: the skipping of comments, and the pulls that go through to the end.
`Rounds` counts rounds without regard to how a loop is written, and
`RunsToEnd` says what the tokens of such a pull look like.
-/

namespace SqlLexer

/-- Rounds of a loop: each takes one token and goes on with the lexer that is left. -/
inductive Lexer.Rounds (pull : Lexer → Token × Lexer) : Lexer → List Token → Lexer → Prop where
  | none (lexer : Lexer) : Rounds pull lexer [] lexer
  | more {lexer last : Lexer} {tokens : List Token} :
      Rounds pull (pull lexer).2 tokens last →
      Rounds pull lexer ((pull lexer).1 :: tokens) last

/-- The tokens of a pull from one position through the end of the input at another. -/
structure RunsToEnd (tokens : List Token) (start stop : Nat) : Prop where
  length_le : tokens.length ≤ stop - start + 1
  end_last : ∃ proper final, tokens = proper ++ [final] ∧
    (∀ token ∈ proper, token.isEnd = false) ∧ final.isEnd = true ∧ final.offset = stop
  start_le : ∀ token ∈ tokens, start ≤ token.offset
  ascending : tokens.Pairwise (·.offset < ·.offset)

namespace RunsToEnd

theorem singleton {final : Token} {start stop : Nat} (isEnd : final.isEnd = true)
    (atStop : final.offset = stop) (inside : start ≤ stop) : RunsToEnd [final] start stop where
  length_le := Nat.le_add_left 1 _
  end_last := ⟨[], final, rfl, fun _ member => absurd member List.not_mem_nil, isEnd, atStop⟩
  start_le := by
    intro token member
    rw [List.mem_singleton.mp member, atStop]
    exact inside
  ascending := List.pairwise_singleton _ _

theorem cons {token : Token} {tokens : List Token} {start middle stop : Nat}
    (notEnd : token.isEnd = false) (start_le : start ≤ token.offset)
    (offset_lt : token.offset < middle) (middle_le : middle ≤ stop)
    (runs : RunsToEnd tokens middle stop) : RunsToEnd (token :: tokens) start stop where
  length_le := by
    have bound := runs.length_le
    rw [List.length_cons]
    omega
  end_last := by
    obtain ⟨proper, final, rfl, properNotEnd, finalIsEnd⟩ := runs.end_last
    refine ⟨token :: proper, final, rfl, ?_, finalIsEnd⟩
    intro other member
    rcases List.mem_cons.mp member with rfl | later
    · exact notEnd
    · exact properNotEnd other later
  start_le := by
    intro other member
    rcases List.mem_cons.mp member with rfl | later
    · exact start_le
    · have bound := runs.start_le other later
      omega
  ascending := by
    refine List.pairwise_cons.mpr ⟨?_, runs.ascending⟩
    intro other later
    exact Nat.lt_of_lt_of_le offset_lt (runs.start_le other later)

end RunsToEnd

namespace Lexer

/-- One pull: the token handed out, and the lexer behind it. -/
def pull (lexer : Lexer) : Token × Lexer :=
  (lexer.lex.answer, lexer.lex.lexer)

/-- The lexer stands in its input and is not stopped. -/
structure Advances (input : Bytes) (lexer : Lexer) : Prop where
  stands : lexer.StandsIn input
  running : lexer.isStopped = false

namespace Advances

variable {input : Bytes} {lexer : Lexer}

theorem scan (advances : lexer.Advances input) : lexer.scan.2.Advances input where
  stands := standsIn_scan advances.stands
  running := (isStopped_scan lexer).trans advances.running

theorem handOut (advances : lexer.Advances input) (token : Token) :
    (lexer.handOut token).lexer.Advances input :=
  ⟨advances.stands, advances.running⟩

theorem offset_between (advances : lexer.Advances input)
    (notEnd : lexer.scan.1.isEnd = false) :
    lexer.position ≤ lexer.scan.1.offset ∧ lexer.scan.1.offset < lexer.scan.2.position := by
  have tiles := tiles_scan advances.stands advances.running notEnd
  exact ⟨tiles.start_le, tiles.offset_lt⟩

theorem position_lt_scan (advances : lexer.Advances input)
    (notEnd : lexer.scan.1.isEnd = false) : lexer.position < lexer.scan.2.position := by
  obtain ⟨start_le, offset_lt⟩ := advances.offset_between notEnd
  exact Nat.lt_of_le_of_lt start_le offset_lt

end Advances

/-- The skip loop of a pull: some tokens are withheld one after the other, and
the scan behind them gives the token that is handed out. -/
structure Skips (lexer : Lexer) (skipped : List Token) (last : Lexer) : Prop where
  rounds : Rounds Lexer.scan lexer skipped last
  withheld : ∀ token ∈ skipped, lexer.withholds token = true
  visible : lexer.withholds last.scan.1 = false
  lex_eq : lexer.lex = last.scan.2.handOut last.scan.1

/-- How strict tokenizing ends after some rounds: with all tokens pulled, or
with an invalid one in the last round, which is recorded. -/
inductive EndsStrictly (reply : Reply (Except Error (List Token))) :
    List Token → Lexer → Prop where
  | valid {tokens : List Token} {last : Lexer} :
      reply.answer = .ok tokens → reply.lexer = last → EndsStrictly reply tokens last
  | invalid {before : List Token} {token : Token} {last : Lexer} :
      token.isInvalid = true → reply.answer = .error (invalidTokenError token) →
      reply.lexer = (last.recordError "invalid token").lexer →
      EndsStrictly reply (before ++ [token]) last

theorem EndsStrictly.cons {reply : Reply (Except Error (List Token))} {tokens : List Token}
    {last : Lexer} (ends : EndsStrictly reply tokens last) (token : Token)
    (log : List LogEntry) :
    EndsStrictly
      { answer := reply.answer.map (token :: ·), lexer := reply.lexer, log := log ++ reply.log }
      (token :: tokens) last := by
  cases ends with
  | valid answered reached =>
      refine .valid ?_ reached
      rw [answered]
      rfl
  | @invalid before found _ isInvalid answered reached =>
      refine @EndsStrictly.invalid _ (token :: before) _ _ isInvalid ?_ reached
      rw [answered]
      rfl

namespace Advances

variable {input : Bytes} {lexer : Lexer}

/-- Every token that is skipped takes a byte at least. -/
theorem exists_skips (advances : lexer.Advances input) :
    ∃ skipped last, lexer.Skips skipped last ∧ last.Advances input ∧
      lexer.position + skipped.length ≤ last.position := by
  induction lexer using Lexer.lex.induct
  case case1 lexer scanned withheld ih =>
    obtain ⟨skipped, last, skips, lastAdvances, bound⟩ := ih advances.scan
    have sameSettings (token : Token) : lexer.scan.2.withholds token = lexer.withholds token := by
      rw [withholds, withholds, config_scan]
    have forward := advances.position_lt_scan (isEnd_of_withholds withheld)
    refine ⟨lexer.scan.1 :: skipped, last, ?_, lastAdvances, ?_⟩
    · constructor
      · exact .more skips.rounds
      · intro token member
        rcases List.mem_cons.mp member with rfl | later
        · exact withheld
        · exact (sameSettings token).symm.trans (skips.withheld token later)
      · exact (sameSettings _).symm.trans skips.visible
      · exact (lex_of_withholds withheld).trans skips.lex_eq
    · rw [List.length_cons]
      simp only [scanned] at bound
      omega
  case case2 lexer scanned visible =>
    refine ⟨[], lexer, ?_, advances, Nat.le_refl _⟩
    constructor
    · exact .none lexer
    · exact fun _ member => absurd member List.not_mem_nil
    · exact (Bool.not_eq_true _).mp visible
    · exact lex_of_not_withholds visible

theorem lex (advances : lexer.Advances input) : lexer.lex.lexer.Advances input := by
  obtain ⟨_, last, skips, lastAdvances, _⟩ := advances.exists_skips
  rw [skips.lex_eq]
  exact lastAdvances.scan.handOut _

theorem lex_of_not_isEnd (advances : lexer.Advances input)
    (notEnd : lexer.lex.answer.isEnd = false) :
    lexer.position ≤ lexer.lex.answer.offset ∧
      lexer.lex.answer.offset < lexer.lex.lexer.position := by
  obtain ⟨_, last, skips, lastAdvances, bound⟩ := advances.exists_skips
  rw [skips.lex_eq] at notEnd ⊢
  obtain ⟨start_le, offset_lt⟩ := lastAdvances.offset_between notEnd
  exact ⟨Nat.le_trans (Nat.le_of_add_right_le bound) start_le, offset_lt⟩

theorem lex_of_isEnd (advances : lexer.Advances input) (isEnd : lexer.lex.answer.isEnd = true) :
    lexer.lex.answer.offset = input.length ∧ lexer.lex.lexer.position = input.length := by
  obtain ⟨_, last, skips, lastAdvances, _⟩ := advances.exists_skips
  rw [skips.lex_eq] at isEnd ⊢
  exact (allBlank_of_isEnd_scan lastAdvances.stands lastAdvances.running isEnd).2

theorem tokenize (advances : lexer.Advances input) :
    Rounds pull lexer lexer.tokenize.answer lexer.tokenize.lexer ∧
      RunsToEnd lexer.tokenize.answer lexer.position input.length ∧
      lexer.tokenize.lexer.position = input.length := by
  induction lexer using Lexer.tokenize.induct
  case case1 lexer pulled notEnd ih =>
    obtain ⟨rounds, runs, atEnd⟩ := ih advances.lex
    obtain ⟨start_le, offset_lt⟩ := advances.lex_of_not_isEnd notEnd
    rw [tokenize_of_not_isEnd notEnd]
    exact ⟨.more rounds, runs.cons notEnd start_le offset_lt advances.lex.stands.position_le, atEnd⟩
  case case2 lexer pulled isEnd =>
    have isEnd := (Bool.not_eq_false _).mp isEnd
    obtain ⟨offset_eq, atEnd⟩ := advances.lex_of_isEnd isEnd
    rw [tokenize_of_isEnd isEnd]
    exact ⟨.more (.none _), .singleton isEnd offset_eq advances.stands.position_le, atEnd⟩

theorem tokenizeStrict (advances : lexer.Advances input) :
    ∃ tokens last, Rounds pull lexer tokens last ∧
      tokens.length ≤ input.length - lexer.position + 1 ∧
      EndsStrictly lexer.tokenizeStrict tokens last := by
  induction lexer using Lexer.tokenizeStrict.induct
  case case1 lexer pulled invalid =>
    rw [tokenizeStrict_of_isInvalid invalid]
    exact ⟨[lexer.lex.answer], lexer.lex.lexer, .more (.none _), Nat.le_add_left 1 _,
      @EndsStrictly.invalid _ [] _ _ invalid rfl rfl⟩
  case case2 lexer pulled valid notEnd ih =>
    obtain ⟨tokens, last, rounds, bound, ends⟩ := ih advances.lex
    obtain ⟨start_le, offset_lt⟩ := advances.lex_of_not_isEnd notEnd
    have inside := advances.lex.stands.position_le
    rw [tokenizeStrict_of_not_isEnd ((Bool.not_eq_true _).mp valid) notEnd]
    refine ⟨lexer.lex.answer :: tokens, last, .more rounds, ?_, ends.cons _ _⟩
    simp only [pulled] at bound
    rw [List.length_cons]
    omega
  case case3 lexer pulled valid isEnd =>
    rw [tokenizeStrict_of_isEnd ((Bool.not_eq_false _).mp isEnd)]
    exact ⟨[lexer.lex.answer], lexer.lex.lexer, .more (.none _), Nat.le_add_left 1 _,
      .valid rfl rfl⟩

end Advances

end Lexer

/-- From every state that a session can reach, unless it is stopped, the
position moves on with every token, and all loops end: the skip loop of a pull,
and the pulls through to the end of the input.  These give a token in each round,
in ascending order, the end once and last. -/
theorem pulls_reach_end (input : Bytes) (config : Config) (commands : List Command)
    (running : ((Lexer.start input config).after commands).isStopped = false) :
    let lexer := (Lexer.start input config).after commands
    let left := input.length - lexer.position
    (lexer.scan.1.isEnd = false → lexer.position < lexer.scan.2.position) ∧
      (∃ skipped last, lexer.Skips skipped last ∧ skipped.length ≤ left) ∧
      (Lexer.Rounds Lexer.pull lexer lexer.tokenize.answer lexer.tokenize.lexer ∧
        RunsToEnd lexer.tokenize.answer lexer.position input.length ∧
        lexer.tokenize.lexer.position = input.length) ∧
      (lexer.collect.answer.length ≤ left ∧ lexer.collect.lexer = lexer.tokenize.lexer) ∧
      ∃ tokens last, Lexer.Rounds Lexer.pull lexer tokens last ∧ tokens.length ≤ left + 1 ∧
        Lexer.EndsStrictly lexer.tokenizeStrict tokens last := by
  intro lexer left
  have stands : lexer.StandsIn input :=
    (Lexer.invariant_standsIn input).after commands (Lexer.standsIn_start input config)
  have advances : lexer.Advances input := ⟨stands, running⟩
  obtain ⟨skipped, last, skips, lastAdvances, bound⟩ := advances.exists_skips
  have tokenized := advances.tokenize
  refine ⟨advances.position_lt_scan, ⟨skipped, last, skips, ?_⟩, tokenized,
    ⟨?_, congrArg (·.lexer) lexer.collect_eq⟩, advances.tokenizeStrict⟩
  · have inside := lastAdvances.stands.position_le
    omega
  · have collected : lexer.collect.answer.length = lexer.tokenize.answer.length - 1 := by
      rw [Lexer.collect_eq]
      exact List.length_dropLast
    have atMost := tokenized.2.1.length_le
    omega

/-- From behind the first token, over a comment, two errors and trailing blanks. -/
theorem pulls_reach_end_over_comment :
    let input := ascii "? /* ? */ 08 ! ; "
    let lexer := (Lexer.start input .default).after [.scan, .recordError "near"]
    lexer.isStopped = false ∧ lexer.tokenize.answer.length = 4 ∧
      RunsToEnd lexer.tokenize.answer lexer.position input.length ∧
      lexer.tokenize.lexer.position = input.length := by
  intro input lexer
  have running : lexer.isStopped = false := by decide
  have reached := (pulls_reach_end input .default [.scan, .recordError "near"] running).2.2.1
  exact ⟨running, by decide +kernel, reached.2⟩

end SqlLexer
