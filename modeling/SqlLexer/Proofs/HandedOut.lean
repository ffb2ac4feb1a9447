import SqlLexer.Proofs.Progress
import SqlLexer.Proofs.SessionStream
import SqlLexer.Proofs.StrictTokens

/-!
# What a call hands out

A grammar gets its tokens by `lex`, by itself or inside a longer pull.  Which tokens
a call hands out is fixed by the entries that are still to be shown: a longer pull
takes a beginning of them, through the end or through the first invalid one.  The
end is handed out as well where the answer leaves it out.
-/

namespace SqlLexer

/-- The tokens through the first invalid one. -/
def throughInvalid : List Token → List Token
  | [] => []
  | token :: tokens => if token.isInvalid then [token] else token :: throughInvalid tokens

namespace Command

/-- The tokens that a command hands out, of those that are left to be shown. -/
def handsOut (left : List Token) : Command → List Token
  | .lex | .next => left.take 1
  | .take count => left.take count
  | .collect | .tokenize => left
  | .tokenizeStrict => throughInvalid left
  | .scan | .forceEnd | .setAllowComments _ | .recordError _ | .putResult _ | .takeResult _
  | .inspect => []

/-- The answer of a command that handed out these tokens. -/
def answerOf (handed : List Token) : Command → Option Answer
  | .lex => handed.head?.map .token
  | .next => some (.nextToken (handed.find? fun token => !token.isEnd))
  | .take _ | .collect => some (.tokens (handed.filter fun token => !token.isEnd))
  | .tokenize => some (.tokens handed)
  | .tokenizeStrict =>
    match handed.find? Token.isInvalid with
    | some token => some (.failure (Lexer.invalidTokenError token))
    | none => some (.tokens handed)
  | .scan | .forceEnd | .setAllowComments _ | .recordError _ | .putResult _ | .takeResult _
  | .inspect => none

end Command

theorem throughInvalid_subset (tokens : List Token) : throughInvalid tokens ⊆ tokens := by
  induction tokens with
  | nil => exact List.Subset.refl _
  | cons token tokens ih =>
      rw [throughInvalid]
      split
      · exact List.cons_subset_cons token (List.nil_subset tokens)
      · exact List.cons_subset_cons token ih

theorem Command.handsOut_subset (command : Command) (left : List Token) :
    command.handsOut left ⊆ left := by
  cases command with
  | lex | next | take => exact List.take_subset _ _
  | collect | tokenize => exact List.Subset.refl _
  | tokenizeStrict => exact throughInvalid_subset left
  | scan | forceEnd | setAllowComments | recordError | putResult | takeResult | inspect =>
      exact List.nil_subset left

theorem find?_throughInvalid (tokens : List Token) :
    (throughInvalid tokens).find? Token.isInvalid = tokens.find? Token.isInvalid := by
  induction tokens with
  | nil => rfl
  | cons token tokens ih =>
      rw [throughInvalid]
      cases invalid : token.isInvalid with
      | true => simp [invalid]
      | false => simp [invalid, ih]

theorem throughInvalid_of_valid {tokens : List Token}
    (valid : tokens.find? Token.isInvalid = none) : throughInvalid tokens = tokens := by
  induction tokens with
  | nil => rfl
  | cons token tokens ih =>
      rw [List.find?_cons] at valid
      rw [throughInvalid]
      cases invalid : token.isInvalid with
      | true =>
          rw [invalid] at valid
          cases valid
      | false =>
          rw [invalid] at valid
          rw [ih valid]
          rfl

namespace Lexer

/-- The tokens from here to the end that are shown to a grammar. -/
def shownTokens (lexer : Lexer) : List Token :=
  lexer.shownEntries.map Entry.token

/-- The tokens that a call hands out. -/
def handedOut (lexer : Lexer) (command : Command) : List Token :=
  command.handsOut lexer.shownTokens

/-- The tokens that a session hands out, in order. -/
def handedOutBy (lexer : Lexer) : List Command → List Token
  | [] => []
  | command :: commands =>
    lexer.handedOut command ++ (lexer.perform command).lexer.handedOutBy commands

variable {lexer : Lexer}

theorem shownTokens_of_not_isEnd (notEnd : lexer.lex.answer.isEnd = false) :
    lexer.shownTokens = lexer.lex.answer :: lexer.lex.lexer.shownTokens := by
  rw [shownTokens, shownEntries_of_not_isEnd notEnd, List.map_cons]
  rfl

theorem shownTokens_of_isEnd (isEnd : lexer.lex.answer.isEnd = true) :
    lexer.shownTokens = [lexer.lex.answer] := by
  rw [shownTokens, shownEntries_of_isEnd isEnd]
  rfl

theorem take_one_shownTokens (lexer : Lexer) : lexer.shownTokens.take 1 = [lexer.lex.answer] := by
  cases isEnd : lexer.lex.answer.isEnd with
  | true => rw [shownTokens_of_isEnd isEnd, List.take_succ_cons, List.take_zero]
  | false => rw [shownTokens_of_not_isEnd isEnd, List.take_succ_cons, List.take_zero]

theorem dropLast_shownTokens (lexer : Lexer) :
    lexer.shownTokens.dropLast = lexer.shownTokens.filter fun token => !token.isEnd := by
  induction lexer using Lexer.tokenize.induct
  case case1 lexer pulled notEnd ih =>
    have shown : ¬lexer.lex.lexer.shownTokens = [] := by
      intro none
      have first := take_one_shownTokens lexer.lex.lexer
      rw [none] at first
      cases first
    have kept : (!lexer.lex.answer.isEnd) = true := congrArg (!·) notEnd
    rw [shownTokens_of_not_isEnd notEnd, List.dropLast_cons_of_ne_nil shown, List.filter_cons,
      if_pos kept]
    exact congrArg _ ih
  case case2 lexer pulled isEnd =>
    have isEnd := (Bool.not_eq_false _).mp isEnd
    rw [shownTokens_of_isEnd isEnd, List.filter_cons, show lexer.lex.answer.isEnd = true from isEnd]
    rfl

/-! ## Every longer pull is a number of single ones -/

theorem rounds_lex (lexer : Lexer) :
    Rounds pull lexer (lexer.shownTokens.take 1) lexer.lex.lexer := by
  rw [take_one_shownTokens]
  exact .more (.none _)

theorem rounds_take (lexer : Lexer) (count : Nat) :
    Rounds pull lexer (lexer.shownTokens.take count) (lexer.take count).lexer := by
  induction count generalizing lexer with
  | zero => exact .none lexer
  | succ count ih =>
      cases isEnd : lexer.lex.answer.isEnd with
      | true =>
          rw [take_succ_of_isEnd isEnd, shownTokens_of_isEnd isEnd, List.take_succ_cons,
            List.take_nil]
          exact .more (.none _)
      | false =>
          rw [take_succ_of_not_isEnd isEnd, shownTokens_of_not_isEnd isEnd, List.take_succ_cons]
          exact .more (ih lexer.lex.lexer)

theorem rounds_tokenize (lexer : Lexer) :
    Rounds pull lexer lexer.shownTokens lexer.tokenize.lexer := by
  induction lexer using Lexer.tokenize.induct
  case case1 lexer pulled notEnd ih =>
    rw [shownTokens_of_not_isEnd notEnd, tokenize_of_not_isEnd notEnd]
    exact .more ih
  case case2 lexer pulled isEnd =>
    have isEnd := (Bool.not_eq_false _).mp isEnd
    rw [shownTokens_of_isEnd isEnd, tokenize_of_isEnd isEnd]
    exact .more (.none _)

theorem rounds_tokenizeStrict (lexer : Lexer) :
    ∃ last, Rounds pull lexer (throughInvalid lexer.shownTokens) last ∧
      EndsStrictly lexer.tokenizeStrict (throughInvalid lexer.shownTokens) last := by
  induction lexer using Lexer.tokenizeStrict.induct
  case case1 lexer pulled invalid =>
    have invalid : lexer.lex.answer.isInvalid = true := invalid
    rw [shownTokens_of_not_isEnd (Token.isEnd_of_isInvalid invalid), throughInvalid, if_pos invalid,
      tokenizeStrict_of_isInvalid invalid]
    exact ⟨lexer.lex.lexer, .more (.none _), @EndsStrictly.invalid _ [] _ _ invalid rfl rfl⟩
  case case2 lexer pulled notInvalid notEnd ih =>
    obtain ⟨last, rounds, ends⟩ := ih
    rw [shownTokens_of_not_isEnd notEnd, throughInvalid, if_neg notInvalid,
      tokenizeStrict_of_not_isEnd ((Bool.not_eq_true _).mp notInvalid) notEnd]
    exact ⟨last, .more rounds, ends.cons _ _⟩
  case case3 lexer pulled notInvalid isEnd =>
    have isEnd := (Bool.not_eq_false _).mp isEnd
    rw [shownTokens_of_isEnd isEnd, throughInvalid, if_neg notInvalid,
      tokenizeStrict_of_isEnd isEnd]
    exact ⟨lexer.lex.lexer, .more (.none _), .valid rfl rfl⟩

/-! ## The answers show what is handed out -/

theorem answer_take (lexer : Lexer) (count : Nat) :
    (lexer.take count).answer =
      (lexer.shownTokens.take count).filter fun token => !token.isEnd := by
  induction count generalizing lexer with
  | zero => rfl
  | succ count ih =>
      cases isEnd : lexer.lex.answer.isEnd with
      | true =>
          rw [take_succ_of_isEnd isEnd, shownTokens_of_isEnd isEnd, List.take_succ_cons,
            List.take_nil, List.filter_cons, isEnd]
          rfl
      | false =>
          rw [take_succ_of_not_isEnd isEnd, shownTokens_of_not_isEnd isEnd, List.take_succ_cons,
            List.filter_cons, isEnd, ih lexer.lex.lexer]
          rfl

/-- Strict tokenizing answers with the first invalid token shown, and otherwise with all. -/
theorem answer_tokenizeStrict (lexer : Lexer) :
    lexer.tokenizeStrict.answer =
      match lexer.shownTokens.find? Token.isInvalid with
      | some token => .error (invalidTokenError token)
      | none => .ok lexer.shownTokens := by
  cases found : lexer.shownTokens.find? Token.isInvalid with
  | none =>
      have valid : ∀ token ∈ lexer.tokenize.answer, token.isInvalid = false := by
        rw [answer_tokenize_shown]
        intro token member
        exact (Bool.not_eq_true _).mp (List.find?_eq_none.mp found token member)
      rw [tokenizeStrict_of_valid valid, Reply.map, answer_tokenize_shown]
      rfl
  | some token =>
      rw [shownTokens, List.find?_map, Option.map_eq_some_iff] at found
      obtain ⟨entry, first, rfl⟩ := found
      obtain ⟨invalid, before, others, shown, valid⟩ := List.find?_eq_some_iff_append.mp first
      obtain ⟨_, stops⟩ := exists_stopsBehind shown
        (fun earlier member => by simpa using valid earlier member) invalid
      exact stops.answer_eq

/-- The answer of a call shows the tokens that it hands out, but for the end where
the answer is to leave it out. -/
theorem pulled?_perform_of_ne_scan {command : Command} (notScan : command ≠ .scan) :
    (lexer.perform command).answer.pulled? = command.answerOf (lexer.handedOut command) := by
  cases command with
  | scan => exact absurd rfl notScan
  | lex =>
      rw [handedOut, Command.handsOut, take_one_shownTokens]
      rfl
  | next =>
      rw [handedOut, Command.handsOut, take_one_shownTokens, Command.answerOf]
      simp only [perform, next, Reply.map, List.find?_cons, List.find?_nil]
      cases lexer.lex.answer.isEnd <;> rfl
  | take count =>
      simp only [perform, Reply.map, answer_take]
      rfl
  | collect =>
      simp only [perform_collect, Reply.map, answer_tokenize_shown]
      exact congrArg (some ∘ Answer.tokens) (dropLast_shownTokens lexer)
  | tokenize =>
      simp only [perform, Reply.map, answer_tokenize_shown]
      rfl
  | tokenizeStrict =>
      simp only [perform, Reply.map, answer_tokenizeStrict, Command.answerOf, handedOut,
        Command.handsOut, find?_throughInvalid]
      cases found : lexer.shownTokens.find? Token.isInvalid with
      | some token => rfl
      | none =>
          rw [throughInvalid_of_valid found]
          rfl
  | forceEnd | setAllowComments | recordError | putResult | takeResult | inspect => rfl

/-- No comment is handed out unless comments are allowed. -/
theorem allowComments_of_mem_handedOut {command : Command} {token : Token}
    (handed : token ∈ lexer.handedOut command) (isComment : token.kind = .comment) :
    lexer.config.allowComments = true := by
  obtain ⟨entry, shown, rfl⟩ := List.mem_map.mp (command.handsOut_subset _ handed)
  have visible := (List.mem_filter.mp shown).2
  simpa [shows, withholds, isComment, Kind.isSkippable] using visible

end Lexer

end SqlLexer
