import SqlLexer.Proofs.SessionStream
import SqlLexer.Proofs.Tiling

/-!
# The end is final

Once a pull has met the end, or the lexer was told to stop, no later call gives
anything else, and none moves the lexer any more.  The two ends differ in where
they stand: behind the whole input, or at the position of the call that forced
it.  What follows is the same for both, since `IsExhausted` is all that a scan
asks for and every call keeps it.
-/

namespace SqlLexer

/-- The tokens that an answer holds. -/
def Answer.heldTokens : Answer → List Token
  | .token held => [held]
  | .nextToken held => held.toList
  | .tokens held => held
  | .failure _ | .result _ | .nothing => []

namespace Command

/-- The answer shows that the pull met the end: it holds the end, or fewer
tokens than were asked for. -/
def meetsEnd : Command → Answer → Bool
  | .scan, .token token | .lex, .token token => token.isEnd
  | .next, .nextToken token => token.isNone
  | .take count, .tokens tokens => tokens.length < count
  | .collect, .tokens _ => true
  | .tokenize, .tokens tokens | .tokenizeStrict, .tokens tokens => tokens.any Token.isEnd
  | _, _ => false

/-- What a command pulls where nothing is left but the end at this position. -/
def pulledAtEnd (place : Nat) : Command → Option Answer
  | .scan | .lex => some (.token (Token.bare .endOfInput place))
  | .next => some (.nextToken none)
  | .take _ | .collect => some (.tokens [])
  | .tokenize | .tokenizeStrict => some (.tokens [Token.bare .endOfInput place])
  | .forceEnd | .setAllowComments _ | .recordError _ | .putResult _ | .takeResult _ | .inspect =>
    none

/-- What a caller sees of a command there. -/
def observedAtEnd (place placeholders : Nat) (command : Command) : Observation :=
  { pulled := command.pulledAtEnd place, position := place, placeholders }

end Command

namespace Lexer

variable {lexer : Lexer}

/-- Nothing is left to read: the lexer was stopped, or its input is used up. -/
def IsExhausted (lexer : Lexer) : Prop :=
  lexer.isStopped = true ∨ lexer.cursor.rest = []

/-! ## What an exhausted lexer gives -/

namespace IsExhausted

theorem scan_eq (exhausted : lexer.IsExhausted) :
    lexer.scan = (Token.bare .endOfInput lexer.position, lexer) := by
  cases running : lexer.isStopped with
  | true => exact scan_stopped running
  | false =>
      have used : lexer.cursor.rest = [] := by
        rcases exhausted with stopped | used
        · rw [running] at stopped
          cases stopped
        · exact used
      have settled := Cursor.skipBlanks_of_rest_nil used
      rw [scan_end running (by rw [settled, used]), settled]
      rfl

theorem lex_eq (exhausted : lexer.IsExhausted) :
    lexer.lex = lexer.handOut (Token.bare .endOfInput lexer.position) := by
  have visible : ¬lexer.withholds lexer.scan.1 = true := by
    rw [exhausted.scan_eq]
    exact Bool.false_ne_true
  rw [lex_of_not_withholds visible, exhausted.scan_eq]

theorem isEnd_lex (exhausted : lexer.IsExhausted) : lexer.lex.answer.isEnd = true := by
  rw [exhausted.lex_eq]
  rfl

theorem tokenize_eq (exhausted : lexer.IsExhausted) :
    lexer.tokenize.answer = [Token.bare .endOfInput lexer.position] := by
  rw [tokenize_of_isEnd exhausted.isEnd_lex, exhausted.lex_eq]
  rfl

theorem tokenizeStrict_eq (exhausted : lexer.IsExhausted) :
    lexer.tokenizeStrict.answer = .ok [Token.bare .endOfInput lexer.position] := by
  rw [tokenizeStrict_of_isEnd exhausted.isEnd_lex, exhausted.lex_eq]
  rfl

theorem take_eq (exhausted : lexer.IsExhausted) (count : Nat) :
    (lexer.take count).answer = [] := by
  cases count with
  | zero => rfl
  | succ count =>
      rw [take_succ_of_isEnd exhausted.isEnd_lex]
      rfl

theorem pulled?_perform (exhausted : lexer.IsExhausted) (command : Command) :
    (lexer.perform command).answer.pulled? = command.pulledAtEnd lexer.position := by
  cases command with
  | scan =>
      simp only [perform, exhausted.scan_eq]
      rfl
  | lex =>
      simp only [perform, exhausted.lex_eq]
      rfl
  | next =>
      simp only [perform, next, exhausted.lex_eq]
      rfl
  | take count =>
      simp only [perform, Reply.map, exhausted.take_eq]
      rfl
  | collect =>
      simp only [perform_collect, Reply.map, exhausted.tokenize_eq]
      rfl
  | tokenize =>
      simp only [perform, Reply.map, exhausted.tokenize_eq]
      rfl
  | tokenizeStrict =>
      simp only [perform, Reply.map, exhausted.tokenizeStrict_eq]
      rfl
  | forceEnd | setAllowComments | recordError | putResult | takeResult | inspect => rfl

end IsExhausted

/-- The lexer rests: nothing is left to read, and the cursor and the counter are these. -/
structure RestsAt (cursor : Cursor) (placeholders : Nat) (lexer : Lexer) : Prop where
  exhausted : lexer.IsExhausted
  cursor_eq : lexer.cursor = cursor
  placeholders_eq : lexer.placeholders = placeholders

theorem IsExhausted.restsAt (exhausted : lexer.IsExhausted) :
    lexer.RestsAt lexer.cursor lexer.placeholders :=
  ⟨exhausted, rfl, rfl⟩

/-- No call wakes a lexer that rests. -/
theorem invariant_restsAt (cursor : Cursor) (placeholders : Nat) :
    Invariant (RestsAt cursor placeholders) where
  scan _ rests := by
    rw [rests.exhausted.scan_eq]
    exact rests
  handOut _ _ rests := ⟨rests.exhausted, rests.cursor_eq, rests.placeholders_eq⟩
  forceEnd _ rests := ⟨.inl rfl, rests.cursor_eq, rests.placeholders_eq⟩
  setAllowComments _ _ rests := ⟨rests.exhausted, rests.cursor_eq, rests.placeholders_eq⟩
  recordError _ _ rests := ⟨rests.exhausted, rests.cursor_eq, rests.placeholders_eq⟩
  putResult _ _ rests := ⟨rests.exhausted, rests.cursor_eq, rests.placeholders_eq⟩
  takeResult lexer expected rests := by
    obtain ⟨result, taken⟩ := lexer.takeResult_eq expected
    rw [taken]
    exact ⟨rests.exhausted, rests.cursor_eq, rests.placeholders_eq⟩

theorem invariant_isStopped : Invariant (·.isStopped = true) where
  scan lexer stopped := (isStopped_scan lexer).trans stopped
  handOut _ _ stopped := stopped
  forceEnd _ _ := rfl
  setAllowComments _ _ stopped := stopped
  recordError _ _ stopped := stopped
  putResult _ _ stopped := stopped
  takeResult lexer expected stopped := by
    obtain ⟨result, taken⟩ := lexer.takeResult_eq expected
    rw [taken]
    exact stopped

theorem RestsAt.observe_run {cursor : Cursor} {placeholders : Nat}
    (rests : lexer.RestsAt cursor placeholders) (commands : List Command) :
    (lexer.run commands).map Reply.observe =
      commands.map (Command.observedAtEnd cursor.position placeholders) := by
  induction commands generalizing lexer with
  | nil => rfl
  | cons command commands ih =>
      have behind := (invariant_restsAt cursor placeholders).perform command rests
      have pulled := rests.exhausted.pulled?_perform command
      rw [position, rests.cursor_eq] at pulled
      rw [run, List.map_cons, ih behind, Reply.observe, pulled, position, behind.cursor_eq,
        behind.placeholders_eq]
      rfl

/-! ## When the end is met -/

/-- What a pull leaves behind that met the end: nothing to read, and among the
tokens given at most the end that stands there. -/
structure ShowsEnd (tokens : List Token) (lexer : Lexer) : Prop where
  exhausted : lexer.IsExhausted
  end_eq : ∀ token ∈ tokens, token.isEnd = true → token = Token.bare .endOfInput lexer.position

namespace ShowsEnd

variable {tokens : List Token}

theorem cons {token : Token} (notEnd : token.isEnd = false) (shows : ShowsEnd tokens lexer) :
    ShowsEnd (token :: tokens) lexer where
  exhausted := shows.exhausted
  end_eq := by
    intro other member isEnd
    rcases List.mem_cons.mp member with rfl | later
    · rw [notEnd] at isEnd
      cases isEnd
    · exact shows.end_eq other later isEnd

theorem subset {fewer : List Token} (shows : ShowsEnd tokens lexer) (among : fewer ⊆ tokens) :
    ShowsEnd fewer lexer :=
  ⟨shows.exhausted, fun token member => shows.end_eq token (among member)⟩

end ShowsEnd

theorem showsEnd_scan (isEnd : lexer.scan.1.isEnd = true) :
    ShowsEnd [lexer.scan.1] lexer.scan.2 := by
  suffices lexer.scan.2.IsExhausted by
    have again := this.scan_eq
    rw [scan_scan_of_isEnd isEnd] at again
    refine ⟨this, ?_⟩
    intro token member _
    rw [List.mem_singleton.mp member, again]
  cases running : lexer.isStopped with
  | true =>
      rw [scan_stopped running]
      exact .inl running
  | false =>
      cases front : lexer.cursor.skipBlanks.rest with
      | nil =>
          rw [scan_end running front]
          exact .inr front
      | cons first rest =>
          have notEnd := (Lexeme.takesInput_ofFront first rest).kind_ne
          rw [scan_front running front] at isEnd
          simp [Token.isEnd, Lexeme.toToken, notEnd] at isEnd

theorem showsEnd_lex (isEnd : lexer.lex.answer.isEnd = true) :
    ShowsEnd [lexer.lex.answer] lexer.lex.lexer := by
  induction lexer using Lexer.lex.induct
  case case1 lexer scanned withheld ih =>
    rw [lex_of_withholds withheld] at isEnd ⊢
    exact ih isEnd
  case case2 lexer scanned visible =>
    rw [lex_of_not_withholds visible] at isEnd ⊢
    have shows := showsEnd_scan isEnd
    exact ⟨shows.exhausted, shows.end_eq⟩

theorem showsEnd_take {count : Nat} (short : (lexer.take count).answer.length < count) :
    ShowsEnd (lexer.take count).answer (lexer.take count).lexer := by
  induction count generalizing lexer with
  | zero => exact absurd short (Nat.not_lt_zero _)
  | succ count ih =>
      cases isEnd : lexer.lex.answer.isEnd with
      | true =>
          rw [take_succ_of_isEnd isEnd]
          exact (showsEnd_lex isEnd).subset (List.nil_subset _)
      | false =>
          rw [take_succ_of_not_isEnd isEnd] at short ⊢
          exact (ih (Nat.lt_of_succ_lt_succ short)).cons isEnd

theorem showsEnd_tokenize (lexer : Lexer) :
    ShowsEnd lexer.tokenize.answer lexer.tokenize.lexer := by
  induction lexer using Lexer.tokenize.induct
  case case1 lexer pulled notEnd ih =>
    rw [tokenize_of_not_isEnd notEnd]
    exact ih.cons notEnd
  case case2 lexer pulled isEnd =>
    have isEnd := (Bool.not_eq_false _).mp isEnd
    rw [tokenize_of_isEnd isEnd]
    exact showsEnd_lex isEnd

theorem showsEnd_tokenizeStrict {tokens : List Token}
    (valid : lexer.tokenizeStrict.answer = .ok tokens) :
    ShowsEnd tokens lexer.tokenizeStrict.lexer := by
  induction lexer using Lexer.tokenizeStrict.induct generalizing tokens
  case case1 lexer pulled invalid =>
    rw [tokenizeStrict_of_isInvalid invalid] at valid
    cases valid
  case case2 lexer pulled notInvalid notEnd ih =>
    rw [tokenizeStrict_of_not_isEnd ((Bool.not_eq_true _).mp notInvalid) notEnd] at valid ⊢
    cases others : lexer.lex.lexer.tokenizeStrict.answer with
    | error cause =>
        simp only [others] at valid
        cases valid
    | ok rest =>
        simp only [others] at valid
        cases valid
        exact (ih others).cons notEnd
  case case3 lexer pulled notInvalid isEnd =>
    have isEnd := (Bool.not_eq_false _).mp isEnd
    rw [tokenizeStrict_of_isEnd isEnd] at valid ⊢
    cases valid
    exact showsEnd_lex isEnd

/-- A pull whose answer shows the end leaves nothing to read. -/
theorem showsEnd_perform {command : Command}
    (meets : command.meetsEnd (lexer.perform command).answer = true) :
    ShowsEnd (lexer.perform command).answer.heldTokens (lexer.perform command).lexer := by
  cases command with
  | scan => exact showsEnd_scan meets
  | lex => exact showsEnd_lex meets
  | next =>
      cases isEnd : lexer.lex.answer.isEnd with
      | true =>
          simp only [perform, next, Reply.map, isEnd, if_true]
          exact (showsEnd_lex isEnd).subset (List.nil_subset _)
      | false =>
          simp only [perform, next, Reply.map, isEnd, Bool.false_eq_true, if_false] at meets
          cases meets
  | take count => exact showsEnd_take (of_decide_eq_true meets)
  | collect =>
      rw [perform_collect]
      exact (showsEnd_tokenize lexer).subset (List.dropLast_subset _)
  | tokenize => exact showsEnd_tokenize lexer
  | tokenizeStrict =>
      cases answer : lexer.tokenizeStrict.answer with
      | ok tokens =>
          have held : (lexer.perform .tokenizeStrict).answer.heldTokens = tokens := by
            simp only [perform, Reply.map, answer]
            rfl
          rw [held]
          exact showsEnd_tokenizeStrict answer
      | error cause =>
          simp only [perform, Reply.map, answer] at meets
          cases meets
  | forceEnd | setAllowComments | recordError | putResult | takeResult | inspect => cases meets

theorem run_append (lexer : Lexer) (first second : List Command) :
    lexer.run (first ++ second) = lexer.run first ++ (lexer.after first).run second := by
  induction first generalizing lexer with
  | nil => rfl
  | cons command first ih =>
      rw [List.cons_append, run, run, ih, List.cons_append]
      rfl

theorem after_append (lexer : Lexer) (first second : List Command) :
    lexer.after (first ++ second) = (lexer.after first).after second :=
  List.foldl_append

/-- An end that nothing forced stands behind the whole input. -/
theorem IsExhausted.position_eq {input : Bytes} (exhausted : lexer.IsExhausted)
    (stands : lexer.StandsIn input) (running : lexer.isStopped = false) :
    lexer.position = input.length := by
  obtain ⟨read, whole, reached⟩ := stands
  rcases exhausted with stopped | used
  · rw [running] at stopped
    cases stopped
  · rw [whole, used, List.append_nil, reached]

end Lexer

/-- The end is final, in every session.  A pull that meets it leaves a lexer that
gives nothing but the end at that same place, whatever the later calls are; and
neither the position nor the number of placeholders changes again.  A forced end
stands at the position of the call that forced it.  Nothing is read from there
on, and no call takes the stop mark away.  The replies before that call are
those of the session without it. -/
theorem end_is_final (input : Bytes) (config : Config) (before later : List Command) :
    let session := Lexer.start input config
    let lexer := session.after before
    let forced := lexer.forceEnd.lexer
    (∀ command, command.meetsEnd (lexer.perform command).answer = true →
      let reply := lexer.perform command
      let place := reply.lexer.position
      (∀ token ∈ reply.answer.heldTokens, token.isEnd = true →
          token = Token.bare .endOfInput place) ∧
        (reply.lexer.isStopped = false → place = input.length) ∧
        (reply.lexer.run later).map Reply.observe =
          later.map (Command.observedAtEnd place reply.lexer.placeholders)) ∧
    ((forced.run later).map Reply.observe =
        later.map (Command.observedAtEnd lexer.position lexer.placeholders) ∧
      ∀ reply ∈ forced.run later,
        reply.lexer.isStopped = true ∧ reply.lexer.cursor = lexer.cursor) ∧
    session.run (before ++ .forceEnd :: later) =
        session.run before ++ lexer.perform .forceEnd :: forced.run later ∧
      session.run (before ++ later) = session.run before ++ lexer.run later := by
  intro session lexer forced
  refine ⟨?_, ?_, Lexer.run_append _ _ _, Lexer.run_append _ _ _⟩
  · intro command meets reply place
    have shows : Lexer.ShowsEnd reply.answer.heldTokens reply.lexer :=
      Lexer.showsEnd_perform meets
    have invariant := Lexer.invariant_standsIn input
    have stands : reply.lexer.StandsIn input :=
      invariant.perform command (invariant.after before (Lexer.standsIn_start input config))
    exact ⟨shows.end_eq, shows.exhausted.position_eq stands,
      shows.exhausted.restsAt.observe_run later⟩
  · have rests : forced.RestsAt lexer.cursor lexer.placeholders := ⟨.inl rfl, rfl, rfl⟩
    refine ⟨rests.observe_run later, ?_⟩
    intro reply member
    have stopped := Lexer.invariant_isStopped.run later rfl reply member
    have stays := (Lexer.invariant_restsAt _ _).run later rests reply member
    exact ⟨stopped, stays.cursor_eq⟩

/-- A pull skips the last comment and meets the end.  The comment stays skipped
when comments are allowed later, and forcing the end moves nothing. -/
theorem end_is_final_behind_comment :
    let input := ascii "1 ? -- b"
    let before : List Command := [.lex, .next]
    let later : List Command :=
      [.setAllowComments true, .lex, .recordError "near", .take 2, .forceEnd, .tokenize, .collect]
    let lexer := (Lexer.start input .default).after before
    let reply := lexer.perform .next
    Command.meetsEnd .next reply.answer = true ∧
      reply.lexer.position = input.length ∧
      (reply.lexer.run later).map Reply.observe =
        later.map (Command.observedAtEnd input.length 1) := by
  intro input before later lexer reply
  have meets : Command.meetsEnd .next reply.answer = true := by decide +kernel
  have running : reply.lexer.isStopped = false := by decide +kernel
  have counted : reply.lexer.placeholders = 1 := by decide +kernel
  obtain ⟨_, atEnd, observed⟩ := (end_is_final input .default before later).1 .next meets
  rw [atEnd running, counted] at observed
  exact ⟨meets, atEnd running, observed⟩

end SqlLexer
