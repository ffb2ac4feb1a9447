import SqlLexer.Proofs.Diagnostics
import SqlLexer.Proofs.FinalEnd
import SqlLexer.Proofs.Lockstep

/-!
# The log tells the session

What the lexer logs is a second output beside the answers.  `Lexer.journal` says which
lines a session has to leave, told from the tokens that it hands out, the messages that
it records and the first call that forces the end.  The log is exactly that.  Tracing
adds its lines and touches nothing else, because a lexer that traces and one that does
not stay in lockstep.
-/

namespace SqlLexer

/-- The line of an entry: its level and its text. -/
def LogEntry.line (entry : LogEntry) : LogLevel × String :=
  (entry.level, entry.message)

/-- The line about a token that is handed out.  A valid one has a line only while tokens
are traced. -/
def Token.lines (traced : Bool) (token : Token) : List (LogLevel × String) :=
  if token.isInvalid then
    [(.debug, s!"lexical error at position {token.offset + 1}: '{token.text}'")]
  else if traced then [(.trace, s!"token {token.display}")]
  else []

/-- The message that a call recorded. -/
def Command.recorded? (command : Command) (reply : Reply Answer) : Option String :=
  (command.complaint? reply.answer).bind fun _ => reply.lexer.lastError

/-- The same lexer with tracing turned off. -/
def Lexer.withoutTracing (lexer : Lexer) : Lexer :=
  { lexer with config := { lexer.config with traceTokens := false } }

/-- The entry is there whether tokens are traced or not. -/
def LogEntry.isNoTrace (entry : LogEntry) : Bool :=
  entry.level != .trace

/-- The same reply but for tracing: it is turned off, and what it logged is left out. -/
def Reply.withoutTraces {α : Type} (reply : Reply α) : Reply α :=
  { answer := reply.answer
    lexer := reply.lexer.withoutTracing
    log := reply.log.filter LogEntry.isNoTrace }

namespace Lexer

/-- The lines of a command that comes after these others in a session. -/
def linesOf (session : Lexer) (earlier : List Command) (command : Command) :
    List (LogLevel × String) :=
  let lexer := session.after earlier
  let told := (lexer.handedOut command).flatMap (Token.lines session.config.traceTokens)
  let recorded := (command.recorded? (lexer.perform command)).toList.map (LogLevel.debug, ·)
  let forced :=
    if command = .forceEnd ∧ .forceEnd ∉ earlier then
      [(LogLevel.debug, s!"force EOF at position {lexer.position}")]
    else []
  told ++ recorded ++ forced

/-- The lines of a session, given the commands before these. -/
def journal (session : Lexer) (earlier : List Command) :
    List Command → List (LogLevel × String)
  | [] => []
  | command :: later =>
    session.linesOf earlier command ++ session.journal (earlier ++ [command]) later

variable {lexer : Lexer}

/-! ## What one call logs -/

theorem config_lex (lexer : Lexer) : lexer.lex.lexer.config = lexer.config := by
  induction lexer using Lexer.lex.induct
  case case1 lexer scanned withheld ih =>
    rw [lex_of_withholds withheld]
    exact ih.trans (config_scan lexer)
  case case2 lexer scanned visible =>
    rw [lex_of_not_withholds visible]
    exact config_scan lexer

/-- A pull reports what it hands out, whatever it skips. -/
theorem log_lex (lexer : Lexer) : lexer.lex.log = report lexer.config lexer.lex.answer := by
  induction lexer using Lexer.lex.induct
  case case1 lexer scanned withheld ih =>
    rw [config_scan] at ih
    rw [lex_of_withholds withheld]
    exact ih
  case case2 lexer scanned visible =>
    rw [lex_of_not_withholds visible, handOut, config_scan]

theorem log_take (lexer : Lexer) (count : Nat) :
    (lexer.take count).log = (lexer.shownTokens.take count).flatMap (report lexer.config) := by
  induction count generalizing lexer with
  | zero => rfl
  | succ count ih =>
      cases isEnd : lexer.lex.answer.isEnd with
      | true =>
          rw [take_succ_of_isEnd isEnd, shownTokens_of_isEnd isEnd, List.take_succ_cons,
            List.take_nil, List.flatMap_singleton]
          exact log_lex lexer
      | false =>
          rw [take_succ_of_not_isEnd isEnd, shownTokens_of_not_isEnd isEnd, List.take_succ_cons,
            List.flatMap_cons, ih, log_lex, config_lex]

theorem log_tokenize (lexer : Lexer) :
    lexer.tokenize.log = lexer.shownTokens.flatMap (report lexer.config) := by
  induction lexer using Lexer.tokenize.induct
  case case1 lexer pulled notEnd ih =>
    have others : lexer.lex.lexer.tokenize.log =
        lexer.lex.lexer.shownTokens.flatMap (report lexer.config) := by
      rw [← config_lex lexer]
      exact ih
    rw [tokenize_of_not_isEnd notEnd, shownTokens_of_not_isEnd notEnd, List.flatMap_cons, others,
      log_lex]
  case case2 lexer pulled isEnd =>
    have isEnd := (Bool.not_eq_false _).mp isEnd
    rw [tokenize_of_isEnd isEnd, shownTokens_of_isEnd isEnd, List.flatMap_singleton]
    exact log_lex lexer

theorem recorded?_tokenizeStrict_of_not_isEnd (valid : lexer.lex.answer.isInvalid = false)
    (notEnd : lexer.lex.answer.isEnd = false) :
    Command.tokenizeStrict.recorded? (lexer.perform .tokenizeStrict) =
      Command.tokenizeStrict.recorded? (lexer.lex.lexer.perform .tokenizeStrict) := by
  simp only [perform, tokenizeStrict_of_not_isEnd valid notEnd, Reply.map, Command.recorded?]
  cases lexer.lex.lexer.tokenizeStrict.answer with
  | ok tokens => rfl
  | error cause => rfl

/-- The message of strict tokenizing that fails comes behind the line of the token. -/
theorem log_tokenizeStrict (lexer : Lexer) :
    lexer.tokenizeStrict.log =
      (throughInvalid lexer.shownTokens).flatMap (report lexer.config) ++
        (Command.tokenizeStrict.recorded? (lexer.perform .tokenizeStrict)).toList.map
          .recordedError := by
  induction lexer using Lexer.tokenizeStrict.induct
  case case1 lexer pulled invalid =>
    have invalid : lexer.lex.answer.isInvalid = true := invalid
    rw [shownTokens_of_not_isEnd (Token.isEnd_of_isInvalid invalid), throughInvalid, if_pos invalid,
      List.flatMap_singleton, perform, tokenizeStrict_of_isInvalid invalid, ← log_lex]
    rfl
  case case2 lexer pulled notInvalid notEnd ih =>
    have valid : lexer.lex.answer.isInvalid = false := (Bool.not_eq_true _).mp notInvalid
    have others : lexer.lex.lexer.tokenizeStrict.log =
        (throughInvalid lexer.lex.lexer.shownTokens).flatMap (report lexer.config) ++
          (Command.tokenizeStrict.recorded? (lexer.perform .tokenizeStrict)).toList.map
            .recordedError := by
      rw [← config_lex lexer, recorded?_tokenizeStrict_of_not_isEnd valid notEnd]
      exact ih
    rw [shownTokens_of_not_isEnd notEnd, throughInvalid, if_neg notInvalid, List.flatMap_cons,
      tokenizeStrict_of_not_isEnd valid notEnd, List.append_assoc, ← others, log_lex]
  case case3 lexer pulled notInvalid isEnd =>
    have isEnd := (Bool.not_eq_false _).mp isEnd
    rw [shownTokens_of_isEnd isEnd, throughInvalid, if_neg notInvalid, throughInvalid,
      List.flatMap_singleton, perform, tokenizeStrict_of_isEnd isEnd, ← log_lex]
    exact (List.append_nil _).symm

/-- A call logs the tokens that it hands out, then a message that it records, and the
end if it is the first to force it. -/
theorem log_perform (lexer : Lexer) (command : Command) :
    (lexer.perform command).log =
      (lexer.handedOut command).flatMap (report lexer.config) ++
        (command.recorded? (lexer.perform command)).toList.map .recordedError ++
          if command = .forceEnd ∧ lexer.isStopped = false then [.forcedEnd lexer.position]
          else [] := by
  cases command with
  | forceEnd =>
      simp only [perform, forceEnd, Reply.map, true_and]
      cases lexer.isStopped <;> rfl
  | lex | next =>
      rw [handedOut, Command.handsOut, take_one_shownTokens, List.flatMap_singleton, ← log_lex]
      exact ((List.append_nil _).trans (List.append_nil _)).symm
  | take count =>
      rw [handedOut, Command.handsOut, ← log_take]
      exact ((List.append_nil _).trans (List.append_nil _)).symm
  | collect =>
      rw [perform_collect, handedOut, Command.handsOut, ← log_tokenize]
      exact ((List.append_nil _).trans (List.append_nil _)).symm
  | tokenize =>
      rw [handedOut, Command.handsOut, ← log_tokenize]
      exact ((List.append_nil _).trans (List.append_nil _)).symm
  | tokenizeStrict =>
      rw [handedOut, Command.handsOut, ← log_tokenizeStrict]
      exact (List.append_nil _).symm
  | scan | setAllowComments | recordError | putResult | takeResult | inspect => rfl

/-! ## What a session logs -/

theorem invariant_traceTokens (traced : Bool) :
    Invariant (·.config.traceTokens = traced) where
  scan lexer same := by
    rw [config_scan]
    exact same
  handOut _ _ same := same
  forceEnd _ same := same
  setAllowComments _ _ same := same
  recordError _ _ same := same
  putResult _ _ same := same
  takeResult lexer expected same := by
    obtain ⟨result, taken⟩ := lexer.takeResult_eq expected
    rw [taken]
    exact same

/-- A session is stopped from the first call on that forces the end. -/
theorem isStopped_after_start (input : Bytes) (config : Config) (commands : List Command) :
    ((start input config).after commands).isStopped = false ↔ .forceEnd ∉ commands := by
  constructor
  · intro running forced
    obtain ⟨earlier, later, rfl⟩ := List.append_of_mem forced
    have stopped :
        ((start input config).after (earlier ++ .forceEnd :: later)).isStopped = true := by
      rw [after_append]
      exact invariant_isStopped.after later rfl
    rw [running] at stopped
    cases stopped
  · intro unforced
    exact ((Follows.start input config).run (ends_stream _) unforced).2.running

theorem map_line_report (config : Config) (token : Token) :
    (report config token).map LogEntry.line = token.lines config.traceTokens := by
  rw [report, Token.lines]
  split
  · rfl
  · split <;> rfl

theorem lines_perform (input : Bytes) (config : Config) (earlier : List Command)
    (command : Command) :
    (((start input config).after earlier).perform command).log.map LogEntry.line =
      (start input config).linesOf earlier command := by
  let lexer := (start input config).after earlier
  have traced : lexer.config.traceTokens = config.traceTokens :=
    (invariant_traceTokens config.traceTokens).after earlier rfl
  have told : ((lexer.handedOut command).flatMap (report lexer.config)).map LogEntry.line =
      (lexer.handedOut command).flatMap (Token.lines config.traceTokens) := by
    rw [List.map_flatMap, ← traced]
    simp only [map_line_report]
  rw [log_perform, List.map_append, List.map_append, told, List.map_map, linesOf]
  simp only [isStopped_after_start]
  split <;> rfl

theorem lines_run (input : Bytes) (config : Config) (earlier commands : List Command) :
    (((start input config).after earlier).run commands).flatMap
        (fun reply => reply.log.map LogEntry.line) =
      (start input config).journal earlier commands := by
  induction commands generalizing earlier with
  | nil => rfl
  | cons command commands ih =>
      have behind := ih (earlier ++ [command])
      rw [after_append] at behind
      rw [run, List.flatMap_cons, lines_perform, journal, ← behind]
      rfl

/-! ## Tracing touches nothing else -/

theorem scan_withoutTracing (lexer : Lexer) :
    lexer.withoutTracing.scan = (lexer.scan.1, lexer.scan.2.withoutTracing) := by
  have aside : IsAside withoutTracing :=
    ⟨fun _ => rfl, fun _ => rfl, fun _ => rfl, fun _ _ _ => rfl⟩
  exact aside.scan lexer

theorem log_handOut_withoutTracing (lexer : Lexer) (token : Token) :
    (lexer.withoutTracing.handOut token).log =
      (lexer.handOut token).log.filter LogEntry.isNoTrace := by
  simp only [handOut, report, withoutTracing]
  cases token.isInvalid with
  | true => rfl
  | false => cases lexer.config.traceTokens <;> rfl

theorem lockstep_withoutTracing :
    Lockstep (fun traced untraced => untraced = traced.withoutTracing) LogEntry.isNoTrace where
  answer_scan := by
    rintro traced _ rfl
    rw [scan_withoutTracing]
  scan := by
    rintro traced _ rfl
    rw [scan_withoutTracing]
  allowComments_eq := by
    rintro traced _ rfl
    rfl
  handOut := by
    rintro traced _ rfl token
    exact ⟨rfl, rfl, log_handOut_withoutTracing traced token⟩
  recordError := by
    rintro traced _ rfl message
    exact ⟨rfl, rfl, rfl⟩
  forceEnd := by
    rintro traced _ rfl
    have isNoTrace : traced.forceEnd.log.filter LogEntry.isNoTrace = traced.forceEnd.log := by
      simp only [forceEnd]
      split <;> rfl
    exact ⟨rfl, rfl, isNoTrace.symm⟩
  setAllowComments := by
    rintro traced _ rfl allowed
    rfl

theorem takeResult_withoutTracing (lexer : Lexer) (expected : TypeCode) :
    lexer.withoutTracing.takeResult expected =
      ((lexer.takeResult expected).1, (lexer.takeResult expected).2.withoutTracing) := by
  rcases lexer.takeResult_cases expected with ⟨value, kept, taken⟩ | ⟨other, missed⟩
  · have untraced : lexer.withoutTracing.result = some ⟨expected, value⟩ := kept
    rw [taken, takeResult_of_some untraced]
    rfl
  · have untraced : ∀ value, lexer.withoutTracing.result ≠ some ⟨expected, value⟩ := other
    rw [missed, takeResult_of_ne untraced]

theorem perform_withoutTracing (lexer : Lexer) (command : Command) :
    lexer.withoutTracing.perform command = (lexer.perform command).withoutTraces := by
  cases isNote : command.isNote with
  | false =>
      have same : lexer.withoutTracing = lexer.withoutTracing := rfl
      obtain ⟨answer, behind, log⟩ := lockstep_withoutTracing.perform same isNote
      rw [Reply.withoutTraces, ← answer, ← behind, ← log]
  | true =>
      cases command with
      | recordError message => rfl
      | putResult result => rfl
      | takeResult expected =>
          simp only [perform, takeResult_withoutTracing]
          rfl
      | _ => cases isNote

/-- A session that does not trace gives the replies of one that does, but for the traces. -/
theorem run_withoutTracing (lexer : Lexer) (commands : List Command) :
    lexer.withoutTracing.run commands = (lexer.run commands).map Reply.withoutTraces := by
  induction commands generalizing lexer with
  | nil => rfl
  | cons command commands ih =>
      rw [run, run, List.map_cons, perform_withoutTracing, ← ih]
      rfl

end Lexer

/-- The log of a session is its journal: a line for each token that is handed out, the
end included, then a line for a message that the call records, and one for the first
call that forces the end.  What is handed out is told by the tokens that are left to be
shown and by the answers, which may leave out the end.  Scans log nothing, and comments
that are skipped are not handed out.  The same session without tracing gives the same
answers and states, and its log lacks the traces and nothing else. -/
theorem log_tells_session (input : Bytes) (config : Config) (commands : List Command) :
    let session := Lexer.start input config
    let lexer := session.after commands
    (session.run commands).flatMap (fun reply => reply.log.map LogEntry.line) =
        session.journal [] commands ∧
      (lexer.shownTokens = lexer.tokenize.answer ∧ (lexer.perform .scan).log = [] ∧
        ∀ command,
          let handed := lexer.handedOut command
          (command ≠ .scan →
              (lexer.perform command).answer.pulled? = command.answerOf handed) ∧
            ∀ token ∈ handed, token.kind = .comment → lexer.config.allowComments = true) ∧
      (Lexer.start input { config with traceTokens := false }).run commands =
        (session.run commands).map Reply.withoutTraces := by
  intro session lexer
  have shown : lexer.shownTokens = lexer.tokenize.answer := (Lexer.answer_tokenize_shown lexer).symm
  refine ⟨Lexer.lines_run input config [] commands, ⟨shown, rfl, ?_⟩,
    Lexer.run_withoutTracing session commands⟩
  intro command handed
  exact ⟨Lexer.pulled?_perform_of_ne_scan,
    fun _ member => Lexer.allowComments_of_mem_handedOut member⟩

/-- A scan and a skipped comment leave no line.  A comment that is allowed leaves one,
strict tokenizing that fails leaves two, and of two calls that force the end only the
first leaves one. -/
theorem log_tells_session_strict_failure :
    let config : Config := { allowComments := false, traceTokens := true }
    let session := Lexer.start (ascii "? /* b */ 5 /* c */ 08 ;") config
    let before : List Command := [.scan, .next, .setAllowComments true]
    let commands : List Command :=
      before ++ [.lex, .tokenizeStrict, .recordError "odd", .forceEnd, .collect, .forceEnd]
    let comment : Token := { kind := .comment, value := ascii "/* c */", offset := 12 }
    let lexer := session.after before
    (session.run commands).flatMap (fun reply => reply.log.map LogEntry.line) =
        [(.trace, "token NUMBER('5') at 10"),
          (.trace, "token COMMENTS('/* c */') at 12"),
          (.debug, "lexical error at position 21: '08'"),
          (.debug, "invalid token at position 23 near 08"),
          (.debug, "odd at position 23 near 08"),
          (.debug, "force EOF at position 22"),
          (.trace, "token EOF('') at 22")] ∧
      Command.lex ≠ .scan ∧ (lexer.perform .lex).answer.pulled? = some (.token comment) ∧
      comment ∈ lexer.handedOut .lex ∧ comment.kind = .comment ∧
      lexer.config.allowComments = true := by
  intro config session before commands comment lexer
  obtain ⟨lines, _, _⟩ := log_tells_session (ascii "? /* b */ 5 /* c */ 08 ;") config commands
  obtain ⟨_, ⟨_, _, calls⟩, _⟩ :=
    log_tells_session (ascii "? /* b */ 5 /* c */ 08 ;") config before
  obtain ⟨answers, allowed⟩ := calls .lex
  have handed : lexer.handedOut .lex = [comment] := by decide +kernel
  have member : comment ∈ lexer.handedOut .lex := by
    rw [handed]
    exact List.mem_cons_self
  have notScan : Command.lex ≠ .scan := by decide
  refine ⟨?_, notScan, ?_, member, rfl, allowed comment member rfl⟩
  · rw [lines]
    decide +kernel
  · rw [answers notScan, handed]
    rfl

end SqlLexer
