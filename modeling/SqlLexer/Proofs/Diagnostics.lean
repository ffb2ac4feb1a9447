import SqlLexer.Proofs.HandedOut

/-!
# What an error message says

A recorded message names the place where the lexer is and the text of the token that
was handed out last.  The lexer keeps that text in a field of its own.  Here it is
tied to what a session has handed out so far, whatever the calls were, so that the
message can be told from the answers alone.
-/

namespace SqlLexer

/-- How a message mentions the last token: by its text, if its kind has one. -/
def Token.mention (token : Token) : String :=
  match token.kind with
  | .identifier | .string | .number | .valueArgument | .comment | .keyword _ | .invalid =>
    s!" near {token.text}"
  | .endOfInput | .punctuation _ | .notEqual | .lessOrEqual | .greaterOrEqual
  | .nullSafeEqual => ""

/-- The message for a complaint that is made at a position, given the last token that
was handed out. -/
def diagnosis (complaint : String) (position : Nat) : Option Token → String
  | some last => s!"{complaint} at position {position + 1}{last.mention}"
  | none => s!"{complaint} at position {position + 1}"

/-- What a command complains about, if it records a message. -/
def Command.complaint? : Command → Answer → Option String
  | .recordError message, _ => some message
  | .tokenizeStrict, .failure _ => some "invalid token"
  | _, _ => none

theorem Token.mention_eq (token : Token) :
    token.mention =
      (token.errorContext?.map fun context => s!" near {Utf8.text context}").getD "" := by
  unfold mention errorContext?
  cases token.kind <;> rfl

namespace Lexer

variable {lexer : Lexer}

/-- The lexer keeps the text of this token, the last one handed out. -/
def Remembers (lexer : Lexer) (last : Option Token) : Prop :=
  lexer.context = last.bind Token.errorContext?

theorem errorReport_of_remembers {last : Option Token} (remembers : lexer.Remembers last)
    (message : String) : lexer.errorReport message = diagnosis message lexer.position last := by
  rw [Remembers] at remembers
  rw [errorReport, remembers]
  cases last with
  | none => rfl
  | some token =>
      rw [diagnosis, Token.mention_eq, Option.bind_some]
      cases token.errorContext? with
      | none => exact String.append_empty.symm
      | some context => exact String.append_assoc

/-! ## The context is the last token handed out -/

theorem context_scan (lexer : Lexer) : lexer.scan.2.context = lexer.context := by
  unfold scan
  split
  · rfl
  · dsimp only
    split <;> rfl

theorem lastError_scan (lexer : Lexer) : lexer.scan.2.lastError = lexer.lastError :=
  congrArg (·.2.lastError) (lexer.scan_withNotes lexer.lastError lexer.result)

theorem lastError_lex (lexer : Lexer) : lexer.lex.lexer.lastError = lexer.lastError :=
  congrArg (·.lexer.lastError) (lexer.lex_withNotes lexer.lastError lexer.result)

/-- Pulls replace the context by the last token pulled and record nothing. -/
theorem Rounds.remembers {tokens : List Token} {last : Lexer} {known : Option Token}
    (rounds : Rounds pull lexer tokens last) (remembers : lexer.Remembers known) :
    last.Remembers (tokens.getLast?.or known) ∧ last.lastError = lexer.lastError := by
  induction rounds generalizing known with
  | none lexer => exact ⟨remembers, rfl⟩
  | @more lexer last tokens _ ih =>
      have pulled : (pull lexer).2.Remembers (some (pull lexer).1) := context_lex lexer
      obtain ⟨here, kept⟩ := ih pulled
      rw [Option.or_some] at here
      rw [List.getLast?_cons, Option.some_or]
      exact ⟨here, kept.trans (lastError_lex lexer)⟩

theorem EndsStrictly.remembers {reply : Reply (Except Error (List Token))} {tokens : List Token}
    {last : Lexer} {known : Option Token} (ends : EndsStrictly reply tokens last)
    (remembers : last.Remembers known) :
    reply.lexer.Remembers known ∧
      reply.lexer.lastError =
        match Command.tokenizeStrict.complaint? (.ofStrict reply.answer) with
        | some complaint => some (diagnosis complaint reply.lexer.position known)
        | none => last.lastError := by
  cases ends with
  | valid answered reached =>
      rw [answered, reached]
      exact ⟨remembers, rfl⟩
  | invalid _ answered reached =>
      rw [answered, reached]
      exact ⟨remembers, congrArg some (errorReport_of_remembers remembers _)⟩

/-- After any call the lexer keeps the text of the last token handed out.  A call that
complains replaces the last message by one about that token, and no other call does. -/
theorem perform_remembers {known : Option Token} (remembers : lexer.Remembers known)
    (command : Command) :
    let reply := lexer.perform command
    let last := (lexer.handedOut command).getLast?.or known
    reply.lexer.Remembers last ∧
      reply.lexer.lastError =
        match command.complaint? reply.answer with
        | some complaint => some (diagnosis complaint reply.lexer.position last)
        | none => lexer.lastError := by
  cases command with
  | scan => exact ⟨(context_scan lexer).trans remembers, lastError_scan lexer⟩
  | lex | next => exact (rounds_lex lexer).remembers remembers
  | take count => exact (rounds_take lexer count).remembers remembers
  | collect =>
      rw [perform_collect]
      exact (rounds_tokenize lexer).remembers remembers
  | tokenize => exact (rounds_tokenize lexer).remembers remembers
  | tokenizeStrict =>
      obtain ⟨last, rounds, ends⟩ := rounds_tokenizeStrict lexer
      obtain ⟨here, kept⟩ := rounds.remembers remembers
      have recorded := ends.remembers here
      rw [kept] at recorded
      exact recorded
  | recordError message =>
      exact ⟨remembers, congrArg some (errorReport_of_remembers remembers message)⟩
  | takeResult expected =>
      obtain ⟨result, taken⟩ := lexer.takeResult_eq expected
      simp only [perform, taken]
      exact ⟨remembers, rfl⟩
  | forceEnd | setAllowComments | putResult | inspect => exact ⟨remembers, rfl⟩

theorem after_remembers {known : Option Token} (remembers : lexer.Remembers known)
    (commands : List Command) :
    (lexer.after commands).Remembers ((lexer.handedOutBy commands).getLast?.or known) := by
  induction commands generalizing lexer known with
  | nil => exact remembers
  | cons command commands ih =>
      rw [handedOutBy, List.getLast?_append, Option.or_assoc]
      exact ih (perform_remembers remembers command).1

end Lexer

/-- What a session says about errors, at any point of it.  A message that is recorded
names the position, counted from one, and mentions the last token handed out so far,
unless there is none or its kind has no text.  Only the recording of a message and a
strict pull that fails change the last message, and they replace it.  What was handed
out is what the answers show, together with the ends that they leave out.  A scan
hands out nothing, but the position in a message is that behind it; and no comment
is handed out where it is to be skipped. -/
theorem messages_name_last_token (input : Bytes) (config : Config) (commands : List Command) :
    let session := Lexer.start input config
    let lexer := session.after commands
    let last := (session.handedOutBy commands).getLast?
    session.lastError = none ∧
      (∀ message, (lexer.recordError message).lexer.lastError =
        some (diagnosis message lexer.position last)) ∧
      (∀ command,
        let reply := lexer.perform command
        let handed := lexer.handedOut command
        reply.lexer.lastError =
            (match command.complaint? reply.answer with
            | some complaint =>
              some (diagnosis complaint reply.lexer.position (handed.getLast?.or last))
            | none => lexer.lastError) ∧
          (command ≠ .scan → reply.answer.pulled? = command.answerOf handed) ∧
          ∀ token ∈ handed, token.kind = .comment → lexer.config.allowComments = true) ∧
      ∀ message, (lexer.scan.2.recordError message).lexer.lastError =
        some (diagnosis message lexer.scan.2.position last) := by
  intro session lexer last
  have remembers : lexer.Remembers last := by
    have fresh : session.Remembers none := rfl
    have after := Lexer.after_remembers fresh commands
    rw [Option.or_none] at after
    exact after
  have behindScan : lexer.scan.2.Remembers last := (Lexer.context_scan lexer).trans remembers
  refine ⟨rfl, ?_, ?_, ?_⟩
  · intro message
    exact congrArg some (Lexer.errorReport_of_remembers remembers message)
  · intro command reply handed
    exact ⟨(Lexer.perform_remembers remembers command).2, Lexer.pulled?_perform_of_ne_scan,
      fun _ member => Lexer.allowComments_of_mem_handedOut member⟩
  · intro message
    exact congrArg some (Lexer.errorReport_of_remembers behindScan message)

/-- A scan moves on from a number over a comment.  Where comments are allowed, two
tokens more are taken, of which the second is an empty string, and a strict pull
fails behind them. -/
theorem messages_name_last_token_empty :
    let config : Config := { allowComments := true, traceTokens := false }
    let session := Lexer.start (ascii "5. /* c */ '' 08") config
    let comment : Token := { kind := .comment, value := ascii "/* c */", offset := 3 }
    let text : Token := { kind := .string, value := [], offset := 11 }
    let lexer := session.after [.lex]
    let behind := session.after [.lex, .take 2]
    lexer.handedOut (.take 2) = [comment, text] ∧ Command.take 2 ≠ .scan ∧
      (lexer.perform (.take 2)).answer.pulled? = some (.tokens [comment, text]) ∧
      comment.kind = .comment ∧ lexer.config.allowComments = true ∧
      (lexer.scan.2.recordError "odd").lexer.lastError = some "odd at position 11 near 5." ∧
      (behind.recordError "odd").lexer.lastError = some "odd at position 14 near " ∧
      (behind.perform .tokenizeStrict).lexer.lastError =
        some "invalid token at position 17 near 08" := by
  intro config session comment text lexer behind
  obtain ⟨_, _, calls, scanned⟩ := messages_name_last_token (ascii "5. /* c */ '' 08") config [.lex]
  obtain ⟨_, recorded, callsBehind, _⟩ :=
    messages_name_last_token (ascii "5. /* c */ '' 08") config [.lex, .take 2]
  have handed : lexer.handedOut (.take 2) = [comment, text] := by decide +kernel
  obtain ⟨_, shown, allowed⟩ := calls (.take 2)
  have notScan : Command.take 2 ≠ .scan := by decide
  have member : comment ∈ lexer.handedOut (.take 2) := by
    rw [handed]
    exact List.mem_cons_self
  refine ⟨handed, notScan, ?_, rfl, allowed comment member rfl, ?_, ?_, ?_⟩
  · rw [shown notScan, handed]
    rfl
  · rw [scanned]
    decide +kernel
  · rw [recorded]
    decide +kernel
  · rw [(callsBehind .tokenizeStrict).1]
    decide +kernel

end SqlLexer
