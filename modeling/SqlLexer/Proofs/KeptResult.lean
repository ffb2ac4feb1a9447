import Mathlib.Data.List.Basic
import Mathlib.Data.List.Induction
import SqlLexer.Proofs.Diagnostics
import SqlLexer.Proofs.FinalEnd
import SqlLexer.Proofs.Lockstep
import SqlLexer.Proofs.Notes

/-!
# Notes and reading do not interfere

A session mixes calls that read with calls that leave or take notes.  Each kind goes
its own way: the replies to either are those that it gets without the other.  What a
lexer keeps for a grammar is therefore told by the calls on it alone: it is the last
result put in, unless that was taken since.
-/

namespace SqlLexer

namespace Command

/-- The command reads, or changes how to read. -/
def reads (command : Command) : Bool :=
  !command.isNote

/-- The command is about the result that is kept. -/
def isAboutResult : Command → Bool
  | .putResult _ | .takeResult _ => true
  | .scan | .lex | .next | .take _ | .collect | .tokenize | .tokenizeStrict | .forceEnd
  | .setAllowComments _ | .recordError _ | .inspect => false

end Command

/-- The reply without the notes of the lexer that is left. -/
def Reply.withoutNotes {α : Type} (reply : Reply α) : Reply α :=
  reply.withNotes none none

/-- The answer with the result that is kept behind it. -/
def Reply.keeping {α : Type} (reply : Reply α) : α × Option ParseResult :=
  (reply.answer, reply.lexer.result)

namespace Lexer

/-- The replies of a session to the commands that are chosen, with all of them carried out. -/
def repliesTo (chosen : Command → Bool) (lexer : Lexer) (commands : List Command) :
    List (Reply Answer) :=
  ((commands.zip (lexer.run commands)).filter fun step => chosen step.1).map Prod.snd

/-- The lexer apart from its notes. -/
def withoutNotes (lexer : Lexer) : Lexer :=
  lexer.withNotes none none

/-- These commands, from this lexer on, put no other result in and take none out. -/
structure LeavesResult (lexer : Lexer) (commands : List Command) : Prop where
  puts_none : ∀ command ∈ commands, ∀ result, command ≠ .putResult result
  takes_none : ∀ reply ∈ lexer.run commands, ∀ value, reply.answer ≠ .result (some value)

/-- The last result that these commands put in is this one, and they have not taken it since. -/
def HasLeft (lexer : Lexer) (commands : List Command) (result : ParseResult) : Prop :=
  ∃ before behind, commands = before ++ .putResult result :: behind ∧
    (lexer.after (before ++ [.putResult result])).LeavesResult behind

variable {lexer first second : Lexer} {chosen : Command → Bool} {command : Command}

theorem repliesTo_cons_of_pos (isChosen : chosen command = true) (lexer : Lexer)
    (commands : List Command) :
    lexer.repliesTo chosen (command :: commands) =
      lexer.perform command :: (lexer.perform command).lexer.repliesTo chosen commands := by
  simp only [repliesTo, run, List.zip_cons_cons, List.filter_cons, isChosen, if_true,
    List.map_cons]

theorem repliesTo_cons_of_neg (isLeft : chosen command = false) (lexer : Lexer)
    (commands : List Command) :
    lexer.repliesTo chosen (command :: commands) =
      (lexer.perform command).lexer.repliesTo chosen commands := by
  simp only [repliesTo, run, List.zip_cons_cons, List.filter_cons, isLeft,
    Bool.false_eq_true, if_false]

/-! ## Reading goes on as without notes -/

theorem scan_withoutNotes (lexer : Lexer) :
    lexer.withoutNotes.scan = (lexer.scan.1, lexer.scan.2.withoutNotes) :=
  lexer.scan_withNotes none none

/-- Lexers that differ in their notes at most read the same. -/
theorem lockstep_withoutNotes :
    Lockstep (fun first second => second.withoutNotes = first.withoutNotes) fun _ => true where
  answer_scan {first second} same := by
    have scanned := congrArg (·.scan.1) same
    rw [scan_withoutNotes, scan_withoutNotes] at scanned
    exact scanned
  scan {first second} same := by
    have scanned := congrArg (·.scan.2) same
    rw [scan_withoutNotes, scan_withoutNotes] at scanned
    exact scanned
  allowComments_eq same := congrArg (·.config.allowComments) same
  handOut {first second} same token := by
    have reported := congrArg (fun lexer => (lexer.handOut token).log) same
    exact ⟨rfl, congrArg (fun lexer => (lexer.handOut token).lexer) same,
      reported.trans (List.filter_true _).symm⟩
  recordError {first second} same message := by
    have reported := congrArg (fun lexer => (lexer.recordError message).log) same
    exact ⟨rfl, same, reported.trans (List.filter_true _).symm⟩
  forceEnd {first second} same := by
    have reported := congrArg (fun lexer => lexer.forceEnd.log) same
    exact ⟨rfl, congrArg (fun lexer => lexer.forceEnd.lexer) same,
      reported.trans (List.filter_true _).symm⟩
  setAllowComments same allowed :=
    congrArg (fun lexer => lexer.setAllowComments allowed) same

theorem withoutNotes_of_matches {α : Type} {reply other : Reply α}
    (replies : reply.Matches (fun first second => second.withoutNotes = first.withoutNotes)
      (fun _ => true) other) : reply.withoutNotes = other.withoutNotes := by
  obtain ⟨answer, behind, log⟩ := replies
  rw [List.filter_true] at log
  have behind : other.lexer.withNotes none none = reply.lexer.withNotes none none := behind
  rw [Reply.withoutNotes, Reply.withoutNotes, Reply.withNotes, Reply.withNotes, answer, behind, log]

theorem withoutNotes_perform (isNote : command.isNote = true) :
    (lexer.perform command).lexer.withoutNotes = lexer.withoutNotes := by
  cases command with
  | recordError | putResult => rfl
  | takeResult expected =>
      obtain ⟨result, taken⟩ := lexer.takeResult_eq expected
      simp only [perform, taken]
      rfl
  | _ => cases isNote

theorem repliesTo_reads (same : second.withoutNotes = first.withoutNotes)
    (commands : List Command) :
    (first.repliesTo Command.reads commands).map Reply.withoutNotes =
      (second.run (commands.filter Command.reads)).map Reply.withoutNotes := by
  induction commands generalizing first second with
  | nil => rfl
  | cons command commands ih =>
      cases isNote : command.isNote with
      | true =>
          have isLeft : command.reads = false := congrArg (!·) isNote
          rw [repliesTo_cons_of_neg isLeft,
            List.filter_cons_of_neg ((Bool.not_eq_true _).mpr isLeft)]
          exact ih (same.trans (withoutNotes_perform isNote).symm)
      | false =>
          have isChosen : command.reads = true := congrArg (!·) isNote
          have replies := lockstep_withoutNotes.perform same isNote
          rw [repliesTo_cons_of_pos isChosen, List.filter_cons_of_pos isChosen, run, List.map_cons,
            List.map_cons, withoutNotes_of_matches replies, ih replies.lexer_related]

/-! ## The result that is kept -/

theorem result_lex (lexer : Lexer) : lexer.lex.lexer.result = lexer.result :=
  congrArg (·.lexer.result) (lexer.lex_withNotes lexer.lastError lexer.result)

theorem Rounds.result_eq {tokens : List Token} {last : Lexer}
    (rounds : Rounds pull lexer tokens last) : last.result = lexer.result := by
  induction rounds with
  | none lexer => rfl
  | @more lexer last tokens _ ih => exact ih.trans (result_lex lexer)

theorem EndsStrictly.result_eq {reply : Reply (Except Error (List Token))} {tokens : List Token}
    {last : Lexer} (ends : EndsStrictly reply tokens last) : reply.lexer.result = last.result := by
  cases ends with
  | valid _ reached => rw [reached]
  | invalid _ _ reached =>
      rw [reached]
      rfl

theorem result_perform (other : command.isAboutResult = false) (lexer : Lexer) :
    (lexer.perform command).lexer.result = lexer.result := by
  cases command with
  | scan => exact congrArg (·.2.result) (lexer.scan_withNotes lexer.lastError lexer.result)
  | lex | next => exact result_lex lexer
  | take count => exact (rounds_take lexer count).result_eq
  | collect =>
      rw [perform_collect]
      exact result_tokenize lexer
  | tokenize => exact result_tokenize lexer
  | tokenizeStrict =>
      obtain ⟨last, rounds, ends⟩ := rounds_tokenizeStrict lexer
      exact ends.result_eq.trans rounds.result_eq
  | forceEnd | setAllowComments | recordError | inspect => rfl
  | putResult | takeResult => cases other

theorem perform_isAboutResult (isAbout : command.isAboutResult = true)
    (same : first.result = second.result) :
    (first.perform command).keeping = (second.perform command).keeping := by
  cases command with
  | putResult result => rfl
  | takeResult expected =>
      simp only [perform, Reply.keeping]
      rcases first.takeResult_cases expected with ⟨value, kept, taken⟩ | ⟨other, missed⟩
      · rw [taken, takeResult_of_some (same ▸ kept)]
      · rw [missed, takeResult_of_ne (same ▸ other), same]
  | _ => cases isAbout

theorem repliesTo_isAboutResult (same : first.result = second.result)
    (commands : List Command) :
    (first.repliesTo Command.isAboutResult commands).map Reply.keeping =
      (second.run (commands.filter Command.isAboutResult)).map Reply.keeping := by
  induction commands generalizing first second with
  | nil => rfl
  | cons command commands ih =>
      cases isAbout : command.isAboutResult with
      | false =>
          rw [repliesTo_cons_of_neg isAbout,
            List.filter_cons_of_neg ((Bool.not_eq_true _).mpr isAbout)]
          exact ih ((result_perform isAbout first).trans same)
      | true =>
          have reply := perform_isAboutResult isAbout same
          rw [repliesTo_cons_of_pos isAbout, List.filter_cons_of_pos isAbout, run, List.map_cons,
            List.map_cons, reply, ih (congrArg Prod.snd reply)]

/-! ## Which result that is -/

theorem answer_takeResult_iff {expected : TypeCode} {value : Bytes} :
    (lexer.perform (.takeResult expected)).answer = .result (some value) ↔
      lexer.result = some ⟨expected, value⟩ := by
  constructor
  · intro taken
    rcases lexer.takeResult_cases expected with ⟨other, kept, reply⟩ | ⟨_, missed⟩
    · simp only [perform, reply] at taken
      cases taken
      exact kept
    · simp only [perform, missed] at taken
      cases taken
  · intro kept
    simp only [perform, takeResult_of_some kept]

/-- A call for the result either takes it or does nothing. -/
theorem perform_takeResult_cases (lexer : Lexer) (expected : TypeCode) :
    let reply := lexer.perform (.takeResult expected)
    (∃ value, reply.answer = .result (some value) ∧
        reply.lexer = { lexer with result := none }) ∨
      (reply.answer = .result none ∧ reply.lexer = lexer) := by
  simp only [perform]
  rcases lexer.takeResult_cases expected with ⟨value, _, taken⟩ | ⟨_, missed⟩
  · rw [taken]
    exact .inl ⟨value, rfl, rfl⟩
  · rw [missed]
    exact .inr ⟨rfl, rfl⟩

theorem result_perform_of_leaves (lexer : Lexer)
    (puts : ∀ result, command ≠ .putResult result)
    (takes : ∀ value, (lexer.perform command).answer ≠ .result (some value)) :
    (lexer.perform command).lexer.result = lexer.result := by
  cases isAbout : command.isAboutResult with
  | false => exact result_perform isAbout lexer
  | true =>
      cases command with
      | putResult result => exact absurd rfl (puts result)
      | takeResult expected =>
          rcases lexer.perform_takeResult_cases expected with ⟨value, taken, _⟩ | ⟨_, same⟩
          · exact absurd taken (takes value)
          · rw [same]
      | _ => cases isAbout

theorem result_perform_of_taken {value : Bytes}
    (taken : (lexer.perform command).answer = .result (some value)) :
    (lexer.perform command).lexer.result = none := by
  cases command with
  | takeResult expected =>
      rcases lexer.perform_takeResult_cases expected with ⟨_, _, emptied⟩ | ⟨missed, _⟩
      · rw [emptied]
      · cases taken.symm.trans missed
  | tokenizeStrict =>
      simp only [perform, Reply.map] at taken
      cases answer : lexer.tokenizeStrict.answer with
      | ok tokens =>
          rw [answer] at taken
          cases taken
      | error cause =>
          rw [answer] at taken
          cases taken
  | _ => cases taken

theorem LeavesResult.nil : lexer.LeavesResult [] where
  puts_none _ member := absurd member List.not_mem_nil
  takes_none _ member := absurd member List.not_mem_nil

theorem LeavesResult.tail {commands : List Command}
    (leaves : lexer.LeavesResult (command :: commands)) :
    (lexer.perform command).lexer.LeavesResult commands where
  puts_none other member := leaves.puts_none other (List.mem_cons_of_mem _ member)
  takes_none reply member := leaves.takes_none reply (List.mem_cons_of_mem _ member)

theorem LeavesResult.result_after {commands : List Command}
    (leaves : lexer.LeavesResult commands) : (lexer.after commands).result = lexer.result := by
  induction commands generalizing lexer with
  | nil => rfl
  | cons command commands ih =>
      have puts := leaves.puts_none command List.mem_cons_self
      have takes := leaves.takes_none (lexer.perform command) List.mem_cons_self
      exact (ih leaves.tail).trans (result_perform_of_leaves lexer puts takes)

theorem LeavesResult.concat {commands : List Command} (leaves : lexer.LeavesResult commands)
    (puts : ∀ result, command ≠ .putResult result)
    (takes : ∀ value, ((lexer.after commands).perform command).answer ≠ .result (some value)) :
    lexer.LeavesResult (commands ++ [command]) where
  puts_none other member := by
    rcases List.mem_append.mp member with earlier | last
    · exact leaves.puts_none other earlier
    · rw [List.mem_singleton.mp last]
      exact puts
  takes_none reply member := by
    rw [run_append] at member
    rcases List.mem_append.mp member with earlier | last
    · exact leaves.takes_none reply earlier
    · rw [List.mem_singleton.mp last]
      exact takes

/-- A session keeps the last result put in that was not taken since. -/
theorem result_after_iff (fresh : lexer.result = none) (commands : List Command)
    (result : ParseResult) :
    (lexer.after commands).result = some result ↔ lexer.HasLeft commands result := by
  constructor
  · induction commands using List.reverseRecOn generalizing result with
    | nil =>
        intro kept
        rw [show lexer.after [] = lexer from rfl, fresh] at kept
        cases kept
    | append_singleton commands command ih =>
        intro kept
        rw [after_append] at kept
        by_cases puts : ∃ other, command = .putResult other
        · obtain ⟨other, rfl⟩ := puts
          cases kept
          exact ⟨commands, [], rfl, .nil⟩
        · have puts (other : ParseResult) : command ≠ .putResult other :=
            fun same => puts ⟨other, same⟩
          have takes (value : Bytes) :
              ((lexer.after commands).perform command).answer ≠ .result (some value) := by
            intro taken
            have left : ((lexer.after commands).after [command]).result = none :=
              result_perform_of_taken taken
            rw [left] at kept
            cases kept
          have same : ((lexer.after commands).after [command]).result =
              (lexer.after commands).result := result_perform_of_leaves _ puts takes
          obtain ⟨before, behind, rfl, leaves⟩ := ih result (same ▸ kept)
          rw [List.append_cons, after_append] at takes
          exact ⟨before, behind ++ [command], List.append_assoc _ _ _, leaves.concat puts takes⟩
  · rintro ⟨before, behind, rfl, leaves⟩
    rw [List.append_cons, after_append, leaves.result_after, after_append]
    rfl

end Lexer

/-- Reading and notes go their own ways in every session.  Without the commands that
record a message, or put in or take out a result, the replies to the others are the same
but for the notes: the answers, the log and the whole state of reading.  And the replies
to the commands about the result are those of these commands alone, in a session on any
text.  A value is given back exactly if the last result that was put in and not taken
since is this value of the expected type; then no result is left.  Otherwise the attempt
gives nothing and leaves the lexer as it is. -/
theorem notes_and_reading_apart (input : Bytes) (config : Config) (commands : List Command) :
    let session := Lexer.start input config
    let lexer := session.after commands
    (session.repliesTo Command.reads commands).map Reply.withoutNotes =
        (session.run (commands.filter Command.reads)).map Reply.withoutNotes ∧
      (∀ otherInput otherConfig,
        (session.repliesTo Command.isAboutResult commands).map Reply.keeping =
          ((Lexer.start otherInput otherConfig).run
            (commands.filter Command.isAboutResult)).map Reply.keeping) ∧
      ∀ expected,
        let reply := lexer.perform (.takeResult expected)
        (∀ value, reply.answer = .result (some value) ↔
            session.HasLeft commands ⟨expected, value⟩) ∧
          ((∃ value, reply.answer = .result (some value) ∧
              reply.lexer = { lexer with result := none }) ∨
            (reply.answer = .result none ∧ reply.lexer = lexer)) := by
  intro session lexer
  refine ⟨Lexer.repliesTo_reads rfl commands, ?_, ?_⟩
  · intro otherInput otherConfig
    have same : session.result = (Lexer.start otherInput otherConfig).result := rfl
    exact Lexer.repliesTo_isAboutResult same commands
  intro expected reply
  have taken (value : Bytes) : reply.answer = .result (some value) ↔
      lexer.result = some ⟨expected, value⟩ := Lexer.answer_takeResult_iff
  have kept (value : Bytes) : lexer.result = some ⟨expected, value⟩ ↔
      session.HasLeft commands ⟨expected, value⟩ :=
    Lexer.result_after_iff rfl commands ⟨expected, value⟩
  exact ⟨fun value => (taken value).trans (kept value), lexer.perform_takeResult_cases expected⟩

/-- A number waits over a message, attempts to take values of two other types, an error
and the end.  It is then taken once. -/
theorem notes_and_reading_apart_missed :
    let number : TypeCode := ⟨0⟩
    let text : TypeCode := ⟨1⟩
    let flag : TypeCode := ⟨2⟩
    let session := Lexer.start (ascii "? 08") .default
    let before : List Command :=
      [.putResult ⟨flag, ascii "true"⟩, .putResult ⟨number, ascii "5"⟩]
    let behind : List Command :=
      [.lex, .recordError "odd", .takeResult text, .tokenizeStrict, .takeResult flag, .collect]
    let lexer := session.after (before ++ behind)
    let reading := [Command.lex, .tokenizeStrict, .collect]
    let five : ParseResult := ⟨number, ascii "5"⟩
    (session.repliesTo Command.reads (before ++ behind)).map Reply.withoutNotes =
        (session.run reading).map Reply.withoutNotes ∧
      (session.repliesTo Command.isAboutResult (before ++ behind)).map Reply.keeping =
        [(.nothing, some ⟨flag, ascii "true"⟩), (.nothing, some five),
          (.result none, some five), (.result none, some five)] ∧
      (lexer.perform (.takeResult number)).answer = .result (some (ascii "5")) ∧
      session.HasLeft (before ++ behind) five ∧
      ((lexer.perform (.takeResult number)).lexer.perform (.takeResult number)).answer =
        .result none := by
  intro number text flag session before behind lexer reading five
  obtain ⟨read, kept, takes⟩ :=
    notes_and_reading_apart (ascii "? 08") .default (before ++ behind)
  have taken : (lexer.perform (.takeResult number)).answer = .result (some (ascii "5")) := by
    decide +kernel
  have hasLeft := ((takes number).1 _).mp taken
  refine ⟨read, ?_, taken, hasLeft, ?_⟩
  · rw [kept [] .default]
    decide
  · decide +kernel

end SqlLexer
