import SqlLexer.Proofs.Notes
import SqlLexer.Proofs.TokenStream

/-!
# Strict tokenizing

Strict tokenizing gives the tokens of lenient tokenizing as long as each of them
is valid.  Otherwise it stops right behind the first invalid one: what it records
names the position there, what it answers names the place where the token begins,
and tokenizing again gives the tokens behind.  Both loops are compared with one
list, the entries that are still handed out.
-/

namespace SqlLexer

theorem Token.isEnd_of_isInvalid {token : Token} (invalid : token.isInvalid = true) :
    token.isEnd = false := by
  simp only [isInvalid, beq_iff_eq] at invalid
  simp [isEnd, invalid]

theorem Token.errorContext?_of_isInvalid {token : Token} (invalid : token.isInvalid = true) :
    token.errorContext? = some token.value := by
  simp only [isInvalid, beq_iff_eq] at invalid
  simp [errorContext?, Kind.carriesText, invalid]

namespace Lexer

variable {lexer : Lexer}

/-- The entry is handed out under these settings. -/
def shows (lexer : Lexer) (entry : Entry) : Bool :=
  !lexer.withholds entry.token

/-- The entries from here to the end that are handed out. -/
def shownEntries (lexer : Lexer) : List Entry :=
  lexer.stream.entries.filter lexer.shows

theorem shows_scan (lexer : Lexer) : lexer.scan.2.shows = lexer.shows := by
  funext entry
  rw [shows, shows, withholds, withholds, config_scan]

theorem running_of_not_isEnd (notEnd : lexer.scan.1.isEnd = false) :
    lexer.isStopped = false := by
  cases stopped : lexer.isStopped with
  | false => rfl
  | true =>
      rw [scan_stopped stopped] at notEnd
      cases notEnd

theorem shownEntries_of_withholds (withheld : lexer.withholds lexer.scan.1 = true) :
    lexer.shownEntries = lexer.scan.2.shownEntries := by
  let entry : Entry := { token := lexer.scan.1, stop := lexer.scan.2.position }
  have hidden : ¬lexer.shows entry = true := by simp [shows, entry, withheld]
  rw [shownEntries, shownEntries, stream_of_not_isEnd (isEnd_of_withholds withheld),
    TokenStream.entries_push, List.filter_cons_of_neg hidden, shows_scan]

theorem shownEntries_of_not_isEnd (notEnd : lexer.lex.answer.isEnd = false) :
    lexer.shownEntries =
      { token := lexer.lex.answer, stop := lexer.lex.lexer.position } ::
        lexer.lex.lexer.shownEntries := by
  induction lexer using Lexer.lex.induct
  case case1 lexer scanned withheld ih =>
    rw [lex_of_withholds withheld] at notEnd ⊢
    rw [shownEntries_of_withholds withheld]
    exact ih notEnd
  case case2 lexer scanned visible =>
    rw [lex_of_not_withholds visible] at notEnd ⊢
    have running : lexer.scan.2.isStopped = false :=
      (isStopped_scan lexer).trans (running_of_not_isEnd notEnd)
    let behind := (lexer.scan.2.handOut lexer.scan.1).lexer
    let entry : Entry := { token := lexer.scan.1, stop := lexer.scan.2.position }
    have sameStream : behind.stream = lexer.scan.2.stream := stream_congr running running rfl
    have sameShown : behind.shows = lexer.shows := shows_scan lexer
    have shown : lexer.shows entry = true := by simpa [shows, entry] using visible
    rw [shownEntries, stream_of_not_isEnd notEnd, TokenStream.entries_push,
      List.filter_cons_of_pos shown, shownEntries, sameStream, sameShown]
    rfl

theorem shownEntries_of_isEnd (isEnd : lexer.lex.answer.isEnd = true) :
    lexer.shownEntries =
      [{ token := lexer.lex.answer, stop := lexer.lex.lexer.position }] := by
  induction lexer using Lexer.lex.induct
  case case1 lexer scanned withheld ih =>
    rw [lex_of_withholds withheld] at isEnd ⊢
    rw [shownEntries_of_withholds withheld]
    exact ih isEnd
  case case2 lexer scanned visible =>
    rw [lex_of_not_withholds visible] at isEnd ⊢
    let entry : Entry := { token := lexer.scan.1, stop := lexer.scan.2.position }
    have shown : lexer.shows entry = true := by simpa [shows, entry] using visible
    rw [shownEntries, stream_of_isEnd isEnd, TokenStream.entries, List.nil_append,
      List.filter_cons_of_pos shown, List.filter_nil]
    rfl

theorem answer_tokenize_shown (lexer : Lexer) :
    lexer.tokenize.answer = lexer.shownEntries.map Entry.token := by
  induction lexer using Lexer.tokenize.induct
  case case1 lexer pulled notEnd ih =>
    rw [tokenize_of_not_isEnd notEnd, shownEntries_of_not_isEnd notEnd, List.map_cons, ih]
  case case2 lexer pulled isEnd =>
    have isEnd := (Bool.not_eq_false _).mp isEnd
    rw [tokenize_of_isEnd isEnd, shownEntries_of_isEnd isEnd]
    rfl

/-- Where every token is valid, being strict makes no difference. -/
theorem tokenizeStrict_of_valid
    (valid : ∀ token ∈ lexer.tokenize.answer, token.isInvalid = false) :
    lexer.tokenizeStrict = lexer.tokenize.map .ok := by
  induction lexer using Lexer.tokenizeStrict.induct
  case case1 lexer pulled invalid =>
    have notEnd := Token.isEnd_of_isInvalid invalid
    rw [tokenize_of_not_isEnd notEnd] at valid
    have validHere := valid _ List.mem_cons_self
    rw [show lexer.lex.answer.isInvalid = true from invalid] at validHere
    cases validHere
  case case2 lexer pulled notInvalid notEnd ih =>
    rw [tokenize_of_not_isEnd notEnd] at valid
    have others : lexer.lex.lexer.tokenizeStrict = lexer.lex.lexer.tokenize.map .ok :=
      ih fun token member => valid token (List.mem_cons_of_mem _ member)
    rw [tokenizeStrict_of_not_isEnd ((Bool.not_eq_true _).mp notInvalid) notEnd, others,
      tokenize_of_not_isEnd notEnd]
    rfl
  case case3 lexer pulled notInvalid isEnd =>
    have isEnd := (Bool.not_eq_false _).mp isEnd
    rw [tokenizeStrict_of_isEnd isEnd, tokenize_of_isEnd isEnd]
    rfl

theorem context_lex (lexer : Lexer) :
    lexer.lex.lexer.context = lexer.lex.answer.errorContext? := by
  induction lexer using Lexer.lex.induct
  case case1 lexer scanned withheld ih =>
    rw [lex_of_withholds withheld]
    exact ih
  case case2 lexer scanned visible =>
    rw [lex_of_not_withholds visible]
    rfl

/-- How strict tokenizing stops at an entry: `behind` is the lexer right behind
its token, before the error is recorded, and `others` are shown from there on. -/
structure StopsBehind (lexer : Lexer) (entry : Entry) (others : List Entry) (behind : Lexer) :
    Prop where
  answer_eq : lexer.tokenizeStrict.answer = .error (invalidTokenError entry.token)
  lexer_eq : lexer.tokenizeStrict.lexer = (behind.recordError "invalid token").lexer
  context_eq : behind.context = some entry.token.value
  position_eq : behind.position = entry.stop
  shown_eq : behind.shownEntries = others
  tokenize_eq : behind.tokenize.lexer = lexer.tokenize.lexer

theorem exists_stopsBehind {before others : List Entry} {entry : Entry}
    (shown : lexer.shownEntries = before ++ entry :: others)
    (valid : ∀ earlier ∈ before, earlier.token.isInvalid = false)
    (invalid : entry.token.isInvalid = true) :
    ∃ behind, lexer.StopsBehind entry others behind := by
  induction lexer using Lexer.tokenizeStrict.induct generalizing before
  case case1 lexer pulled invalidHere =>
    have notEnd := Token.isEnd_of_isInvalid invalidHere
    rw [shownEntries_of_not_isEnd notEnd] at shown
    cases before with
    | nil =>
        obtain ⟨rfl, rfl⟩ := List.cons.inj shown
        refine ⟨lexer.lex.lexer, ?_, ?_, ?_, rfl, rfl, ?_⟩
        · rw [tokenizeStrict_of_isInvalid invalidHere]
        · rw [tokenizeStrict_of_isInvalid invalidHere]
        · rw [context_lex]
          exact Token.errorContext?_of_isInvalid invalid
        · rw [tokenize_of_not_isEnd notEnd]
    | cons first before =>
        obtain ⟨rfl, _⟩ := List.cons.inj shown
        have validHere := valid _ List.mem_cons_self
        rw [show lexer.lex.answer.isInvalid = true from invalidHere] at validHere
        cases validHere
  case case2 lexer pulled notInvalid notEnd ih =>
    rw [shownEntries_of_not_isEnd notEnd] at shown
    cases before with
    | nil =>
        obtain ⟨rfl, _⟩ := List.cons.inj shown
        exact absurd invalid notInvalid
    | cons first before =>
        obtain ⟨rfl, shownBehind⟩ := List.cons.inj shown
        obtain ⟨behind, stops⟩ := ih shownBehind
          fun earlier member => valid earlier (List.mem_cons_of_mem _ member)
        have unfolded := tokenizeStrict_of_not_isEnd ((Bool.not_eq_true _).mp notInvalid) notEnd
        refine ⟨behind, ?_, ?_, stops.context_eq, stops.position_eq, stops.shown_eq, ?_⟩
        · rw [unfolded]
          dsimp only
          rw [stops.answer_eq]
          rfl
        · rw [unfolded]
          exact stops.lexer_eq
        · rw [tokenize_of_not_isEnd notEnd]
          exact stops.tokenize_eq
  case case3 lexer pulled notInvalid isEnd =>
    rw [shownEntries_of_isEnd ((Bool.not_eq_false _).mp isEnd)] at shown
    cases before with
    | nil =>
        obtain ⟨rfl, _⟩ := List.cons.inj shown
        exact absurd invalid notInvalid
    | cons first before =>
        have tooMany := congrArg List.length shown
        simp at tooMany

namespace StopsBehind

variable {entry : Entry} {others : List Entry} {behind : Lexer}

theorem lastError_eq (stops : lexer.StopsBehind entry others behind) :
    lexer.tokenizeStrict.lexer.lastError =
      some s!"invalid token at position {entry.stop + 1} near {entry.token.text}" := by
  rw [stops.lexer_eq]
  simp only [recordError, errorReport, errorPosition, stops.context_eq, stops.position_eq]
  rfl

theorem position_strict (stops : lexer.StopsBehind entry others behind) :
    lexer.tokenizeStrict.lexer.position = entry.stop := by
  rw [stops.lexer_eq]
  exact stops.position_eq

/-- Tokenizing goes on behind the error as if it had never stopped there. -/
theorem tokenize_strict (stops : lexer.StopsBehind entry others behind) :
    lexer.tokenizeStrict.lexer.tokenize.answer = others.map Entry.token ∧
      lexer.tokenizeStrict.lexer.tokenize.lexer =
        { lexer.tokenize.lexer with lastError := lexer.tokenizeStrict.lexer.lastError } := by
  have noted : lexer.tokenizeStrict.lexer =
      behind.withNotes lexer.tokenizeStrict.lexer.lastError behind.result := by
    rw [stops.lexer_eq]
    rfl
  have kept : behind.result = lexer.tokenize.lexer.result := by
    rw [← stops.tokenize_eq, ← result_tokenize]
  rw [noted, tokenize_withNotes, kept]
  refine ⟨?_, ?_⟩
  · rw [← stops.shown_eq, ← answer_tokenize_shown]
    rfl
  · simp only [Reply.withNotes, stops.tokenize_eq]
    rfl

end StopsBehind

/-- Strict tokenizing does not get past an invalid token. -/
theorem valid_of_tokenizeStrict {tokens : List Token}
    (succeeded : lexer.tokenizeStrict.answer = .ok tokens) :
    ∀ token ∈ lexer.tokenize.answer, token.isInvalid = false := by
  cases first : lexer.shownEntries.find? (·.token.isInvalid) with
  | none =>
      intro token member
      rw [answer_tokenize_shown] at member
      obtain ⟨entry, shown, rfl⟩ := List.mem_map.mp member
      exact (Bool.not_eq_true _).mp (List.find?_eq_none.mp first entry shown)
  | some entry =>
      obtain ⟨invalid, before, others, shown, valid⟩ := List.find?_eq_some_iff_append.mp first
      obtain ⟨behind, stops⟩ := exists_stopsBehind shown (by simpa using valid) invalid
      rw [stops.answer_eq] at succeeded
      cases succeeded

end Lexer

/-- Strict and lenient tokenizing agree, from every state of a lexer.  Strict
tokenizing succeeds exactly if no token is invalid; then it gives the same tokens,
the same log and the same state, and leaves the last error as it was.  Otherwise
it stops at the end of the first invalid token.  The answer names the place of
that token and the record names the position behind it, both counted from one.
Tokenizing again gives exactly the tokens behind, and comes to the same end. -/
theorem strict_agrees_with_lenient (lexer : Lexer) :
    let lenient := lexer.tokenize
    let strict := lexer.tokenizeStrict
    lenient.answer = lexer.shownEntries.map Entry.token ∧
      ((∃ tokens, strict.answer = .ok tokens) ↔
        ∀ token ∈ lenient.answer, token.isInvalid = false) ∧
      ((∀ token ∈ lenient.answer, token.isInvalid = false) →
        strict = lenient.map .ok ∧ strict.lexer.lastError = lexer.lastError) ∧
      ∀ before entry others, lexer.shownEntries = before ++ entry :: others →
        (∀ earlier ∈ before, earlier.token.isInvalid = false) → entry.token.isInvalid = true →
          strict.answer =
              .error (.lexical s!"invalid token '{entry.token.text}'" (entry.token.offset + 1)) ∧
            strict.lexer.lastError =
              some s!"invalid token at position {entry.stop + 1} near {entry.token.text}" ∧
            strict.lexer.position = entry.stop ∧
            strict.lexer.tokenize.answer = others.map Entry.token ∧
            strict.lexer.tokenize.lexer =
              { lenient.lexer with lastError := strict.lexer.lastError } := by
  intro lenient strict
  refine ⟨Lexer.answer_tokenize_shown lexer, ⟨?_, ?_⟩, ?_, ?_⟩
  · rintro ⟨tokens, succeeded⟩
    exact Lexer.valid_of_tokenizeStrict succeeded
  · intro valid
    have same : strict = lenient.map .ok := Lexer.tokenizeStrict_of_valid valid
    rw [same]
    exact ⟨lenient.answer, rfl⟩
  · intro valid
    have same : strict = lenient.map .ok := Lexer.tokenizeStrict_of_valid valid
    refine ⟨same, ?_⟩
    rw [same]
    exact Lexer.lastError_tokenize lexer
  · intro before entry others shown valid invalid
    obtain ⟨behind, stops⟩ := Lexer.exists_stopsBehind shown valid invalid
    exact ⟨stops.answer_eq, stops.lastError_eq, stops.position_strict, stops.tokenize_strict⟩

/-- A comment is skipped, a wrong number stops the first call, and a string that is
never closed stops the second one. -/
theorem strict_agrees_with_lenient_twice :
    let lexer := (Lexer.start (ascii "? /* ! */ 08 ; 'it") .default).after [.scan]
    let number : Entry :=
      { token := { kind := .invalid, value := ascii "08", offset := 10 }, stop := 12 }
    let mark : Entry := { token := Token.bare (.punctuation ';'.toUInt8) 13, stop := 14 }
    let text : Entry :=
      { token := { kind := .invalid, value := ascii "it", offset := 15 }, stop := 18 }
    let final : Entry := { token := Token.bare .endOfInput 18, stop := 18 }
    let first := lexer.tokenizeStrict
    let second := first.lexer.tokenizeStrict
    lexer.shownEntries = [] ++ number :: [mark, text, final] ∧
      first.answer = .error (.lexical "invalid token '08'" 11) ∧
      first.lexer.position = 12 ∧
      first.lexer.tokenize.answer = [mark.token, text.token, final.token] ∧
      first.lexer.shownEntries = [mark] ++ text :: [final] ∧
      second.lexer.lastError = some "invalid token at position 19 near it" ∧
      second.lexer.tokenize.answer = [final.token] := by
  intro lexer number mark text final first second
  have shown : lexer.shownEntries = [] ++ number :: [mark, text, final] := by decide +kernel
  have shownBehind : first.lexer.shownEntries = [mark] ++ text :: [final] := by decide +kernel
  obtain ⟨_, _, _, stops⟩ := strict_agrees_with_lenient lexer
  obtain ⟨_, _, _, stopsAgain⟩ := strict_agrees_with_lenient first.lexer
  obtain ⟨answer, _, position, others, _⟩ := stops [] number _ shown (by simp) rfl
  obtain ⟨_, recorded, _, othersAgain, _⟩ :=
    stopsAgain [mark] text _ shownBehind (by decide) rfl
  have said : s!"invalid token '{number.token.text}'" = "invalid token '08'" := by
    decide +kernel
  have noted : s!"invalid token at position {text.stop + 1} near {text.token.text}" =
      "invalid token at position 19 near it" := by
    decide +kernel
  rw [said] at answer
  rw [noted] at recorded
  exact ⟨shown, answer, position, others, shownBehind, recorded, othersAgain⟩

end SqlLexer
