import SqlLexer.Proofs.Bytewise.Front
import SqlLexer.Proofs.Tiling

/-!
# Sessions byte by byte

The calls of a session with the faults of reading kept in sight.  A scan that
moves by single bytes has the result of the scan that takes a lexeme at once,
from every state of a lexer, and the longer calls are built on scans alone; so
no session ever meets a fault.
-/

namespace SqlLexer

namespace Lexer

/-- Reads the next token byte by byte, comments included. -/
def scanBytewise (lexer : Lexer) : Except EndOfInput (Token × Lexer) :=
  if lexer.isStopped then .ok (Token.bare .endOfInput lexer.position, lexer)
  else do
    let (_, cursor) ← BufferReader.bumpWhile Byte.isBlank lexer.cursor []
    match cursor.peek with
    | none => return (Token.bare .endOfInput cursor.position, { lexer with cursor })
    | some first => do
      let (token, next) ← cursor.readFront first
      let placeholders :=
        if first == '?'.toUInt8 then lexer.placeholders + 1 else lexer.placeholders
      return (token, { lexer with cursor := next, placeholders })

/-- Reading byte by byte comes to the same token and the same state, without a fault. -/
theorem scanBytewise_eq (lexer : Lexer) : lexer.scanBytewise = .ok lexer.scan := by
  cases running : lexer.isStopped with
  | true =>
      rw [scan_stopped running, scanBytewise, if_pos running]
  | false =>
      have goesOn : ¬lexer.isStopped = true := by
        rw [running]
        exact Bool.false_ne_true
      have skips : BufferReader.bumpWhile Byte.isBlank lexer.cursor [] =
          .ok (lexer.cursor.rest.takeWhile Byte.isBlank, lexer.cursor.skipBlanks) :=
        BufferReader.bumpWhile_copies _ _ _
      rw [scanBytewise, if_neg goesOn, skips]
      simp only [bind, Except.bind]
      cases front : lexer.cursor.skipBlanks.rest with
      | nil =>
          rw [scan_end running front, Cursor.peek, front]
          rfl
      | cons first rest =>
          rw [scan_front running front, Cursor.peek_of_rest front]
          simp only [Cursor.readFront_eq front, Lexeme.isPlaceholder_ofFront]
          split <;> rfl

theorem scan_of_scanBytewise {lexer next : Lexer} {token : Token}
    (scanned : lexer.scanBytewise = .ok (token, next)) : lexer.scan = (token, next) :=
  Except.ok.inj ((scanBytewise_eq lexer).symm.trans scanned)

theorem remaining_lt_of_scanBytewise {lexer next : Lexer} {token : Token}
    (scanned : lexer.scanBytewise = .ok (token, next)) (notEnd : token.isEnd = false) :
    next.remaining < lexer.remaining := by
  have same := scan_of_scanBytewise scanned
  have read : lexer.scan.1.isEnd = false := by
    rw [same]
    exact notEnd
  have shorter := remaining_scan_lt read
  rw [same] at shorter
  exact shorter

/-!
## Pulls

Each loop is the loop of the call whose name it prolongs, with a scan that may
fault in the place of one that cannot.
-/

def lexBytewise (lexer : Lexer) : Except EndOfInput (Reply Token) :=
  match _ : lexer.scanBytewise with
  | .error fault => .error fault
  | .ok (token, next) =>
    if _ : lexer.withholds token = true then next.lexBytewise
    else .ok (next.handOut token)
termination_by lexer.remaining
decreasing_by exact remaining_lt_of_scanBytewise ‹_› (isEnd_of_withholds ‹_›)

theorem lexBytewise_eq (lexer : Lexer) : lexer.lexBytewise = .ok lexer.lex := by
  fun_induction lexBytewise lexer with
  | case1 lexer fault faulted =>
      rw [scanBytewise_eq] at faulted
      cases faulted
  | case2 lexer token next scanned withheld ih =>
      have same := scan_of_scanBytewise scanned
      have withheldHere : lexer.withholds lexer.scan.1 = true := by
        rw [same]
        exact withheld
      rw [ih, lex_of_withholds withheldHere, same]
  | case3 lexer token next scanned visible =>
      have same := scan_of_scanBytewise scanned
      have visibleHere : ¬lexer.withholds lexer.scan.1 = true := by
        rw [same]
        exact visible
      rw [lex_of_not_withholds visibleHere, same]

theorem lex_of_lexBytewise {lexer : Lexer} {pulled : Reply Token}
    (lexed : lexer.lexBytewise = .ok pulled) : lexer.lex = pulled :=
  Except.ok.inj ((lexBytewise_eq lexer).symm.trans lexed)

theorem remaining_lt_of_lexBytewise {lexer : Lexer} {pulled : Reply Token}
    (lexed : lexer.lexBytewise = .ok pulled) (notEnd : pulled.answer.isEnd = false) :
    pulled.lexer.remaining < lexer.remaining := by
  cases lex_of_lexBytewise lexed
  exact remaining_lex_lt notEnd

def tokenizeBytewise (lexer : Lexer) : Except EndOfInput (Reply (List Token)) :=
  match _ : lexer.lexBytewise with
  | .error fault => .error fault
  | .ok pulled =>
    if _ : pulled.answer.isEnd = false then do
      let others ← pulled.lexer.tokenizeBytewise
      return {
        answer := pulled.answer :: others.answer
        lexer := others.lexer
        log := pulled.log ++ others.log }
    else return pulled.map fun token => [token]
termination_by lexer.remaining
decreasing_by exact remaining_lt_of_lexBytewise ‹_› ‹_›

def tokenizeStrictBytewise (lexer : Lexer) :
    Except EndOfInput (Reply (Except Error (List Token))) :=
  match _ : lexer.lexBytewise with
  | .error fault => .error fault
  | .ok pulled =>
    if pulled.answer.isInvalid then
      let recorded := pulled.lexer.recordError "invalid token"
      return {
        answer := .error (invalidTokenError pulled.answer)
        lexer := recorded.lexer
        log := pulled.log ++ recorded.log }
    else if _ : pulled.answer.isEnd = false then do
      let others ← pulled.lexer.tokenizeStrictBytewise
      return {
        answer := others.answer.map (pulled.answer :: ·)
        lexer := others.lexer
        log := pulled.log ++ others.log }
    else return pulled.map fun token => .ok [token]
termination_by lexer.remaining
decreasing_by exact remaining_lt_of_lexBytewise ‹_› ‹_›

def nextBytewise (lexer : Lexer) : Except EndOfInput (Reply (Option Token)) := do
  let pulled ← lexer.lexBytewise
  return pulled.map fun token => if token.isEnd then none else some token

def takeBytewise (lexer : Lexer) : Nat → Except EndOfInput (Reply (List Token))
  | 0 => return { answer := [], lexer, log := [] }
  | count + 1 => do
    let pulled ← lexer.nextBytewise
    match pulled.answer with
    | none => return pulled.map fun _ => []
    | some token => do
      let others ← pulled.lexer.takeBytewise count
      return {
        answer := token :: others.answer
        lexer := others.lexer
        log := pulled.log ++ others.log }

theorem tokenizeBytewise_eq (lexer : Lexer) : lexer.tokenizeBytewise = .ok lexer.tokenize := by
  fun_induction tokenizeBytewise lexer with
  | case1 lexer fault faulted =>
      rw [lexBytewise_eq] at faulted
      cases faulted
  | case2 lexer pulled lexed notEnd ih =>
      cases lex_of_lexBytewise lexed
      rw [ih, tokenize_of_not_isEnd notEnd]
      rfl
  | case3 lexer pulled lexed isEnd =>
      cases lex_of_lexBytewise lexed
      rw [tokenize_of_isEnd ((Bool.not_eq_false _).mp isEnd)]
      rfl

theorem tokenizeStrictBytewise_eq (lexer : Lexer) :
    lexer.tokenizeStrictBytewise = .ok lexer.tokenizeStrict := by
  fun_induction tokenizeStrictBytewise lexer with
  | case1 lexer fault faulted =>
      rw [lexBytewise_eq] at faulted
      cases faulted
  | case2 lexer pulled lexed invalid =>
      cases lex_of_lexBytewise lexed
      rw [tokenizeStrict_of_isInvalid invalid]
      rfl
  | case3 lexer pulled lexed valid notEnd ih =>
      cases lex_of_lexBytewise lexed
      rw [ih, tokenizeStrict_of_not_isEnd ((Bool.not_eq_true _).mp valid) notEnd]
      rfl
  | case4 lexer pulled lexed valid isEnd =>
      cases lex_of_lexBytewise lexed
      rw [tokenizeStrict_of_isEnd ((Bool.not_eq_false _).mp isEnd)]
      rfl

theorem nextBytewise_eq (lexer : Lexer) : lexer.nextBytewise = .ok lexer.next := by
  rw [nextBytewise, lexBytewise_eq]
  rfl

theorem next_of_nextBytewise {lexer : Lexer} {pulled : Reply (Option Token)}
    (given : lexer.nextBytewise = .ok pulled) : lexer.next = pulled :=
  Except.ok.inj ((nextBytewise_eq lexer).symm.trans given)

theorem remaining_lt_of_nextBytewise {lexer : Lexer} {pulled : Reply (Option Token)}
    {token : Token} (given : lexer.nextBytewise = .ok pulled)
    (something : pulled.answer = some token) : pulled.lexer.remaining < lexer.remaining := by
  cases next_of_nextBytewise given
  exact remaining_next_lt something

def collectBytewise (lexer : Lexer) : Except EndOfInput (Reply (List Token)) :=
  match _ : lexer.nextBytewise with
  | .error fault => .error fault
  | .ok pulled =>
    match _ : pulled.answer with
    | none => return pulled.map fun _ => []
    | some token => do
      let others ← pulled.lexer.collectBytewise
      return {
        answer := token :: others.answer
        lexer := others.lexer
        log := pulled.log ++ others.log }
termination_by lexer.remaining
decreasing_by exact remaining_lt_of_nextBytewise ‹_› ‹_›

theorem collectBytewise_eq (lexer : Lexer) : lexer.collectBytewise = .ok lexer.collect := by
  fun_induction collectBytewise lexer with
  | case1 lexer fault faulted =>
      rw [nextBytewise_eq] at faulted
      cases faulted
  | case2 lexer pulled given nothing =>
      cases next_of_nextBytewise given
      rw [collect_of_none nothing]
      rfl
  | case3 lexer pulled given token something ih =>
      cases next_of_nextBytewise given
      rw [ih, collect_of_some something]
      rfl

theorem takeBytewise_eq (lexer : Lexer) (count : Nat) :
    lexer.takeBytewise count = .ok (lexer.take count) := by
  induction count generalizing lexer with
  | zero => rfl
  | succ count ih =>
      rw [takeBytewise, nextBytewise_eq, take]
      simp only [bind, Except.bind, ih]
      cases lexer.next.answer <;> rfl

/-! ## Commands -/

/-- A command with the faults of its reading.  The calls that only keep books read nothing. -/
def performBytewise (lexer : Lexer) (command : Command) : Except EndOfInput (Reply Answer) :=
  match command with
  | .scan => do
    let (token, next) ← lexer.scanBytewise
    return { answer := .token token, lexer := next, log := [] }
  | .lex => do return (← lexer.lexBytewise).map .token
  | .next => do return (← lexer.nextBytewise).map .nextToken
  | .take count => do return (← lexer.takeBytewise count).map .tokens
  | .collect => do return (← lexer.collectBytewise).map .tokens
  | .tokenize => do return (← lexer.tokenizeBytewise).map .tokens
  | .tokenizeStrict => do return (← lexer.tokenizeStrictBytewise).map .ofStrict
  | _ => return lexer.perform command

def runBytewise (lexer : Lexer) : List Command → Except EndOfInput (List (Reply Answer))
  | [] => return []
  | command :: commands => do
    let reply ← lexer.performBytewise command
    return reply :: (← reply.lexer.runBytewise commands)

theorem performBytewise_eq (lexer : Lexer) (command : Command) :
    lexer.performBytewise command = .ok (lexer.perform command) := by
  cases command with
  | scan =>
      rw [performBytewise, scanBytewise_eq]
      rfl
  | lex =>
      rw [performBytewise, lexBytewise_eq]
      rfl
  | next =>
      rw [performBytewise, nextBytewise_eq]
      rfl
  | take count =>
      rw [performBytewise, takeBytewise_eq]
      rfl
  | collect =>
      rw [performBytewise, collectBytewise_eq]
      rfl
  | tokenize =>
      rw [performBytewise, tokenizeBytewise_eq]
      rfl
  | tokenizeStrict =>
      rw [performBytewise, tokenizeStrictBytewise_eq]
      rfl
  | forceEnd | setAllowComments | recordError | putResult | takeResult | inspect => rfl

theorem runBytewise_eq (lexer : Lexer) (commands : List Command) :
    lexer.runBytewise commands = .ok (lexer.run commands) := by
  induction commands generalizing lexer with
  | nil => rfl
  | cons command commands ih =>
      rw [runBytewise, performBytewise_eq]
      simp only [bind, Except.bind, ih]
      rfl

end Lexer

/-- No session reads past the end of its input, whatever its commands are and
in whatever order they come: with every byte read by a cursor that would fault
there, each command still gives its reply, and none leaves the position behind
the input. -/
theorem run_never_faults (input : Bytes) (config : Config) (commands : List Command) :
    (Lexer.start input config).runBytewise commands =
        .ok ((Lexer.start input config).run commands) ∧
      ∀ reply ∈ (Lexer.start input config).run commands,
        reply.lexer.position ≤ input.length := by
  refine ⟨Lexer.runBytewise_eq _ commands, ?_⟩
  intro reply member
  have stands := (Lexer.invariant_standsIn input).run commands
    (Lexer.standsIn_start input config) reply member
  exact stands.position_le

/-- The input ends behind a backslash, in the middle of an escape. -/
theorem run_never_faults_open_escape :
    let input := ascii " '\\"
    let lexer := Lexer.start input .default
    let commands : List Command := [.lex, .scan, .forceEnd, .tokenize]
    lexer.runBytewise commands = .ok (lexer.run commands) ∧
      (∀ reply ∈ lexer.run commands, reply.lexer.position ≤ input.length) ∧
      (lexer.run commands).map (·.lexer.position) = [3, 3, 3, 3] := by
  intro input lexer commands
  have never := run_never_faults input .default commands
  exact ⟨never.1, never.2, by decide +kernel⟩

end SqlLexer
