import SqlLexer.Proofs.Pull
import SqlLexer.Proofs.TokenStream

/-!
# A session reads one stream

There are seven ways to pull tokens, and comments may be shown or withheld
between any two calls.  All of them act on the one stream of the text: a
session is always at one index of it, and every answer is a function of that
index.  `StreamReader` is this reading of the stream, without a cursor and
without loops; `Lexer.Follows` relates a lexer to it.
-/

namespace SqlLexer

/-- Where a session stands in a stream. -/
structure StreamReader where
  /-- The number of entries consumed.  It grows behind the end as well. -/
  consumed : Nat
  allowComments : Bool
  deriving DecidableEq, Repr

/-- What a caller sees of one step: the tokens or the error that it got, if the
step pulls at all, and the two counters afterwards. -/
structure Observation where
  pulled : Option Answer
  position : Nat
  placeholders : Nat
  deriving DecidableEq, Repr

/-- The answer of a step that pulls tokens. -/
def Answer.pulled? : Answer → Option Answer
  | .result _ | .nothing => none
  | answer => some answer

def Reply.observe (reply : Reply Answer) : Observation :=
  { pulled := reply.answer.pulled?
    position := reply.lexer.position
    placeholders := reply.lexer.placeholders }

namespace StreamReader

/-- The position behind the last entry consumed. -/
def position (reader : StreamReader) (stream : TokenStream) : Nat :=
  match reader.consumed with
  | 0 => 0
  | last + 1 => (stream.entryAt last).stop

/-- The number of placeholders among the entries consumed. -/
def placeholders (reader : StreamReader) (stream : TokenStream) : Nat :=
  ((List.range reader.consumed).map stream.entryAt).countP (·.token.isPlaceholder)

/-- The entries before the end that are not yet consumed. -/
def ahead (reader : StreamReader) (stream : TokenStream) : List Entry :=
  stream.proper.drop reader.consumed

/-- The entry is a comment that is to be withheld. -/
def withholds (reader : StreamReader) (entry : Entry) : Bool :=
  entry.token.kind.isSkippable && !reader.allowComments

/-- The entries ahead that a grammar gets to see. -/
def shown (reader : StreamReader) (stream : TokenStream) : List Entry :=
  (reader.ahead stream).filter fun entry => !reader.withholds entry

/-- The index of the first entry from here on that is not withheld. -/
def shownIndex (reader : StreamReader) (stream : TokenStream) : Nat :=
  reader.consumed + ((reader.ahead stream).takeWhile reader.withholds).length

/-- The index of the first entry from here on that is invalid. -/
def invalidIndex (reader : StreamReader) (stream : TokenStream) : Nat :=
  reader.consumed + ((reader.ahead stream).takeWhile fun entry => !entry.token.isInvalid).length

def behind (reader : StreamReader) (index : Nat) : StreamReader :=
  { reader with consumed := index + 1 }

def behindEnd (reader : StreamReader) (stream : TokenStream) : StreamReader :=
  reader.behind (max reader.consumed stream.proper.length)

/-- The reader after so many pulls, which stop at the end. -/
def afterPulls (reader : StreamReader) (stream : TokenStream) : Nat → StreamReader
  | 0 => reader
  | count + 1 =>
    let pulled := reader.behind (reader.shownIndex stream)
    if reader.shownIndex stream < stream.proper.length then pulled.afterPulls stream count
    else pulled

/-- All that is left, with the end. -/
def allTokens (reader : StreamReader) (stream : TokenStream) : List Token :=
  (reader.shown stream ++ [stream.final]).map Entry.token

/-- All that is left with the end, unless an invalid entry stands in the way. -/
def strict (reader : StreamReader) (stream : TokenStream) :
    Except Error (List Token) × StreamReader :=
  match stream.proper[reader.invalidIndex stream]? with
  | some entry =>
    (.error (Lexer.invalidTokenError entry.token), reader.behind (reader.invalidIndex stream))
  | none => (.ok (reader.allTokens stream), reader.behindEnd stream)

/-- One step of a session, read off the stream. -/
def perform (reader : StreamReader) (stream : TokenStream) :
    Command → Option Answer × StreamReader
  | .scan =>
    (some (.token (stream.entryAt reader.consumed).token), reader.behind reader.consumed)
  | .lex =>
    (some (.token (stream.entryAt (reader.shownIndex stream)).token),
      reader.behind (reader.shownIndex stream))
  | .next =>
    (some (.nextToken (stream.proper[reader.shownIndex stream]?.map Entry.token)),
      reader.behind (reader.shownIndex stream))
  | .take count =>
    (some (.tokens (((reader.shown stream).take count).map Entry.token)),
      reader.afterPulls stream count)
  | .collect =>
    (some (.tokens ((reader.shown stream).map Entry.token)), reader.behindEnd stream)
  | .tokenize => (some (.tokens (reader.allTokens stream)), reader.behindEnd stream)
  | .tokenizeStrict =>
    (some (.ofStrict (reader.strict stream).1), (reader.strict stream).2)
  | .setAllowComments allowed => (none, { reader with allowComments := allowed })
  | .forceEnd | .recordError _ | .putResult _ | .takeResult _ | .inspect => (none, reader)

def run (reader : StreamReader) (stream : TokenStream) : List Command → List Observation
  | [] => []
  | command :: commands =>
    let step := reader.perform stream command
    { pulled := step.1
      position := step.2.position stream
      placeholders := step.2.placeholders stream } :: step.2.run stream commands

def after (reader : StreamReader) (stream : TokenStream) (commands : List Command) :
    StreamReader :=
  commands.foldl (fun reader command => (reader.perform stream command).2) reader

end StreamReader

/-- The lexer is where the reader is: the rest of the stream lies ahead of it,
and its counters tell what lies behind. -/
structure Lexer.Follows (lexer : Lexer) (stream : TokenStream) (reader : StreamReader) :
    Prop where
  running : lexer.isStopped = false
  stream_eq : lexer.stream = stream.drop reader.consumed
  position_eq : lexer.position = reader.position stream
  placeholders_eq : lexer.placeholders = reader.placeholders stream
  allowComments_eq : lexer.config.allowComments = reader.allowComments

namespace TokenStream

variable {stream : TokenStream} {index : Nat}

theorem entryAt_of_ge (outside : stream.proper.length ≤ index) :
    stream.entryAt index = stream.final := by
  rw [entryAt, List.getD_eq_getElem?_getD, List.getElem?_eq_none outside, Option.getD_none]

theorem entryAt_of_lt (inside : index < stream.proper.length) :
    stream.proper[index]? = some (stream.entryAt index) := by
  rw [entryAt, List.getD_eq_getElem?_getD, List.getElem?_eq_getElem inside, Option.getD_some]

theorem Ends.lt_of_not_isEnd (ends : stream.Ends)
    (notEnd : (stream.entryAt index).token.isEnd = false) : index < stream.proper.length := by
  by_cases inside : index < stream.proper.length
  · exact inside
  · rw [entryAt_of_ge (Nat.le_of_not_lt inside), ends.final_isEnd] at notEnd
    cases notEnd

theorem getElem_eq_entryAt (inside : index < stream.proper.length) :
    stream.proper[index] = stream.entryAt index := by
  have entry := entryAt_of_lt inside
  rw [List.getElem?_eq_getElem inside, Option.some.injEq] at entry
  exact entry

theorem map_entryAt_range (stream : TokenStream) :
    (List.range stream.proper.length).map stream.entryAt = stream.proper := by
  apply List.ext_getElem
  · rw [List.length_map, List.length_range]
  · intro index _ inside
    rw [List.getElem_map, List.getElem_range, getElem_eq_entryAt inside]

theorem Ends.isEnd_entryAt (ends : stream.Ends) (inside : index < stream.proper.length) :
    (stream.entryAt index).token.isEnd = false :=
  ends.proper_isEnd _ (List.mem_of_getElem? (entryAt_of_lt inside))

end TokenStream

namespace StreamReader

variable {reader : StreamReader} {stream : TokenStream}

theorem ahead_of_lt (inside : reader.consumed < stream.proper.length) :
    reader.ahead stream =
      stream.entryAt reader.consumed :: (reader.behind reader.consumed).ahead stream := by
  have entry := TokenStream.getElem_eq_entryAt inside
  rw [ahead, List.drop_eq_getElem_cons inside, entry]
  rfl

theorem ahead_of_ge (outside : stream.proper.length ≤ reader.consumed) :
    reader.ahead stream = [] :=
  List.drop_eq_nil_of_le outside

theorem consumed_lt_of_withholds (ends : stream.Ends)
    (withheld : reader.withholds (stream.entryAt reader.consumed) = true) :
    reader.consumed < stream.proper.length := by
  apply ends.lt_of_not_isEnd
  simp only [withholds, Kind.isSkippable, Bool.and_eq_true, beq_iff_eq] at withheld
  simp [Token.isEnd, withheld.1]

theorem shownIndex_behind (ends : stream.Ends)
    (withheld : reader.withholds (stream.entryAt reader.consumed) = true) :
    (reader.behind reader.consumed).shownIndex stream = reader.shownIndex stream := by
  have inside := consumed_lt_of_withholds ends withheld
  have sameFilter : (reader.behind reader.consumed).withholds = reader.withholds := rfl
  rw [shownIndex, shownIndex, sameFilter, ahead_of_lt inside,
    List.takeWhile_cons_of_pos withheld, List.length_cons]
  simp only [behind]
  omega

theorem shownIndex_eq_consumed
    (visible : ¬reader.withholds (stream.entryAt reader.consumed) = true) :
    reader.shownIndex stream = reader.consumed := by
  by_cases inside : reader.consumed < stream.proper.length
  · rw [shownIndex, ahead_of_lt inside, List.takeWhile_cons_of_neg visible]
    rfl
  · rw [shownIndex, ahead_of_ge (Nat.le_of_not_lt inside)]
    rfl

theorem dropWhile_ahead (reader : StreamReader) (stream : TokenStream) :
    (reader.ahead stream).dropWhile reader.withholds =
      stream.proper.drop (reader.shownIndex stream) := by
  rw [← drop_length_takeWhile, ahead, List.drop_drop, shownIndex, ahead]

theorem shown_eq_filter_drop (reader : StreamReader) (stream : TokenStream) :
    reader.shown stream =
      (stream.proper.drop (reader.shownIndex stream)).filter
        fun entry => !reader.withholds entry := by
  have withheldOnly : ((reader.ahead stream).takeWhile reader.withholds).filter
      (fun entry => !reader.withholds entry) = [] := by
    rw [List.filter_eq_nil_iff]
    intro entry member
    simp [List.all_eq_true.mp List.all_takeWhile entry member]
  rw [← dropWhile_ahead, shown]
  calc
    (reader.ahead stream).filter _ =
        ((reader.ahead stream).takeWhile reader.withholds ++
          (reader.ahead stream).dropWhile reader.withholds).filter _ := by
      rw [List.takeWhile_append_dropWhile]
    _ = _ := by rw [List.filter_append, withheldOnly, List.nil_append]

theorem shown_of_ge (outside : stream.proper.length ≤ reader.shownIndex stream) :
    reader.shown stream = [] := by
  rw [shown_eq_filter_drop, List.drop_eq_nil_of_le outside, List.filter_nil]

theorem shown_of_lt (inside : reader.shownIndex stream < stream.proper.length) :
    reader.shown stream =
      stream.entryAt (reader.shownIndex stream) ::
        (reader.behind (reader.shownIndex stream)).shown stream := by
  have entry := TokenStream.getElem_eq_entryAt inside
  have visible : reader.withholds (stream.entryAt (reader.shownIndex stream)) = false := by
    have stopped := List.head?_dropWhile_not reader.withholds (reader.ahead stream)
    rw [dropWhile_ahead, List.drop_eq_getElem_cons inside, entry] at stopped
    exact stopped
  rw [shown_eq_filter_drop, List.drop_eq_getElem_cons inside, entry,
    List.filter_cons_of_pos (by rw [visible]; rfl)]
  rfl

theorem consumed_le_shownIndex (reader : StreamReader) (stream : TokenStream) :
    reader.consumed ≤ reader.shownIndex stream :=
  Nat.le_add_right _ _

theorem behindEnd_of_ge (outside : stream.proper.length ≤ reader.shownIndex stream) :
    reader.behindEnd stream = reader.behind (reader.shownIndex stream) := by
  have bound : ((reader.ahead stream).takeWhile reader.withholds).length ≤
      stream.proper.length - reader.consumed := by
    rw [← List.length_drop]
    exact (List.takeWhile_sublist _).length_le
  rw [shownIndex] at outside
  rw [behindEnd, shownIndex]
  congr 1
  omega

theorem behindEnd_of_lt (inside : reader.shownIndex stream < stream.proper.length) :
    (reader.behind (reader.shownIndex stream)).behindEnd stream = reader.behindEnd stream := by
  have early := reader.consumed_le_shownIndex stream
  simp only [behindEnd, behind]
  congr 2
  omega

theorem isInvalid_of_withholds {entry : Entry} (withheld : reader.withholds entry = true) :
    entry.token.isInvalid = false := by
  simp only [withholds, Kind.isSkippable, Bool.and_eq_true, beq_iff_eq] at withheld
  simp [Token.isInvalid, withheld.1]

theorem invalidIndex_eq (reader : StreamReader) (stream : TokenStream) :
    reader.invalidIndex stream =
      reader.shownIndex stream +
        ((stream.proper.drop (reader.shownIndex stream)).takeWhile
          fun entry => !entry.token.isInvalid).length := by
  let hidden := (reader.ahead stream).takeWhile reader.withholds
  have validOnly : ∀ entry ∈ hidden, (!entry.token.isInvalid) = true := by
    intro entry member
    have withheld := List.all_eq_true.mp List.all_takeWhile entry member
    rw [isInvalid_of_withholds withheld]
    rfl
  have split : reader.ahead stream = hidden ++ stream.proper.drop (reader.shownIndex stream) := by
    rw [← dropWhile_ahead, List.takeWhile_append_dropWhile]
  rw [invalidIndex, split, List.takeWhile_append_of_pos validOnly, List.length_append]
  exact (Nat.add_assoc _ _ _).symm

theorem invalidIndex_behind (inside : reader.shownIndex stream < stream.proper.length)
    (valid : (stream.entryAt (reader.shownIndex stream)).token.isInvalid = false) :
    (reader.behind (reader.shownIndex stream)).invalidIndex stream =
      reader.invalidIndex stream := by
  have entry := TokenStream.getElem_eq_entryAt inside
  rw [invalidIndex_eq reader, List.drop_eq_getElem_cons inside, entry,
    List.takeWhile_cons_of_pos (by rw [valid]; rfl), List.length_cons, invalidIndex]
  simp only [behind, ahead]
  omega

theorem invalidIndex_eq_shownIndex
    (invalid : (stream.entryAt (reader.shownIndex stream)).token.isInvalid = true)
    (inside : reader.shownIndex stream < stream.proper.length) :
    reader.invalidIndex stream = reader.shownIndex stream := by
  have entry := TokenStream.getElem_eq_entryAt inside
  rw [invalidIndex_eq, List.drop_eq_getElem_cons inside, entry,
    List.takeWhile_cons_of_neg (by rw [invalid]; decide)]
  rfl

theorem strict_of_isInvalid
    (invalid : (stream.entryAt (reader.shownIndex stream)).token.isInvalid = true)
    (inside : reader.shownIndex stream < stream.proper.length) :
    reader.strict stream =
      (.error (Lexer.invalidTokenError (stream.entryAt (reader.shownIndex stream)).token),
        reader.behind (reader.shownIndex stream)) := by
  rw [strict, invalidIndex_eq_shownIndex invalid inside, TokenStream.entryAt_of_lt inside]

theorem strict_of_lt (inside : reader.shownIndex stream < stream.proper.length)
    (valid : (stream.entryAt (reader.shownIndex stream)).token.isInvalid = false) :
    reader.strict stream =
      (let others := (reader.behind (reader.shownIndex stream)).strict stream
       (others.1.map ((stream.entryAt (reader.shownIndex stream)).token :: ·), others.2)) := by
  rw [strict, strict, invalidIndex_behind inside valid, behindEnd_of_lt inside]
  cases stream.proper[reader.invalidIndex stream]? with
  | some entry => rfl
  | none =>
      rw [allTokens, shown_of_lt inside]
      rfl

theorem strict_of_ge (outside : stream.proper.length ≤ reader.shownIndex stream) :
    reader.strict stream =
      (.ok [stream.final.token], reader.behind (reader.shownIndex stream)) := by
  have late : stream.proper.length ≤ reader.invalidIndex stream := by
    rw [invalidIndex_eq]
    exact Nat.le_add_right_of_le outside
  rw [strict, List.getElem?_eq_none late, behindEnd_of_ge outside, allTokens,
    shown_of_ge outside]
  rfl

end StreamReader

namespace Lexer.Follows

variable {lexer : Lexer} {stream : TokenStream} {reader : StreamReader}

theorem start (input : Bytes) (config : Config) :
    (Lexer.start input config).Follows (Lexer.start input config).stream
      { consumed := 0, allowComments := config.allowComments } where
  running := rfl
  stream_eq := rfl
  position_eq := rfl
  placeholders_eq := rfl
  allowComments_eq := rfl

/-- A scan takes the entry at the index, whatever is shown or withheld. -/
theorem scan (follows : lexer.Follows stream reader) :
    lexer.scan.1 = (stream.entryAt reader.consumed).token ∧
      lexer.scan.2.Follows stream (reader.behind reader.consumed) := by
  have next : stream.entryAt reader.consumed =
      { token := lexer.scan.1, stop := lexer.scan.2.position } := by
    rw [← Lexer.entryAt_stream_zero, follows.stream_eq, TokenStream.entryAt_drop, Nat.add_zero]
  refine ⟨by rw [next], ?_⟩
  constructor
  · rw [Lexer.isStopped_scan, follows.running]
  · rw [Lexer.stream_scan, follows.stream_eq, TokenStream.drop_drop]
    rfl
  · rw [StreamReader.position, StreamReader.behind]
    simp only [next]
  · rw [Lexer.placeholders_scan, follows.placeholders_eq, StreamReader.placeholders,
      StreamReader.placeholders, StreamReader.behind, List.range_succ, List.map_append,
      List.countP_append]
    simp [next, List.countP_cons]
  · rw [Lexer.config_scan, follows.allowComments_eq]
    rfl

/-- Nothing but the cursor, the stop mark and the counter matters, and for the
reader the comment switch. -/
theorem frame (follows : lexer.Follows stream reader) {other : Lexer} {allowed : Bool}
    (sameCursor : other.cursor = lexer.cursor) (sameStop : other.isStopped = lexer.isStopped)
    (samePlaceholders : other.placeholders = lexer.placeholders)
    (comments : other.config.allowComments = allowed) :
    other.Follows stream { reader with allowComments := allowed } := by
  have otherRunning : other.isStopped = false := sameStop.trans follows.running
  constructor
  · exact otherRunning
  · rw [Lexer.stream_congr otherRunning follows.running sameCursor]
    exact follows.stream_eq
  · rw [Lexer.position, sameCursor]
    exact follows.position_eq
  · rw [samePlaceholders]
    exact follows.placeholders_eq
  · exact comments

theorem handOut (follows : lexer.Follows stream reader) (token : Token) :
    (lexer.handOut token).lexer.Follows stream reader :=
  follows.frame rfl rfl rfl follows.allowComments_eq

theorem recordError (follows : lexer.Follows stream reader) (message : String) :
    (lexer.recordError message).lexer.Follows stream reader :=
  follows.frame rfl rfl rfl follows.allowComments_eq

theorem takeResult (follows : lexer.Follows stream reader) (expected : TypeCode) :
    (lexer.takeResult expected).2.Follows stream reader := by
  obtain ⟨result, taken⟩ := lexer.takeResult_eq expected
  rw [taken]
  exact follows.frame rfl rfl rfl follows.allowComments_eq

theorem withholds_scan (follows : lexer.Follows stream reader) :
    lexer.withholds lexer.scan.1 = reader.withholds (stream.entryAt reader.consumed) := by
  rw [Lexer.withholds, StreamReader.withholds, follows.scan.1, follows.allowComments_eq]

/-- A pull skips what is withheld and takes the entry behind. -/
theorem lex (ends : stream.Ends) (follows : lexer.Follows stream reader) :
    lexer.lex.answer = (stream.entryAt (reader.shownIndex stream)).token ∧
      lexer.lex.lexer.Follows stream (reader.behind (reader.shownIndex stream)) := by
  induction lexer using Lexer.lex.induct generalizing reader
  case case1 lexer scanned withheld ih =>
    have hidden : reader.withholds (stream.entryAt reader.consumed) = true :=
      follows.withholds_scan ▸ withheld
    have pulled := ih follows.scan.2
    rw [StreamReader.shownIndex_behind ends hidden] at pulled
    rw [lex_of_withholds withheld]
    exact pulled
  case case2 lexer scanned visible =>
    have shown : ¬reader.withholds (stream.entryAt reader.consumed) = true :=
      follows.withholds_scan ▸ visible
    rw [lex_of_not_withholds visible, StreamReader.shownIndex_eq_consumed shown]
    exact ⟨follows.scan.1, follows.scan.2.handOut _⟩

theorem isEnd_lex (ends : stream.Ends) (follows : lexer.Follows stream reader) :
    lexer.lex.answer.isEnd = true ↔ stream.proper.length ≤ reader.shownIndex stream := by
  rw [(follows.lex ends).1]
  constructor
  · intro isEnd
    apply Nat.le_of_not_lt
    intro inside
    rw [ends.isEnd_entryAt inside] at isEnd
    cases isEnd
  · intro outside
    rw [TokenStream.entryAt_of_ge outside, ends.final_isEnd]

theorem next (ends : stream.Ends) (follows : lexer.Follows stream reader) :
    lexer.next.answer = stream.proper[reader.shownIndex stream]?.map Entry.token := by
  have pulled := (follows.lex ends).1
  have isEnd := follows.isEnd_lex ends
  rw [Lexer.next, Reply.map]
  by_cases inside : reader.shownIndex stream < stream.proper.length
  · rw [if_neg (fun atEnd => Nat.not_le_of_lt inside (isEnd.mp atEnd)), pulled,
      TokenStream.entryAt_of_lt inside, Option.map_some]
  · have outside := Nat.le_of_not_lt inside
    rw [if_pos (isEnd.mpr outside), List.getElem?_eq_none outside, Option.map_none]

theorem take (ends : stream.Ends) (follows : lexer.Follows stream reader) (count : Nat) :
    (lexer.take count).answer = ((reader.shown stream).take count).map Entry.token ∧
      (lexer.take count).lexer.Follows stream (reader.afterPulls stream count) := by
  induction count generalizing lexer reader with
  | zero => exact ⟨rfl, follows⟩
  | succ count ih =>
      obtain ⟨pulled, followsAfter⟩ := follows.lex ends
      have isEnd := follows.isEnd_lex ends
      by_cases inside : reader.shownIndex stream < stream.proper.length
      · have notEnd : lexer.lex.answer.isEnd = false :=
          (Bool.not_eq_true _).mp fun atEnd => Nat.not_le_of_lt inside (isEnd.mp atEnd)
        obtain ⟨others, followsOthers⟩ := ih followsAfter
        rw [take_succ_of_not_isEnd notEnd, StreamReader.shown_of_lt inside,
          StreamReader.afterPulls, if_pos inside]
        refine ⟨?_, followsOthers⟩
        rw [List.take_succ_cons, List.map_cons, pulled, others]
      · have outside := Nat.le_of_not_lt inside
        rw [take_succ_of_isEnd (isEnd.mpr outside), StreamReader.shown_of_ge outside,
          StreamReader.afterPulls, if_neg inside]
        exact ⟨rfl, followsAfter⟩

theorem tokenize (ends : stream.Ends) (follows : lexer.Follows stream reader) :
    lexer.tokenize.answer = reader.allTokens stream ∧
      lexer.tokenize.lexer.Follows stream (reader.behindEnd stream) := by
  induction lexer using Lexer.tokenize.induct generalizing reader
  case case1 lexer pulled notEnd ih =>
    obtain ⟨token, followsAfter⟩ := follows.lex ends
    have inside : reader.shownIndex stream < stream.proper.length := by
      rw [← Nat.not_le, ← follows.isEnd_lex ends, notEnd]
      exact Bool.false_ne_true
    obtain ⟨others, followsOthers⟩ := ih followsAfter
    rw [StreamReader.behindEnd_of_lt inside] at followsOthers
    rw [tokenize_of_not_isEnd notEnd]
    refine ⟨?_, followsOthers⟩
    rw [StreamReader.allTokens, StreamReader.shown_of_lt inside, token, others]
    rfl
  case case2 lexer pulled isEnd =>
    obtain ⟨token, followsAfter⟩ := follows.lex ends
    have isEnd := (Bool.not_eq_false _).mp isEnd
    have outside := (follows.isEnd_lex ends).mp isEnd
    rw [tokenize_of_isEnd isEnd, StreamReader.allTokens, StreamReader.shown_of_ge outside,
      StreamReader.behindEnd_of_ge outside]
    refine ⟨?_, followsAfter⟩
    rw [Reply.map, token, TokenStream.entryAt_of_ge outside]
    rfl

theorem tokenizeStrict (ends : stream.Ends) (follows : lexer.Follows stream reader) :
    lexer.tokenizeStrict.answer = (reader.strict stream).1 ∧
      lexer.tokenizeStrict.lexer.Follows stream (reader.strict stream).2 := by
  induction lexer using Lexer.tokenizeStrict.induct generalizing reader
  case case1 lexer pulled invalid =>
    obtain ⟨token, followsAfter⟩ := follows.lex ends
    have inside : reader.shownIndex stream < stream.proper.length := by
      rw [← Nat.not_le, ← follows.isEnd_lex ends]
      intro isEnd
      simp only [Token.isEnd, Token.isInvalid, beq_iff_eq] at isEnd invalid
      rw [isEnd] at invalid
      cases invalid
    have entryInvalid := invalid
    rw [token] at entryInvalid
    rw [tokenizeStrict_of_isInvalid invalid,
      StreamReader.strict_of_isInvalid entryInvalid inside]
    exact ⟨by rw [token], followsAfter.recordError _⟩
  case case2 lexer pulled valid notEnd ih =>
    obtain ⟨token, followsAfter⟩ := follows.lex ends
    have valid := (Bool.not_eq_true _).mp valid
    have inside : reader.shownIndex stream < stream.proper.length := by
      rw [← Nat.not_le, ← follows.isEnd_lex ends, notEnd]
      exact Bool.false_ne_true
    have entryValid := valid
    rw [token] at entryValid
    obtain ⟨others, followsOthers⟩ := ih followsAfter
    rw [tokenizeStrict_of_not_isEnd valid notEnd, StreamReader.strict_of_lt inside entryValid]
    refine ⟨?_, followsOthers⟩
    dsimp only
    rw [← others, token]
  case case3 lexer pulled valid isEnd =>
    obtain ⟨token, followsAfter⟩ := follows.lex ends
    have isEnd := (Bool.not_eq_false _).mp isEnd
    have outside := (follows.isEnd_lex ends).mp isEnd
    rw [tokenizeStrict_of_isEnd isEnd, StreamReader.strict_of_ge outside]
    refine ⟨?_, followsAfter⟩
    rw [Reply.map, token, TokenStream.entryAt_of_ge outside]

/-- Every step but a forced end is a step on the stream. -/
theorem perform (ends : stream.Ends) (follows : lexer.Follows stream reader)
    {command : Command} (unforced : command ≠ .forceEnd) :
    (lexer.perform command).answer.pulled? = (reader.perform stream command).1 ∧
      (lexer.perform command).lexer.Follows stream (reader.perform stream command).2 := by
  cases command with
  | scan =>
      obtain ⟨token, followsAfter⟩ := follows.scan
      exact ⟨congrArg (some ∘ Answer.token) token, followsAfter⟩
  | lex =>
      obtain ⟨token, followsAfter⟩ := follows.lex ends
      exact ⟨congrArg (some ∘ Answer.token) token, followsAfter⟩
  | next =>
      exact ⟨congrArg (some ∘ Answer.nextToken) (follows.next ends), (follows.lex ends).2⟩
  | take count =>
      obtain ⟨tokens, followsAfter⟩ := follows.take ends count
      exact ⟨congrArg (some ∘ Answer.tokens) tokens, followsAfter⟩
  | collect =>
      obtain ⟨tokens, followsAfter⟩ := follows.tokenize ends
      have withoutEnd : lexer.tokenize.answer.dropLast =
          (reader.shown stream).map Entry.token := by
        rw [tokens, StreamReader.allTokens, List.map_append]
        exact List.dropLast_concat
      rw [perform_collect]
      exact ⟨congrArg (some ∘ Answer.tokens) withoutEnd, followsAfter⟩
  | tokenize =>
      obtain ⟨tokens, followsAfter⟩ := follows.tokenize ends
      exact ⟨congrArg (some ∘ Answer.tokens) tokens, followsAfter⟩
  | tokenizeStrict =>
      obtain ⟨answer, followsAfter⟩ := follows.tokenizeStrict ends
      refine ⟨?_, followsAfter⟩
      simp only [Lexer.perform, Reply.map, StreamReader.perform, answer]
      cases (reader.strict stream).1 <;> rfl
  | forceEnd => exact absurd rfl unforced
  | setAllowComments allowed => exact ⟨rfl, follows.frame rfl rfl rfl rfl⟩
  | recordError message => exact ⟨rfl, follows.recordError message⟩
  | putResult result => exact ⟨rfl, follows.frame rfl rfl rfl follows.allowComments_eq⟩
  | takeResult expected => exact ⟨rfl, follows.takeResult expected⟩
  | inspect => exact ⟨rfl, follows⟩

theorem observe (follows : lexer.Follows stream reader) (pulled : Option Answer) :
    { pulled, position := lexer.position, placeholders := lexer.placeholders : Observation } =
      { pulled
        position := reader.position stream
        placeholders := reader.placeholders stream } := by
  rw [follows.position_eq, follows.placeholders_eq]

theorem run (ends : stream.Ends) (follows : lexer.Follows stream reader)
    {commands : List Command} (unforced : Command.forceEnd ∉ commands) :
    (lexer.run commands).map Reply.observe = reader.run stream commands ∧
      (lexer.after commands).Follows stream (reader.after stream commands) := by
  induction commands generalizing lexer reader with
  | nil => exact ⟨rfl, follows⟩
  | cons command commands ih =>
      have headUnforced : command ≠ .forceEnd := by
        rintro rfl
        exact unforced List.mem_cons_self
      have tailUnforced : Command.forceEnd ∉ commands :=
        fun member => unforced (List.mem_cons_of_mem _ member)
      obtain ⟨answer, followsAfter⟩ := follows.perform ends headUnforced
      obtain ⟨observed, followsEnd⟩ := ih followsAfter tailUnforced
      refine ⟨?_, followsEnd⟩
      rw [Lexer.run, List.map_cons, observed, Reply.observe, answer, followsAfter.observe]
      rfl

end Lexer.Follows

theorem Lexer.placeholders_tokenize (input : Bytes) (config : Config) :
    (start input config).tokenize.lexer.placeholders =
      (TokenStream.ofBytes input).proper.countP (·.token.isPlaceholder) := by
  have ends := ends_stream (start input config)
  have counted := ((Follows.start input config).tokenize ends).2.placeholders_eq
  rw [stream_start] at counted
  have noPlaceholder : (TokenStream.ofBytes input).final.token.isPlaceholder = false := by
    simp [Token.isPlaceholder, TokenStream.kind_final]
  rw [counted, StreamReader.placeholders, StreamReader.behindEnd, StreamReader.behind,
    Nat.zero_max, List.range_succ, List.map_append, List.countP_append,
    TokenStream.map_entryAt_range, List.map_singleton,
    TokenStream.entryAt_of_ge (Nat.le_refl _)]
  simp [noPlaceholder]

/-- Tokenizing a text gives the entries of its stream, without the comments
unless they are allowed. -/
theorem Lexer.answer_tokenize (input : Bytes) (config : Config) :
    (start input config).tokenize.answer =
      ((TokenStream.ofBytes input).entries.filter fun entry =>
        !(entry.token.kind.isSkippable && !config.allowComments)).map Entry.token := by
  have ends := ends_stream (start input config)
  have pulled := ((Follows.start input config).tokenize ends).1
  rw [stream_start] at pulled
  have finalShown : [(TokenStream.ofBytes input).final].filter (fun entry =>
      !(entry.token.kind.isSkippable && !config.allowComments)) =
        [(TokenStream.ofBytes input).final] := by
    simp [Kind.isSkippable, TokenStream.kind_final]
  rw [pulled, StreamReader.allTokens, StreamReader.shown, StreamReader.ahead, List.drop_zero,
    TokenStream.entries, List.filter_append, finalShown]
  rfl

/-- A session without a forced end reads the one stream of its text, in which
the end stands last: it is at an index of the stream throughout, every pull
answers what stands there, and the counters tell what was consumed.  The calls
may come in any order. -/
theorem run_reads_stream (input : Bytes) (config : Config) (commands : List Command)
    (unforced : Command.forceEnd ∉ commands) :
    let stream := (Lexer.start input config).stream
    let reader : StreamReader := { consumed := 0, allowComments := config.allowComments }
    stream.Ends ∧
      ((Lexer.start input config).run commands).map Reply.observe =
        reader.run stream commands ∧
      ((Lexer.start input config).after commands).Follows stream
        (reader.after stream commands) := by
  intro stream reader
  have ends : stream.Ends := Lexer.ends_stream (Lexer.start input config)
  exact ⟨ends, (Lexer.Follows.start input config).run ends unforced⟩

/-- A skipped comment, a scan and two ways of pulling the rest, mixed. -/
theorem run_reads_stream_mixed :
    let input := ascii "a /* ? */ ? ; b"
    let config : Config := { allowComments := false, traceTokens := false }
    let commands : List Command :=
      [.lex, .recordError "near", .lex, .scan, .setAllowComments true, .take 2, .tokenize]
    let stream := (Lexer.start input config).stream
    let reader : StreamReader := { consumed := 0, allowComments := config.allowComments }
    Command.forceEnd ∉ commands ∧
      stream.Ends ∧
        ((Lexer.start input config).run commands).map Reply.observe =
          reader.run stream commands ∧
        ((Lexer.start input config).after commands).Follows stream
          (reader.after stream commands) := by
  intro input config commands stream reader
  have unforced : Command.forceEnd ∉ commands := by decide
  exact ⟨unforced, run_reads_stream input config commands unforced⟩

end SqlLexer
