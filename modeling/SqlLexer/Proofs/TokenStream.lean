import SqlLexer.Lexer.Stream
import SqlLexer.Proofs.Lookahead

/-!
# The stream behind a lexer

Scanning again and again gives one entry after the other until the end of the
input, and the end for ever after.  This stream is fixed by the bytes that are
left: settings and diagnostics have no part in it, and the bytes already read
only shift its positions.  The stream of a text is therefore computed lexeme by
lexeme, and `front_induction` is the induction that goes with it.
-/

namespace SqlLexer

/-- A token together with the position of the lexer behind it. -/
structure Entry where
  token : Token
  stop : Nat
  deriving DecidableEq, Repr

/-- The same entry with more text in front of it. -/
def Entry.shift (entry : Entry) (distance : Nat) : Entry :=
  { token := { entry.token with offset := entry.token.offset + distance }
    stop := entry.stop + distance }

@[simp] theorem Entry.shift_shift (entry : Entry) (first second : Nat) :
    (entry.shift first).shift second = entry.shift (first + second) := by
  simp only [shift, Nat.add_assoc]

theorem Entry.map_shift_shift (entries : List Entry) (first second : Nat) :
    (entries.map (·.shift first)).map (·.shift second) =
      entries.map (·.shift (first + second)) := by
  simp only [List.map_map, Function.comp_def, shift_shift]

/-- The entries before the end of an input, and the end itself. -/
structure TokenStream where
  proper : List Entry
  final : Entry
  deriving DecidableEq, Repr

namespace TokenStream

/-- All entries, the first end included. -/
def entries (stream : TokenStream) : List Entry :=
  stream.proper ++ [stream.final]

/-- The entry at an index.  The end repeats for ever. -/
def entryAt (stream : TokenStream) (index : Nat) : Entry :=
  stream.proper.getD index stream.final

def push (stream : TokenStream) (entry : Entry) : TokenStream :=
  { stream with proper := entry :: stream.proper }

/-- What is left of the stream after some entries. -/
def drop (stream : TokenStream) (count : Nat) : TokenStream :=
  { stream with proper := stream.proper.drop count }

/-- The same stream with more text in front of it. -/
def shift (stream : TokenStream) (distance : Nat) : TokenStream :=
  { proper := stream.proper.map (·.shift distance)
    final := stream.final.shift distance }

@[simp] theorem entryAt_drop (stream : TokenStream) (count index : Nat) :
    (stream.drop count).entryAt index = stream.entryAt (count + index) := by
  simp [entryAt, drop, List.getD_eq_getElem?_getD]

@[simp] theorem drop_drop (stream : TokenStream) (first second : Nat) :
    (stream.drop first).drop second = stream.drop (first + second) := by
  simp [drop]

@[simp] theorem entries_push (stream : TokenStream) (entry : Entry) :
    (stream.push entry).entries = entry :: stream.entries :=
  rfl

@[simp] theorem entries_shift (stream : TokenStream) (distance : Nat) :
    (stream.shift distance).entries = stream.entries.map (·.shift distance) := by
  rw [entries, entries, List.map_append]
  rfl

@[simp] theorem shift_zero (stream : TokenStream) : stream.shift 0 = stream := by
  simp [shift, Entry.shift]

@[simp] theorem shift_shift (stream : TokenStream) (first second : Nat) :
    (stream.shift first).shift second = stream.shift (first + second) := by
  simp [shift, Function.comp_def]

@[simp] theorem shift_push (stream : TokenStream) (entry : Entry) (distance : Nat) :
    (stream.push entry).shift distance =
      (stream.shift distance).push (entry.shift distance) := by
  simp [shift, push]

/-- The end of the input stands in the last place and nowhere else. -/
structure Ends (stream : TokenStream) : Prop where
  final_isEnd : stream.final.token.isEnd = true
  proper_isEnd : ∀ entry ∈ stream.proper, entry.token.isEnd = false

end TokenStream

theorem Cursor.skipBlanks_of_rest_nil {cursor : Cursor} (atEnd : cursor.rest = []) :
    cursor.skipBlanks = cursor := by
  cases cursor
  cases atEnd
  rfl

namespace Lexer

/-- What repeated scanning gives from a lexer on. -/
def stream (lexer : Lexer) : TokenStream :=
  let scanned := lexer.scan
  let entry : Entry := { token := scanned.1, stop := scanned.2.position }
  if _ : scanned.1.isEnd = false then scanned.2.stream.push entry
  else { proper := [], final := entry }
termination_by lexer.remaining
decreasing_by exact remaining_scan_lt ‹_›

theorem stream_of_not_isEnd {lexer : Lexer} (notEnd : lexer.scan.1.isEnd = false) :
    lexer.stream =
      lexer.scan.2.stream.push
        { token := lexer.scan.1, stop := lexer.scan.2.position } := by
  rw [stream]
  simp only [notEnd, dif_pos]

theorem stream_of_isEnd {lexer : Lexer} (isEnd : lexer.scan.1.isEnd = true) :
    lexer.stream =
      { proper := []
        final := { token := lexer.scan.1, stop := lexer.scan.2.position } } := by
  rw [stream]
  simp only [isEnd, Bool.true_eq_false, dite_false]

theorem entryAt_stream_zero (lexer : Lexer) :
    lexer.stream.entryAt 0 =
      { token := lexer.scan.1, stop := lexer.scan.2.position } := by
  cases isEnd : lexer.scan.1.isEnd with
  | false =>
      rw [stream_of_not_isEnd isEnd]
      rfl
  | true =>
      rw [stream_of_isEnd isEnd]
      rfl

theorem ends_stream (lexer : Lexer) : lexer.stream.Ends := by
  induction lexer using stream.induct with
  | case1 lexer scanned notEnd ih =>
      rw [stream_of_not_isEnd notEnd]
      refine ⟨ih.final_isEnd, ?_⟩
      intro entry member
      rcases List.mem_cons.mp member with rfl | later
      · exact notEnd
      · exact ih.proper_isEnd entry later
  | case2 lexer scanned isEnd =>
      have isEnd : lexer.scan.1.isEnd = true := (Bool.not_eq_false _).mp isEnd
      rw [stream_of_isEnd isEnd]
      exact ⟨isEnd, fun _ member => absurd member List.not_mem_nil⟩

theorem isStopped_scan (lexer : Lexer) :
    lexer.scan.2.isStopped = lexer.isStopped := by
  unfold scan
  split
  · rfl
  · dsimp only
    split <;> rfl

theorem config_scan (lexer : Lexer) : lexer.scan.2.config = lexer.config := by
  unfold scan
  split
  · rfl
  · dsimp only
    split <;> rfl

theorem placeholders_scan (lexer : Lexer) :
    lexer.scan.2.placeholders =
      lexer.placeholders + if lexer.scan.1.isPlaceholder then 1 else 0 := by
  cases running : lexer.isStopped with
  | true =>
      rw [scan_stopped running]
      rfl
  | false =>
      cases front : lexer.cursor.skipBlanks.rest with
      | nil =>
          rw [scan_end running front]
          rfl
      | cons first rest =>
          rw [scan_front running front]

theorem scan_scan_of_isEnd {lexer : Lexer} (isEnd : lexer.scan.1.isEnd = true) :
    lexer.scan.2.scan = lexer.scan := by
  cases running : lexer.isStopped with
  | true =>
      rw [scan_stopped running]
      exact scan_stopped running
  | false =>
      cases front : lexer.cursor.skipBlanks.rest with
      | nil =>
          have settled := Cursor.skipBlanks_of_rest_nil front
          rw [scan_end running front, scan_end]
          · simp only [settled]
          · exact running
          · simp only [settled]
            exact front
      | cons first rest =>
          have notEnd := (Lexeme.takesInput_ofFront first rest).kind_ne
          rw [scan_front running front] at isEnd
          simp [Token.isEnd, Lexeme.toToken, notEnd] at isEnd

theorem stream_scan (lexer : Lexer) : lexer.scan.2.stream = lexer.stream.drop 1 := by
  cases isEnd : lexer.scan.1.isEnd with
  | false =>
      rw [stream_of_not_isEnd isEnd]
      rfl
  | true =>
      have again := scan_scan_of_isEnd isEnd
      rw [stream_of_isEnd isEnd, stream_of_isEnd (by rw [again]; exact isEnd), again]
      rfl

theorem scan_shift {lexer other : Lexer} {distance : Nat}
    (running : lexer.isStopped = false) (otherRunning : other.isStopped = false)
    (sameRest : lexer.cursor.rest = other.cursor.rest)
    (shifted : lexer.position = other.position + distance) :
    lexer.scan.1 = { other.scan.1 with offset := other.scan.1.offset + distance } ∧
      lexer.scan.2.cursor.rest = other.scan.2.cursor.rest ∧
      lexer.scan.2.position = other.scan.2.position + distance := by
  have sameFront : lexer.cursor.skipBlanks.rest = other.cursor.skipBlanks.rest := by
    rw [Cursor.rest_skipBlanks, Cursor.rest_skipBlanks, sameRest]
  have startsShifted : lexer.cursor.skipBlanks.position =
      other.cursor.skipBlanks.position + distance := by
    simp only [position] at shifted
    simp only [Cursor.skipBlanks, Cursor.position_advance, sameRest, shifted]
    omega
  cases front : other.cursor.skipBlanks.rest with
  | nil =>
      rw [scan_end running (sameFront.trans front), scan_end otherRunning front]
      simp only [position, Token.bare, startsShifted, sameFront, and_self]
  | cons first rest =>
      rw [scan_front running (sameFront.trans front), scan_front otherRunning front]
      simp only [position, Lexeme.toToken, Cursor.rest_advance,
        Cursor.position_advance, startsShifted, sameFront, true_and]
      omega

/-- The stream is fixed by the bytes that are left; those already read shift it. -/
theorem stream_shift {other : Lexer} (otherRunning : other.isStopped = false)
    {lexer : Lexer} {distance : Nat} (running : lexer.isStopped = false)
    (sameRest : lexer.cursor.rest = other.cursor.rest)
    (shifted : lexer.position = other.position + distance) :
    lexer.stream = other.stream.shift distance := by
  induction other using stream.induct generalizing lexer with
  | case1 other scanned notEnd ih =>
      obtain ⟨sameToken, restAfter, positionAfter⟩ :=
        scan_shift running otherRunning sameRest shifted
      have lexerNotEnd : lexer.scan.1.isEnd = false := by
        rw [sameToken]
        exact notEnd
      have tail : lexer.scan.2.stream = other.scan.2.stream.shift distance :=
        ih ((isStopped_scan other).trans otherRunning)
          ((isStopped_scan lexer).trans running) restAfter positionAfter
      rw [stream_of_not_isEnd lexerNotEnd, stream_of_not_isEnd notEnd, tail,
        TokenStream.shift_push, positionAfter, sameToken]
      rfl
  | case2 other scanned isEnd =>
      obtain ⟨sameToken, restAfter, positionAfter⟩ :=
        scan_shift running otherRunning sameRest shifted
      have lexerIsEnd : lexer.scan.1.isEnd = true := by
        rw [sameToken]
        exact (Bool.not_eq_false _).mp isEnd
      rw [stream_of_isEnd lexerIsEnd, stream_of_isEnd ((Bool.not_eq_false _).mp isEnd),
        positionAfter, sameToken]
      rfl

theorem stream_congr {lexer other : Lexer} (running : lexer.isStopped = false)
    (otherRunning : other.isStopped = false) (sameCursor : lexer.cursor = other.cursor) :
    lexer.stream = other.stream := by
  have unshifted : lexer.position = other.position + 0 :=
    congrArg Cursor.position sameCursor
  rw [stream_shift otherRunning running (congrArg Cursor.rest sameCursor) unshifted,
    TokenStream.shift_zero]

end Lexer

/-! ## The stream of a text -/

/-- The stream of a fresh lexer. -/
def TokenStream.ofBytes (input : Bytes) : TokenStream :=
  (Lexer.start input .default).stream

theorem Lexer.stream_eq_ofBytes {lexer : Lexer} (running : lexer.isStopped = false) :
    lexer.stream = (TokenStream.ofBytes lexer.cursor.rest).shift lexer.position :=
  stream_shift rfl running rfl (Nat.zero_add lexer.position).symm

/-- Settings have no part in the stream. -/
theorem Lexer.stream_start (input : Bytes) (config : Config) :
    (Lexer.start input config).stream = TokenStream.ofBytes input := by
  rw [stream_eq_ofBytes rfl]
  exact TokenStream.shift_zero _

theorem TokenStream.kind_final (input : Bytes) :
    (ofBytes input).final.token.kind = .endOfInput := by
  have isEnd := (Lexer.ends_stream (Lexer.start input .default)).final_isEnd
  rw [Lexer.stream_start] at isEnd
  exact eq_of_beq isEnd

def AllBlank (gap : Bytes) : Prop :=
  ∀ byte ∈ gap, Byte.isBlank byte = true

namespace AllBlank

theorem of_all {gap : Bytes} (all : gap.all Byte.isBlank = true) : AllBlank gap :=
  fun byte member => List.all_eq_true.mp all byte member

theorem nil : AllBlank [] :=
  fun _ member => absurd member List.not_mem_nil

theorem append {first second : Bytes} (firstBlank : AllBlank first)
    (secondBlank : AllBlank second) : AllBlank (first ++ second) := by
  intro byte member
  rcases List.mem_append.mp member with inFirst | inSecond
  · exact firstBlank byte inFirst
  · exact secondBlank byte inSecond

theorem take {gap : Bytes} (blank : AllBlank gap) (count : Nat) :
    AllBlank (gap.take count) := by
  intro byte member
  exact blank byte (List.mem_of_mem_take member)

end AllBlank

/-- The lexeme is read where `span` stands in front of `rest`, and takes all
of `span` and nothing more. -/
inductive Lexeme.Reads : Lexeme → Bytes → Bytes → Prop where
  | front {first : UInt8} {tail rest : Bytes} :
      Byte.isBlank first = false →
      (Lexeme.ofFront first (tail ++ rest)).width = tail.length + 1 →
      Lexeme.Reads (Lexeme.ofFront first (tail ++ rest)) (first :: tail) rest

namespace Lexeme.Reads

variable {lexeme : Lexeme} {span rest : Bytes}

theorem span_ne_nil (reads : lexeme.Reads span rest) : span ≠ [] := by
  cases reads
  exact List.cons_ne_nil _ _

theorem kind_ne (reads : lexeme.Reads span rest) : lexeme.kind ≠ .endOfInput := by
  cases reads
  exact (takesInput_ofFront _ _).kind_ne

theorem getElem?_front (reads : lexeme.Reads span rest) (before : Bytes) :
    (before ++ (span ++ rest))[before.length]? = span.head? := by
  rw [List.getElem?_append_right (Nat.le_refl _), Nat.sub_self, ← List.head?_eq_getElem?]
  cases reads with
  | front _ _ => rfl

theorem cut {kept more : Bytes} (reads : lexeme.Reads span (kept ++ more)) :
    lexeme.Reads span kept := by
  cases reads with
  | @front first tail _ notBlank exactly =>
      have same := (ofFront_oneAhead first).cut (tail ++ kept) more (by
        rw [List.append_assoc, exactly, List.length_append]
        omega)
      rw [List.append_assoc] at same
      rw [← same] at exactly ⊢
      exact .front notBlank exactly

theorem swap {next : UInt8} {more : Bytes} (reads : lexeme.Reads span (next :: more))
    (other : Bytes) : lexeme.Reads span (next :: other) := by
  cases reads with
  | @front first tail _ notBlank exactly =>
      have fits := Nat.le_of_eq (exactly.trans (Nat.add_comm tail.length 1))
      have same := (ofFront_oneAhead first).swap fits other
      rw [← same] at exactly ⊢
      exact .front notBlank exactly

end Lexeme.Reads

/-- Every text is blank, or has a lexeme behind its first blanks. -/
theorem allBlank_or_reads (input : Bytes) :
    AllBlank input ∨ ∃ gap span rest lexeme, input = gap ++ (span ++ rest) ∧
      AllBlank gap ∧ Lexeme.Reads lexeme span rest := by
  have split := List.takeWhile_append_dropWhile (p := Byte.isBlank) (l := input)
  have blanks : AllBlank (input.takeWhile Byte.isBlank) := by
    intro byte member
    exact List.all_eq_true.mp List.all_takeWhile byte member
  cases front : input.dropWhile Byte.isBlank with
  | nil =>
      rw [front, List.append_nil] at split
      exact .inl (split ▸ blanks)
  | cons first others =>
      have notBlank : Byte.isBlank first = false := by
        have stopped := List.head?_dropWhile_not Byte.isBlank input
        simpa [front] using stopped
      have widthLe := (Lexeme.ofFront_oneAhead first).width_le others
      have widthPos := (Lexeme.takesInput_ofFront first others).width_pos
      let size := (Lexeme.ofFront first others).width - 1
      have rejoined : others.take size ++ others.drop size = others :=
        List.take_append_drop size others
      refine .inr ⟨_, first :: others.take size, others.drop size,
        Lexeme.ofFront first others, ?_, blanks, ?_⟩
      · rw [List.cons_append, rejoined, ← front, split]
      · have exactly : (Lexeme.ofFront first (others.take size ++ others.drop size)).width =
            (others.take size).length + 1 := by
          rw [rejoined, List.length_take]
          omega
        have reads := Lexeme.Reads.front notBlank exactly
        rw [rejoined] at reads
        exact reads

theorem Cursor.skipBlanks_append {cursor : Cursor} {gap rest : Bytes}
    (unread : cursor.rest = gap ++ rest) (blank : AllBlank gap)
    (stops : rest.takeWhile Byte.isBlank = []) :
    cursor.skipBlanks = { rest, position := cursor.position + gap.length } := by
  have run : cursor.rest.takeWhile Byte.isBlank = gap := by
    rw [unread, List.takeWhile_append_of_pos blank, stops, List.append_nil]
  rw [skipBlanks, run, advance, unread, List.drop_left]

namespace Lexer

theorem scan_of_allBlank {lexer : Lexer} (running : lexer.isStopped = false)
    (blank : AllBlank lexer.cursor.rest) :
    lexer.scan =
      (Token.bare .endOfInput (lexer.position + lexer.remaining),
        { lexer with
          cursor := { rest := [], position := lexer.position + lexer.remaining } }) := by
  have skipped := Cursor.skipBlanks_append (List.append_nil lexer.cursor.rest).symm
    blank rfl
  rw [scan_end running (congrArg Cursor.rest skipped), skipped]
  rfl

/-- A lexeme ahead: a scan skips the gap before it and takes its span. -/
theorem scan_of_reads {lexer : Lexer} (running : lexer.isStopped = false)
    {gap span rest : Bytes} {lexeme : Lexeme}
    (unread : lexer.cursor.rest = gap ++ (span ++ rest)) (blank : AllBlank gap)
    (reads : lexeme.Reads span rest) :
    lexer.scan =
      (let token := lexeme.toToken (lexer.position + gap.length)
       (token,
        { lexer with
          cursor := { rest, position := lexer.position + gap.length + span.length }
          placeholders := lexer.placeholders + if token.isPlaceholder then 1 else 0 })) := by
  cases reads with
  | @front first tail _ notBlank exactly =>
      rw [List.cons_append] at unread
      have skipped := Cursor.skipBlanks_append unread blank
        (List.takeWhile_cons_of_neg (by simp [notBlank]))
      rw [scan_front running (congrArg Cursor.rest skipped), skipped]
      simp only [Cursor.advance, exactly, List.drop_succ_cons, List.drop_left,
        List.length_cons, position]
      rfl

/-- A lexer that is not stopped, in front of blanks and this text behind them. -/
structure Faces (lexer : Lexer) (gap ahead : Bytes) : Prop where
  running : lexer.isStopped = false
  unread : lexer.cursor.rest = gap ++ ahead
  blank : AllBlank gap

/-- The lexer that has moved past some bytes, with all else as it was. -/
def pass (lexer : Lexer) (count : Nat) : Lexer :=
  { lexer with cursor := lexer.cursor.advance count }

/-- A scan gives a token of this kind with this text behind the gap, and moves past
the gap and as many bytes as the text has. -/
def Scans (lexer : Lexer) (gap : Bytes) (kind : Kind) (text : Bytes) : Prop :=
  lexer.scan =
    ({ kind, value := text, offset := lexer.position + gap.length },
      lexer.pass (gap.length + text.length))

theorem Faces.scans {lexer : Lexer} {gap rest text : Bytes} {first : UInt8} {kind : Kind}
    (faces : lexer.Faces gap (first :: rest)) (notBlank : Byte.isBlank first = false)
    (front : Lexeme.ofFront first rest = { kind, value := text, width := text.length })
    (uncounted : (kind == .valueArgument && text == ['?'.toUInt8]) = false) :
    lexer.Scans gap kind text := by
  have skipped := Cursor.skipBlanks_append faces.unread faces.blank
    (List.takeWhile_cons_of_neg (by simp [notBlank]))
  have dropped : lexer.cursor.rest.drop (gap.length + text.length) =
      (first :: rest).drop text.length := by
    rw [faces.unread, List.drop_append, List.drop_of_length_le (Nat.le_add_right _ _),
      List.nil_append, Nat.add_sub_cancel_left]
  rw [Scans, scan_front faces.running (congrArg Cursor.rest skipped), skipped, front]
  simp only [Lexeme.toToken, Token.isPlaceholder, uncounted, pass, Cursor.advance, dropped,
    Nat.add_assoc]
  rfl

end Lexer

namespace TokenStream

theorem ofBytes_of_allBlank {input : Bytes} (blank : AllBlank input) :
    ofBytes input =
      { proper := []
        final := { token := Token.bare .endOfInput input.length, stop := input.length } } := by
  let lexer := Lexer.start input .default
  have scanned := Lexer.scan_of_allBlank (show lexer.isStopped = false from rfl) blank
  have isEnd : lexer.scan.1.isEnd = true := by
    rw [scanned]
    rfl
  change lexer.stream = _
  rw [Lexer.stream_of_isEnd isEnd, scanned]
  simp [lexer, Lexer.position, Lexer.remaining, Lexer.start, Cursor.start]

theorem ofBytes_of_reads {gap span rest : Bytes} {lexeme : Lexeme}
    (blank : AllBlank gap) (reads : lexeme.Reads span rest) :
    ofBytes (gap ++ (span ++ rest)) =
      ((ofBytes rest).shift (gap.length + span.length)).push
        { token := lexeme.toToken gap.length, stop := gap.length + span.length } := by
  let lexer := Lexer.start (gap ++ (span ++ rest)) .default
  have scanned := Lexer.scan_of_reads (show lexer.isStopped = false from rfl) rfl blank reads
  have notEnd : lexer.scan.1.isEnd = false := by
    rw [scanned]
    simp [Token.isEnd, Lexeme.toToken, reads.kind_ne]
  change lexer.stream = _
  rw [Lexer.stream_of_not_isEnd notEnd, Lexer.stream_eq_ofBytes (by rw [scanned]; rfl), scanned]
  simp [lexer, Lexer.position, Lexer.start, Cursor.start]

end TokenStream

/-- Induction over a text, lexeme by lexeme. -/
theorem front_induction {motive : Bytes → Prop}
    (blank : ∀ input, AllBlank input → motive input)
    (front : ∀ (gap span rest : Bytes) (lexeme : Lexeme), AllBlank gap →
      lexeme.Reads span rest → motive rest → motive (gap ++ (span ++ rest)))
    (input : Bytes) : motive input := by
  rcases allBlank_or_reads input with allBlank | ⟨gap, span, rest, lexeme, rfl, gapBlank, reads⟩
  · exact blank input allBlank
  · have shorter : rest.length < (gap ++ (span ++ rest)).length := by
      have taken := List.length_pos_iff.mpr reads.span_ne_nil
      rw [List.length_append, List.length_append]
      omega
    exact front gap span rest lexeme gapBlank reads (front_induction blank front rest)
termination_by input.length

theorem TokenStream.final_ofBytes (input : Bytes) :
    (ofBytes input).final =
      { token := Token.bare .endOfInput input.length, stop := input.length } := by
  induction input using front_induction with
  | blank input blank => rw [ofBytes_of_allBlank blank]
  | front gap span rest lexeme blank reads ih =>
      have measured : rest.length + (gap.length + span.length) =
          (gap ++ (span ++ rest)).length := by
        simp only [List.length_append]
        omega
      rw [ofBytes_of_reads blank reads, push, shift, ih, ← measured]
      rfl

/-- The entry of a lexeme that is read at its place in the text. -/
inductive Entry.IsReadIn : Entry → Bytes → Prop where
  | reads {before span rest : Bytes} {lexeme : Lexeme} :
      lexeme.Reads span rest →
      IsReadIn { token := lexeme.toToken before.length, stop := before.length + span.length }
        (before ++ (span ++ rest))

theorem Entry.IsReadIn.behind {entry : Entry} {input : Bytes} (isRead : entry.IsReadIn input)
    (front : Bytes) : (entry.shift front.length).IsReadIn (front ++ input) := by
  cases isRead with
  | @reads before span rest lexeme reads =>
      have isRead := @IsReadIn.reads (front ++ before) span rest lexeme reads
      rw [List.append_assoc, List.length_append, Nat.add_comm front.length] at isRead
      simp only [shift, Lexeme.toToken, Nat.add_right_comm before.length span.length] at isRead ⊢
      exact isRead

/-- Every entry but the end is that of a lexeme. -/
theorem TokenStream.isReadIn_of_mem {input : Bytes} {entry : Entry}
    (member : entry ∈ (ofBytes input).proper) : entry.IsReadIn input := by
  induction input using front_induction generalizing entry with
  | blank input blank =>
      rw [ofBytes_of_allBlank blank] at member
      cases member
  | front gap span rest lexeme blank reads ih =>
      rw [ofBytes_of_reads blank reads] at member
      rcases List.mem_cons.mp member with rfl | later
      · exact .reads reads
      · obtain ⟨inner, innerMember, rfl⟩ := List.mem_map.mp later
        have isRead := (ih innerMember).behind (gap ++ span)
        rw [List.length_append, List.append_assoc] at isRead
        exact isRead

end SqlLexer
