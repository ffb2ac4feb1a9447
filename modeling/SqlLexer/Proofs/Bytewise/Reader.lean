import SqlLexer.Cursor
import SqlLexer.Lexeme.Comment

/-!
# Reading byte by byte

A lexeme is given by what stands at the front of the unread text.  The readers
below come to the same lexeme with a cursor that moves by single bytes, and
reading a byte where none is left is a fault.  Many bytes are read behind a
look that another reader took, so each reader is shown to end without a fault,
behind exactly the lexeme.
-/

namespace SqlLexer

namespace Cursor

variable {cursor next : Cursor} {byte : UInt8}

@[simp] theorem advance_advance (cursor : Cursor) (first second : Nat) :
    (cursor.advance first).advance second = cursor.advance (first + second) := by
  simp only [advance, List.drop_drop, Nat.add_assoc]

theorem peek_of_rest {rest : Bytes} (front : cursor.rest = byte :: rest) :
    cursor.peek = some byte := by
  rw [peek, front]
  rfl

theorem rest_of_peek (seen : cursor.peek = some byte) :
    cursor.rest = byte :: (cursor.advance 1).rest := by
  obtain ⟨rest, front⟩ := List.head?_eq_some_iff.mp seen
  rw [rest_advance, front]
  rfl

theorem rest_behind {rest : Bytes} (front : cursor.rest = byte :: rest) :
    (cursor.advance 1).rest = rest := by
  rw [rest_advance, front]
  rfl

theorem rest_of_peek_none (atEnd : cursor.peek = none) : cursor.rest = [] :=
  List.head?_eq_none_iff.mp atEnd

theorem bump_of_peek (seen : cursor.peek = some byte) :
    cursor.bump = .ok (byte, cursor.advance 1) := by
  rw [bump, rest_of_peek seen]
  rfl

theorem bumpInto_of_peek (seen : cursor.peek = some byte) (buffer : Bytes) :
    cursor.bumpInto buffer = .ok (buffer ++ [byte], cursor.advance 1) := by
  rw [bumpInto, bump_of_peek seen]
  rfl

/-- All that reading one byte does.  The input ends where it did, so that the
position never gets behind its end. -/
theorem front_of_bump (bumped : cursor.bump = .ok (byte, next)) :
    cursor.rest = byte :: next.rest ∧ next.position = cursor.position + 1 := by
  unfold bump at bumped
  split at bumped
  · cases bumped
  · next front =>
      cases bumped
      exact ⟨front, rfl⟩

theorem length_rest_of_bump (bumped : cursor.bump = .ok (byte, next)) :
    next.rest.length < cursor.rest.length := by
  rw [(front_of_bump bumped).1]
  exact Nat.lt_succ_self _

theorem length_rest_of_bumpInto {buffer longer : Bytes}
    (bumped : cursor.bumpInto buffer = .ok (longer, next)) :
    next.rest.length < cursor.rest.length := by
  unfold bumpInto at bumped
  cases read : cursor.bump with
  | error fault =>
      rw [read] at bumped
      cases bumped
  | ok result =>
      rw [read] at bumped
      cases bumped
      exact length_rest_of_bump read

/-- The token that ends behind `text`, with the bytes read before it in a buffer. -/
def endToken (kind : Kind) (start : Nat) (cursor : Cursor) (buffer text : Bytes) :
    Token × Cursor :=
  ({ kind, value := buffer ++ text, offset := start }, cursor.advance text.length)

theorem endToken_nil (kind : Kind) (start : Nat) (cursor : Cursor) (buffer : Bytes) :
    cursor.endToken kind start buffer [] =
      ({ kind, value := buffer, offset := start }, cursor) := by
  rw [endToken, List.append_nil]
  rfl

theorem endToken_append (kind : Kind) (start : Nat) (cursor : Cursor)
    (buffer first second : Bytes) :
    (cursor.advance first.length).endToken kind start (buffer ++ first) second =
      cursor.endToken kind start buffer (first ++ second) := by
  rw [endToken, endToken, advance_advance, List.append_assoc, List.length_append]

end Cursor

/-- The token that a lexeme is at the cursor, with the cursor behind it. -/
def Lexeme.readAt (lexeme : Lexeme) (cursor : Cursor) : Token × Cursor :=
  (lexeme.toToken cursor.position, cursor.advance lexeme.width)

theorem Lexeme.readAt_verbatim (kind : Kind) (spelling : Bytes) (cursor : Cursor) :
    (verbatim kind spelling).readAt cursor =
      cursor.endToken kind cursor.position [] spelling :=
  rfl

/-! ## Reading into a buffer -/

/-- A reader that appends what it reads to a buffer. -/
abbrev BufferReader : Type :=
  Cursor → Bytes → Except EndOfInput (Bytes × Cursor)

namespace BufferReader

def nothing : BufferReader :=
  fun cursor buffer => .ok (buffer, cursor)

def andThen (first second : BufferReader) : BufferReader :=
  fun cursor buffer => do
    let (longer, next) ← first cursor buffer
    second next longer

/-- Reads the next byte if it is in the class, and goes on behind it. -/
def bumpIf (inClass : UInt8 → Bool) (behind : BufferReader) : BufferReader :=
  fun cursor buffer =>
    if cursor.peekIs inClass then andThen Cursor.bumpInto behind cursor buffer
    else .ok (buffer, cursor)

/-- Reads bytes as long as the next one is in the class. -/
def bumpWhile (inClass : UInt8 → Bool) (cursor : Cursor) (buffer : Bytes) :
    Except EndOfInput (Bytes × Cursor) :=
  if cursor.peekIs inClass then
    match _ : cursor.bumpInto buffer with
    | .error fault => .error fault
    | .ok (longer, next) => bumpWhile inClass next longer
  else .ok (buffer, cursor)
termination_by cursor.rest.length
decreasing_by exact Cursor.length_rest_of_bumpInto ‹_›

/-- Reads a line through its line feed. -/
def bumpLine (cursor : Cursor) (buffer : Bytes) : Except EndOfInput (Bytes × Cursor) :=
  match cursor.peek with
  | none => .ok (buffer, cursor)
  | some byte =>
    match _ : cursor.bumpInto buffer with
    | .error fault => .error fault
    | .ok (longer, next) =>
      if byte == Byte.lineFeed then .ok (longer, next) else bumpLine next longer
termination_by cursor.rest.length
decreasing_by exact Cursor.length_rest_of_bumpInto ‹_›

/-- The reader never faults: it appends a part of the unread text, which that
text determines, and moves behind it. -/
def Copies (reader : BufferReader) (text : Bytes → Bytes) : Prop :=
  ∀ cursor buffer, reader cursor buffer =
    .ok (buffer ++ text cursor.rest, cursor.advance (text cursor.rest).length)

theorem nothing_copies : Copies nothing (fun _ => []) := by
  intro cursor buffer
  rw [List.append_nil]
  rfl

theorem Copies.andThen {first second : BufferReader} {before behind : Bytes → Bytes}
    (firstCopies : Copies first before) (secondCopies : Copies second behind) :
    Copies (first.andThen second)
      (fun input => before input ++ behind (input.drop (before input).length)) := by
  intro cursor buffer
  rw [BufferReader.andThen, firstCopies]
  refine (secondCopies _ _).trans ?_
  rw [List.append_assoc, Cursor.advance_advance, Cursor.rest_advance, List.length_append]

theorem bumpInto_andThen {cursor : Cursor} {byte : UInt8} (seen : cursor.peek = some byte)
    (reader : BufferReader) (buffer : Bytes) :
    andThen Cursor.bumpInto reader cursor buffer =
      reader (cursor.advance 1) (buffer ++ [byte]) := by
  rw [andThen, Cursor.bumpInto_of_peek seen]
  rfl

theorem Copies.behindByte {reader : BufferReader} {text : Bytes → Bytes}
    (copies : Copies reader text) {cursor : Cursor} {byte : UInt8}
    (seen : cursor.peek = some byte) (buffer : Bytes) :
    BufferReader.andThen Cursor.bumpInto reader cursor buffer =
      (let spelled := byte :: text (cursor.advance 1).rest
       .ok (buffer ++ spelled, cursor.advance spelled.length)) := by
  rw [bumpInto_andThen seen, copies, List.append_assoc, Cursor.advance_advance, Nat.add_comm]
  rfl

theorem Copies.headed {behind : BufferReader} {inClass : UInt8 → Bool}
    {tail text : Bytes → Bytes} (copies : Copies behind tail) (atEnd : text [] = [])
    (atByte : ∀ byte rest, text (byte :: rest) =
      if inClass byte then byte :: tail rest else []) :
    Copies (bumpIf inClass behind) text := by
  intro cursor buffer
  cases seen : cursor.peek with
  | none =>
      rw [bumpIf, Cursor.peekIs, seen, Cursor.rest_of_peek_none seen, atEnd, List.append_nil]
      rfl
  | some byte =>
      rw [bumpIf, Cursor.peekIs, seen, Cursor.rest_of_peek seen, atByte, Option.any_some]
      split
      · exact copies.behindByte seen buffer
      · rw [List.append_nil]
        rfl

theorem bumpWhile_copies (inClass : UInt8 → Bool) :
    Copies (bumpWhile inClass) (List.takeWhile inClass) := by
  intro cursor buffer
  fun_induction bumpWhile inClass cursor buffer with
  | case1 cursor buffer inside fault faulted =>
      obtain ⟨byte, seen, _⟩ := (Option.any_eq_true _ _).mp inside
      rw [Cursor.bumpInto_of_peek seen] at faulted
      cases faulted
  | case2 cursor buffer inside longer next bumped ih =>
      obtain ⟨byte, seen, isIn⟩ := (Option.any_eq_true _ _).mp inside
      rw [Cursor.bumpInto_of_peek seen] at bumped
      cases bumped
      rw [ih, Cursor.rest_of_peek seen, List.takeWhile_cons_of_pos isIn, List.append_assoc,
        Cursor.advance_advance, Nat.add_comm]
      rfl
  | case3 cursor buffer outside =>
      have nothingMore : cursor.rest.takeWhile inClass = [] := by
        cases front : cursor.rest with
        | nil => rfl
        | cons byte rest =>
            rw [Cursor.peekIs, Cursor.peek_of_rest front] at outside
            exact List.takeWhile_cons_of_neg outside
      rw [nothingMore, List.append_nil]
      rfl

theorem bumpLine_copies : Copies bumpLine Comment.throughLine := by
  intro cursor buffer
  fun_induction bumpLine cursor buffer with
  | case1 cursor buffer atEnd =>
      rw [Cursor.rest_of_peek_none atEnd, Comment.throughLine, List.append_nil]
      rfl
  | case2 cursor buffer byte seen fault faulted =>
      rw [Cursor.bumpInto_of_peek seen] at faulted
      cases faulted
  | case3 cursor buffer byte seen longer next bumped ends =>
      rw [Cursor.bumpInto_of_peek seen] at bumped
      cases bumped
      rw [Cursor.rest_of_peek seen, Comment.throughLine, if_pos ends]
      rfl
  | case4 cursor buffer byte seen longer next bumped goesOn ih =>
      rw [Cursor.bumpInto_of_peek seen] at bumped
      cases bumped
      rw [ih, Cursor.rest_of_peek seen, Comment.throughLine, if_neg goesOn, List.append_assoc,
        Cursor.advance_advance, Nat.add_comm]
      rfl

end BufferReader

end SqlLexer
