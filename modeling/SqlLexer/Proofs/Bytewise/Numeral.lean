import SqlLexer.Proofs.Bytewise.Reader
import SqlLexer.Proofs.Octal

/-!
# Numbers byte by byte

A number is read by a small machine.  After a leading zero it first takes the
octal digits and then, at an eight or a nine, the decimal ones; whether that
spelling is an error turns out only behind all of them.  The machine comes to
the numeral at the front of the input, and to the same judgement of it.
-/

namespace SqlLexer

/-- What may still come of a number. -/
inductive NumberState where
  | fraction
  | exponent
  | done
  /-- The digits so far are octal by their zero, with an eight or a nine among them. -/
  | badOctal
  deriving DecidableEq, Repr

namespace BufferReader

def mantissa (base : Nat) : BufferReader :=
  bumpWhile fun byte => Byte.digitValue byte < base

def fraction : BufferReader :=
  bumpIf (· == '.'.toUInt8) (mantissa 10)

def sign : BufferReader :=
  bumpIf (fun byte => byte == '+'.toUInt8 || byte == '-'.toUInt8) nothing

def exponent : BufferReader :=
  bumpIf (fun byte => byte == 'e'.toUInt8 || byte == 'E'.toUInt8) (sign.andThen (mantissa 10))

theorem mantissa_copies (base : Nat) :
    Copies (mantissa base) (List.takeWhile fun byte => Byte.digitValue byte < base) :=
  bumpWhile_copies _

theorem digits_copies : Copies (mantissa 10) (List.takeWhile Byte.isDigit) := by
  have sameClass : (fun byte => decide (Byte.digitValue byte < 10)) = Byte.isDigit :=
    funext Byte.digitValue_lt_ten
  rw [← sameClass]
  exact mantissa_copies 10

theorem fraction_copies : Copies fraction Numeral.fraction :=
  digits_copies.headed rfl (fun _ _ => rfl)

theorem sign_copies : Copies sign Numeral.sign :=
  nothing_copies.headed rfl (fun _ _ => rfl)

theorem exponent_copies : Copies exponent Numeral.exponent :=
  (sign_copies.andThen digits_copies).headed rfl (fun _ _ => rfl)

end BufferReader

namespace NumberState

def rank : NumberState → Nat
  | fraction => 2
  | exponent => 1
  | done => 0
  | badOctal => 0

/-- What follows the digits behind a zero.  A fraction or an exponent makes them decimal. -/
def afterDigits (seenDecimalOnly : Bool) (behind : Cursor) : NumberState :=
  if behind.peekIs Numeral.continuesDigits then fraction
  else if seenDecimalOnly then badOctal
  else done

/-- Goes through the states to the end of the number. -/
def finish (start : Nat) (state : NumberState) (cursor : Cursor) (buffer : Bytes) :
    Except EndOfInput (Token × Cursor) :=
  match state with
  | fraction => do
    let (longer, next) ← BufferReader.fraction cursor buffer
    finish start exponent next longer
  | exponent => do
    let (longer, next) ← BufferReader.exponent cursor buffer
    finish start done next longer
  | done => .ok ({ kind := .number, value := buffer, offset := start }, cursor)
  | badOctal => .ok ({ kind := .invalid, value := buffer, offset := start }, cursor)
termination_by state.rank
decreasing_by all_goals decide

variable (start : Nat) (cursor : Cursor) (buffer : Bytes)

theorem finish_done :
    done.finish start cursor buffer =
      .ok ({ kind := .number, value := buffer, offset := start }, cursor) := by
  rw [finish]

theorem finish_exponent :
    exponent.finish start cursor buffer =
      .ok (cursor.endToken .number start buffer (Numeral.exponent cursor.rest)) := by
  rw [finish, BufferReader.exponent_copies]
  simp only [finish, bind, Except.bind]
  rfl

theorem finish_fraction :
    fraction.finish start cursor buffer =
      .ok (cursor.endToken .number start buffer (Numeral.tail cursor.rest)) := by
  rw [finish, BufferReader.fraction_copies]
  refine (finish_exponent _ _ _).trans ?_
  rw [Cursor.endToken_append, Cursor.rest_advance]
  rfl

theorem finish_afterDigits (seenDecimalOnly : Bool) :
    (afterDigits seenDecimalOnly cursor).finish start cursor buffer =
      .ok (cursor.endToken
        (if !cursor.peekIs Numeral.continuesDigits && seenDecimalOnly then .invalid else .number)
        start buffer (Numeral.tail cursor.rest)) := by
  by_cases continues : cursor.peekIs Numeral.continuesDigits = true
  · rw [afterDigits, if_pos continues, finish_fraction, continues]
    rfl
  · rw [afterDigits, if_neg continues, Numeral.tail_of_not_continuesDigits continues,
      (Bool.not_eq_true _).mp continues]
    cases seenDecimalOnly <;> simp [finish, Cursor.endToken_nil]

end NumberState

namespace Cursor

/-- Reads on behind a leading zero and says what may follow. -/
def readZeroPrefixed (cursor : Cursor) (buffer : Bytes) :
    Except EndOfInput (NumberState × Bytes × Cursor) :=
  if cursor.peekIs Numeral.isHexMark then do
    let (spelling, behind) ←
      BufferReader.andThen bumpInto (BufferReader.mantissa 16) cursor buffer
    return (.done, spelling, behind)
  else do
    let (octal, next) ← BufferReader.mantissa 8 cursor buffer
    if next.peekIs Byte.isDecimalOnly then do
      let (digits, behind) ← BufferReader.mantissa 10 next octal
      return (.afterDigits true behind, digits, behind)
    else return (.afterDigits false next, octal, next)

/-- Reads a number; `seenPoint` tells that it starts with a point, which was read before. -/
def readNumber (seenPoint : Bool) (start : Nat) (cursor : Cursor) :
    Except EndOfInput (Token × Cursor) :=
  if seenPoint then do
    let (buffer, next) ← BufferReader.mantissa 10 cursor ['.'.toUInt8]
    NumberState.exponent.finish start next buffer
  else if cursor.peek == some '0'.toUInt8 then do
    let (zero, next) ← cursor.bumpInto []
    let (state, buffer, behind) ← next.readZeroPrefixed zero
    state.finish start behind buffer
  else do
    let (buffer, next) ← BufferReader.mantissa 10 cursor []
    NumberState.fraction.finish start next buffer

theorem readZeroPrefixed_digits {cursor : Cursor} (noMark : ¬cursor.peekIs Numeral.isHexMark = true)
    (buffer : Bytes) :
    cursor.readZeroPrefixed buffer =
      (let digits := cursor.rest.takeWhile Byte.isDigit
       let behind := cursor.advance digits.length
       .ok (.afterDigits (digits.any fun digit => '8'.toUInt8 ≤ digit) behind, buffer ++ digits,
         behind)) := by
  have octal : BufferReader.mantissa 8 cursor buffer =
      (let run := cursor.rest.takeWhile Byte.isOctalDigit
       .ok (buffer ++ run, cursor.advance run.length)) :=
    BufferReader.mantissa_copies 8 cursor buffer
  rw [readZeroPrefixed, if_neg noMark, octal]
  simp only [bind, Except.bind, Numeral.any_takeWhile_isDigit]
  have split := Numeral.takeWhile_isDigit_eq cursor.rest
  by_cases seen : (Numeral.behindOctal cursor.rest).head?.any Byte.isDecimalOnly = true
  · rw [if_pos seen] at split
    refine (if_pos seen).trans ?_
    rw [BufferReader.digits_copies, split, List.append_assoc, advance_advance,
      List.length_append, seen]
    rfl
  · rw [if_neg seen, List.append_nil] at split
    refine (if_neg seen).trans ?_
    rw [split, (Bool.not_eq_true _).mp seen]
    rfl

variable {cursor : Cursor} {rest : Bytes}

theorem readAt_number {input spelling : Bytes} (numeral : Numeral.ofFront input = spelling)
    (cursor : Cursor) :
    (Lexeme.number input).readAt cursor =
      cursor.endToken (if Numeral.isBadOctal spelling then .invalid else .number)
        cursor.position [] spelling := by
  rw [Lexeme.number, numeral, Lexeme.readAt_verbatim]

theorem readZeroPrefixed_hexadecimal {mark : UInt8} {digits : Bytes}
    (front : cursor.rest = mark :: digits) (marked : Numeral.isHexMark mark = true)
    (buffer : Bytes) :
    cursor.readZeroPrefixed buffer =
      (let spelled := mark :: digits.takeWhile Byte.isHexDigit
       .ok (.done, buffer ++ spelled, cursor.advance spelled.length)) := by
  have seen : cursor.peek = some mark := peek_of_rest front
  have seenMark : cursor.peekIs Numeral.isHexMark = true := by
    rw [peekIs, seen]
    exact marked
  have behind : (cursor.advance 1).rest = digits := rest_behind front
  rw [readZeroPrefixed, if_pos seenMark,
    (BufferReader.mantissa_copies 16).behindByte seen buffer, behind]
  rfl

theorem readNumber_zero (front : cursor.rest = '0'.toUInt8 :: rest) :
    cursor.readNumber false cursor.position =
      .ok ((Lexeme.number ('0'.toUInt8 :: rest)).readAt cursor) := by
  have seen : cursor.peek = some '0'.toUInt8 := peek_of_rest front
  have behind : (cursor.advance 1).rest = rest := rest_behind front
  rw [readNumber, if_neg Bool.false_ne_true, if_pos (beq_iff_eq.mpr seen), bumpInto_of_peek seen]
  simp only [bind, Except.bind]
  by_cases marked : rest.head?.any Numeral.isHexMark = true
  · obtain ⟨mark, isFirst, isMark⟩ := (Option.any_eq_true _ _).mp marked
    obtain ⟨digits, rfl⟩ := List.head?_eq_some_iff.mp isFirst
    have notDigit : ¬Byte.isDigit mark = true := by
      simp only [Numeral.isHexMark, Bool.or_eq_true, beq_iff_eq] at isMark
      rcases isMark with rfl | rfl <;> decide
    have numeral : Numeral.ofFront ('0'.toUInt8 :: mark :: digits) =
        '0'.toUInt8 :: mark :: digits.takeWhile Byte.isHexDigit := by
      rw [Numeral.ofFront_zero, if_pos marked]
      rfl
    have good : Numeral.isBadOctal
        ('0'.toUInt8 :: mark :: digits.takeWhile Byte.isHexDigit) = false :=
      Numeral.isBadOctal_of_mem (List.mem_cons_of_mem _ List.mem_cons_self) notDigit
    rw [readAt_number numeral, good, readZeroPrefixed_hexadecimal behind isMark]
    refine (NumberState.finish_done _ _ _).trans ?_
    exact congrArg Except.ok (endToken_append _ _ cursor [] ['0'.toUInt8] _)
  · have noMark : ¬(cursor.advance 1).peekIs Numeral.isHexMark = true := by
      rw [peekIs, peek, behind]
      exact marked
    have sameLook : ∀ behind : Cursor, behind.peekIs Numeral.continuesDigits =
        behind.rest.head?.any Numeral.continuesDigits := fun _ => rfl
    have numeral := Numeral.ofFront_zero rest
    rw [if_neg marked] at numeral
    rw [readAt_number numeral, Numeral.isBadOctal_zero, Numeral.decimal_zero,
      readZeroPrefixed_digits noMark]
    refine (NumberState.finish_afterDigits _ _ _ _).trans ?_
    rw [endToken_append, sameLook, rest_advance, behind]
    exact congrArg Except.ok (endToken_append _ _ cursor [] ['0'.toUInt8] _)

theorem readNumber_nonzero {first : UInt8} (front : cursor.rest = first :: rest)
    (digit : Byte.isDigit first = true) (notZero : ¬(first == '0'.toUInt8) = true) :
    cursor.readNumber false cursor.position =
      .ok ((Lexeme.number (first :: rest)).readAt cursor) := by
  have good : Numeral.isBadOctal (Numeral.decimal (first :: rest)) = false := by
    rw [Numeral.decimal_eq_digits_append_tail, List.takeWhile_cons_of_pos digit]
    exact Numeral.isBadOctal_of_head_ne_zero notZero _
  have notSeen : ¬(cursor.peek == some '0'.toUInt8) = true := by
    rw [peek_of_rest front]
    simpa using notZero
  rw [readAt_number (Numeral.ofFront_of_head_ne_zero notZero rest), good, readNumber,
    if_neg Bool.false_ne_true, if_neg notSeen, BufferReader.digits_copies]
  refine (NumberState.finish_fraction _ _ _).trans ?_
  rw [endToken_append, rest_advance, ← Numeral.decimal_eq_digits_append_tail, front]
  rfl

theorem readNumber_eq {first : UInt8} (digit : Byte.isDigit first = true)
    (front : cursor.rest = first :: rest) :
    cursor.readNumber false cursor.position =
      .ok ((Lexeme.number (first :: rest)).readAt cursor) := by
  by_cases zero : (first == '0'.toUInt8) = true
  · cases eq_of_beq zero
    exact readNumber_zero front
  · exact readNumber_nonzero front digit zero

theorem readNumber_point (front : cursor.rest = '.'.toUInt8 :: rest) :
    (cursor.advance 1).readNumber true cursor.position =
      .ok ((Lexeme.number ('.'.toUInt8 :: rest)).readAt cursor) := by
  have notDigit : ¬Byte.isDigit '.'.toUInt8 = true := by decide
  have notZero : ¬('.'.toUInt8 == '0'.toUInt8) = true := by decide
  have behind : (cursor.advance 1).rest = rest := rest_behind front
  have numeral : Numeral.ofFront ('.'.toUInt8 :: rest) =
      '.'.toUInt8 :: rest.takeWhile Byte.isDigit ++
        Numeral.exponent (rest.drop (rest.takeWhile Byte.isDigit).length) := by
    rw [Numeral.ofFront_of_head_ne_zero notZero, Numeral.decimal_eq_digits_append_tail,
      List.takeWhile_cons_of_neg notDigit]
    rfl
  have good : Numeral.isBadOctal
      ('.'.toUInt8 :: rest.takeWhile Byte.isDigit ++
        Numeral.exponent (rest.drop (rest.takeWhile Byte.isDigit).length)) = false :=
    Numeral.isBadOctal_of_mem List.mem_cons_self notDigit
  rw [readAt_number numeral, good, readNumber, if_pos rfl, BufferReader.digits_copies]
  refine (NumberState.finish_exponent _ _ _).trans ?_
  rw [endToken_append, behind, rest_advance, behind]
  exact congrArg Except.ok (endToken_append _ _ cursor [] ['.'.toUInt8] _)

end Cursor

end SqlLexer
