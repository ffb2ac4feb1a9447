import SqlLexer.Proofs.Bytewise.Numeral
import SqlLexer.Lexeme.Front

/-!
# The lexeme at the front, byte by byte

The first byte is seen before any reader is chosen.  Words, numbers and bind
variables read it themselves; the other readers find it read.  What they read
behind it they see first, one byte at a time, so that the lexeme at the front
is read without a fault wherever the input ends.
-/

namespace SqlLexer

namespace Cursor

/-- Reads quoted text through its closing quote; the opening one was read before. -/
def readQuoted (quote : UInt8) (kind : Kind) (start : Nat) (cursor : Cursor) (buffer : Bytes) :
    Except EndOfInput (Token × Cursor) :=
  match cursor.peek with
  | none => .ok ({ kind := .invalid, value := buffer, offset := start }, cursor)
  | some byte =>
    match _ : cursor.bump with
    | .error fault => .error fault
    | .ok (_, next) =>
      if byte == quote then
        if next.peek == some quote then
          match _ : next.bump with
          | .error fault => .error fault
          | .ok (_, behind) => behind.readQuoted quote kind start (buffer ++ [quote])
        else .ok ({ kind, value := buffer, offset := start }, next)
      else if byte == Byte.backslash then
        match next.peek with
        | none => .ok ({ kind := .invalid, value := buffer, offset := start }, next)
        | some marker =>
          match _ : next.bump with
          | .error fault => .error fault
          | .ok (_, behind) =>
            behind.readQuoted quote kind start (buffer ++ [Escape.meaning marker])
      else next.readQuoted quote kind start (buffer ++ [byte])
termination_by cursor.rest.length
decreasing_by
  · exact Nat.lt_trans (length_rest_of_bump ‹next.bump = _›)
      (length_rest_of_bump ‹cursor.bump = _›)
  · exact Nat.lt_trans (length_rest_of_bump ‹next.bump = _›)
      (length_rest_of_bump ‹cursor.bump = _›)
  · exact length_rest_of_bump ‹_›

/-- Reads a block comment through its closing mark; the opening one was read before. -/
def readBlock (start : Nat) (cursor : Cursor) (buffer : Bytes) :
    Except EndOfInput (Token × Cursor) :=
  match cursor.peek with
  | none => .ok ({ kind := .invalid, value := buffer, offset := start }, cursor)
  | some byte =>
    match _ : cursor.bumpInto buffer with
    | .error fault => .error fault
    | .ok (longer, next) =>
      if byte == '*'.toUInt8 && next.peek == some '/'.toUInt8 then do
        let (value, behind) ← next.bumpInto longer
        return ({ kind := .comment, value, offset := start }, behind)
      else next.readBlock start longer
termination_by cursor.rest.length
decreasing_by exact length_rest_of_bumpInto ‹_›

/-- What comes of text behind an opening quote when the bytes of a buffer were read before it. -/
def endQuoted (kind : Kind) (start : Nat) (cursor : Cursor) (buffer : Bytes)
    (text : QuotedText) : Token × Cursor :=
  ({ kind := if text.closed then kind else .invalid
     value := buffer ++ text.value
     offset := start },
    cursor.advance text.width)

theorem endQuoted_prepend (kind : Kind) (start : Nat) (cursor : Cursor) (buffer : Bytes)
    (text : QuotedText) (meaning : UInt8) (width : Nat) :
    cursor.endQuoted kind start buffer (text.prepend meaning width) =
      (cursor.advance width).endQuoted kind start (buffer ++ [meaning]) text := by
  rw [endQuoted, endQuoted, advance_advance, List.append_assoc]
  rfl

theorem endQuoted_nil (kind : Kind) (start : Nat) (cursor : Cursor) (buffer : Bytes)
    (width : Nat) (closed : Bool) :
    cursor.endQuoted kind start buffer { value := [], width, closed } =
      ({ kind := if closed then kind else .invalid, value := buffer, offset := start },
        cursor.advance width) := by
  rw [endQuoted, List.append_nil]

/-- Both bytes of a doubled quote and of an escape are seen before they are read. -/
theorem readQuoted_eq {quote : UInt8} (notEscape : (Byte.backslash == quote) = false)
    (kind : Kind) (start : Nat) (cursor : Cursor) (buffer : Bytes) :
    cursor.readQuoted quote kind start buffer =
      .ok (cursor.endQuoted kind start buffer (QuotedText.read quote cursor.rest)) := by
  fun_induction readQuoted quote kind start cursor buffer with
  | case1 cursor buffer atEnd =>
      rw [rest_of_peek_none atEnd, QuotedText.read, endQuoted_nil]
      rfl
  | case2 cursor buffer byte seen fault faulted =>
      rw [bump_of_peek seen] at faulted
      cases faulted
  | case3 cursor buffer byte seen read next bumped isQuote doubled fault faulted =>
      rw [bump_of_peek (eq_of_beq doubled)] at faulted
      cases faulted
  | case4 cursor buffer byte seen read next bumped isQuote doubled readNext behind bumpedNext ih =>
      rw [bump_of_peek seen] at bumped
      cases bumped
      have seenNext : (cursor.advance 1).peek = some quote := eq_of_beq doubled
      rw [bump_of_peek seenNext] at bumpedNext
      cases bumpedNext
      cases eq_of_beq isQuote
      rw [ih, rest_of_peek seen, rest_of_peek seenNext, QuotedText.read_doubled,
        endQuoted_prepend, advance_advance]
  | case5 cursor buffer byte seen read next bumped isQuote single =>
      rw [bump_of_peek seen] at bumped
      cases bumped
      cases eq_of_beq isQuote
      have notDoubled : ¬(cursor.advance 1).rest.head? = some quote := by
        simpa [peek] using single
      rw [rest_of_peek seen, QuotedText.read_closing notDoubled, endQuoted_nil]
      rfl
  | case6 cursor buffer byte seen read next bumped notQuote isEscape atEnd =>
      rw [bump_of_peek seen] at bumped
      cases bumped
      have text : QuotedText.read quote [byte] =
          { value := [], width := 1, closed := false } := by
        rw [QuotedText.read, if_neg notQuote, if_pos isEscape]
      rw [rest_of_peek seen, rest_of_peek_none atEnd, text, endQuoted_nil]
      rfl
  | case7 cursor buffer byte seen read next bumped notQuote isEscape marker seenNext fault
      faulted =>
      rw [bump_of_peek seenNext] at faulted
      cases faulted
  | case8 cursor buffer byte seen read next bumped notQuote isEscape marker seenNext readNext
      behind bumpedNext ih =>
      rw [bump_of_peek seen] at bumped
      cases bumped
      rw [bump_of_peek seenNext] at bumpedNext
      cases bumpedNext
      cases eq_of_beq isEscape
      rw [ih, rest_of_peek seen, rest_of_peek seenNext, QuotedText.read_escaped notEscape,
        endQuoted_prepend, advance_advance]
  | case9 cursor buffer byte seen read next bumped notQuote notBackslash ih =>
      rw [bump_of_peek seen] at bumped
      cases bumped
      rw [ih, rest_of_peek seen,
        QuotedText.read_plain (by simpa using notQuote) (by simpa using notBackslash),
        endQuoted_prepend]

theorem readBlock_eq (start : Nat) (cursor : Cursor) (buffer : Bytes) :
    cursor.readBlock start buffer =
      .ok (match Comment.throughClose? cursor.rest with
        | some body => cursor.endToken .comment start buffer body
        | none => cursor.endToken .invalid start buffer cursor.rest) := by
  fun_induction readBlock start cursor buffer with
  | case1 cursor buffer atEnd =>
      rw [rest_of_peek_none atEnd, Comment.throughClose?, endToken_nil]
  | case2 cursor buffer byte seen fault faulted =>
      rw [bumpInto_of_peek seen] at faulted
      cases faulted
  | case3 cursor buffer byte seen longer next bumped closes =>
      rw [bumpInto_of_peek seen] at bumped
      cases bumped
      simp only [Bool.and_eq_true, beq_iff_eq] at closes
      rw [rest_of_peek seen, Comment.throughClose?_of_isClose closes,
        bumpInto_of_peek closes.2, closes.1, List.append_assoc, advance_advance]
      rfl
  | case4 cursor buffer byte seen longer next bumped goesOn ih =>
      rw [bumpInto_of_peek seen] at bumped
      cases bumped
      have notClose : ¬Comment.IsClose byte (cursor.advance 1).rest := by
        simpa [Comment.IsClose, peek] using goesOn
      rw [ih, rest_of_peek seen, Comment.throughClose?_of_not_isClose notClose]
      cases Comment.throughClose? (cursor.advance 1).rest with
      | none => exact congrArg Except.ok (endToken_append _ _ cursor buffer [byte] _)
      | some body => exact congrArg Except.ok (endToken_append _ _ cursor buffer [byte] body)

/-!
## The readers of the dispatcher

A reader named for a mark finds the mark read, and `readLine` and `readBlock`
both bytes of theirs.
-/

/-- Reads a byte that was seen, as the last one of a token without text. -/
def bumpSymbol (kind : Kind) (start : Nat) (cursor : Cursor) :
    Except EndOfInput (Token × Cursor) := do
  let (_, next) ← cursor.bump
  return (Token.bare kind start, next)

def readWord (start : Nat) (cursor : Cursor) : Except EndOfInput (Token × Cursor) := do
  let (spelling, behind) ←
    BufferReader.andThen bumpInto (BufferReader.bumpWhile Byte.isWordByte) cursor []
  let lowered := Bytes.lower spelling
  match Keyword.find? lowered with
  | some keyword =>
    return ({ kind := .keyword keyword, value := lowered, offset := start }, behind)
  | none => return ({ kind := .identifier, value := spelling, offset := start }, behind)

def readBindVariable (start : Nat) (cursor : Cursor) :
    Except EndOfInput (Token × Cursor) := do
  let (value, behind) ←
    BufferReader.andThen bumpInto (BufferReader.bumpWhile Byte.isBindByte) cursor []
  let kind : Kind := if value.length == 1 then .invalid else .valueArgument
  return ({ kind, value, offset := start }, behind)

def readLine (mark : UInt8) (start : Nat) (cursor : Cursor) :
    Except EndOfInput (Token × Cursor) := do
  let (value, behind) ← BufferReader.bumpLine cursor [mark, mark]
  return ({ kind := .comment, value, offset := start }, behind)

def readPoint (start : Nat) (cursor : Cursor) : Except EndOfInput (Token × Cursor) :=
  if cursor.peekIs Byte.isDigit then cursor.readNumber true start
  else .ok (Token.bare (.punctuation '.'.toUInt8) start, cursor)

def readSlash (start : Nat) (cursor : Cursor) : Except EndOfInput (Token × Cursor) :=
  if cursor.peek == some '/'.toUInt8 then do
    let (_, next) ← cursor.bump
    next.readLine '/'.toUInt8 start
  else if cursor.peek == some '*'.toUInt8 then do
    let (_, next) ← cursor.bump
    next.readBlock start ['/'.toUInt8, '*'.toUInt8]
  else .ok (Token.bare (.punctuation '/'.toUInt8) start, cursor)

def readMinus (start : Nat) (cursor : Cursor) : Except EndOfInput (Token × Cursor) :=
  if cursor.peek == some '-'.toUInt8 then do
    let (_, next) ← cursor.bump
    next.readLine '-'.toUInt8 start
  else .ok (Token.bare (.punctuation '-'.toUInt8) start, cursor)

def readLess (start : Nat) (cursor : Cursor) : Except EndOfInput (Token × Cursor) :=
  if cursor.peek == some '>'.toUInt8 then cursor.bumpSymbol .notEqual start
  else if cursor.peek == some '='.toUInt8 then do
    let (_, next) ← cursor.bump
    if next.peek == some '>'.toUInt8 then next.bumpSymbol .nullSafeEqual start
    else return (Token.bare .lessOrEqual start, next)
  else .ok (Token.bare (.punctuation '<'.toUInt8) start, cursor)

def readGreater (start : Nat) (cursor : Cursor) : Except EndOfInput (Token × Cursor) :=
  if cursor.peek == some '='.toUInt8 then cursor.bumpSymbol .greaterOrEqual start
  else .ok (Token.bare (.punctuation '>'.toUInt8) start, cursor)

def readExclamation (start : Nat) (cursor : Cursor) : Except EndOfInput (Token × Cursor) :=
  if cursor.peek == some '='.toUInt8 then cursor.bumpSymbol .notEqual start
  else .ok ({ kind := .invalid, value := ['!'.toUInt8], offset := start }, cursor)

/-- The bytes that are read as tokens on their own. -/
def standsAlone (byte : UInt8) : Bool :=
  byte == '='.toUInt8 || byte == ','.toUInt8 || byte == ';'.toUInt8 || byte == '('.toUInt8 ||
    byte == ')'.toUInt8 || byte == '+'.toUInt8 || byte == '*'.toUInt8 || byte == '%'.toUInt8 ||
    byte == '&'.toUInt8 || byte == '|'.toUInt8 || byte == '^'.toUInt8 || byte == '~'.toUInt8

def readMark (first : UInt8) (start : Nat) (cursor : Cursor) :
    Except EndOfInput (Token × Cursor) :=
  if first == '?'.toUInt8 then
    .ok ({ kind := .valueArgument, value := ['?'.toUInt8], offset := start }, cursor)
  else if first == '.'.toUInt8 then cursor.readPoint start
  else if first == '/'.toUInt8 then cursor.readSlash start
  else if first == '-'.toUInt8 then cursor.readMinus start
  else if first == '<'.toUInt8 then cursor.readLess start
  else if first == '>'.toUInt8 then cursor.readGreater start
  else if first == '!'.toUInt8 then cursor.readExclamation start
  else if standsAlone first then
    .ok (Token.bare (.punctuation first) start, cursor)
  else .ok ({ kind := .invalid, value := [first], offset := start }, cursor)

/-- Reads the token at the cursor, given its first byte, which was seen.  Words, numbers and bind
variables read that byte themselves. -/
def readFront (first : UInt8) (cursor : Cursor) : Except EndOfInput (Token × Cursor) :=
  if Byte.isLetter first then cursor.readWord cursor.position
  else if Byte.isDigit first then cursor.readNumber false cursor.position
  else if first == ':'.toUInt8 then cursor.readBindVariable cursor.position
  else do
    let (_, next) ← cursor.bump
    if Byte.isQuote first then
      next.readQuoted first (if first == Byte.backQuote then .identifier else .string)
        cursor.position []
    else next.readMark first cursor.position

variable {cursor : Cursor} {rest : Bytes}

theorem bumpSymbol_of_peek {byte : UInt8} (seen : cursor.peek = some byte) (kind : Kind)
    (start : Nat) :
    cursor.bumpSymbol kind start = .ok (Token.bare kind start, cursor.advance 1) := by
  rw [bumpSymbol, bump_of_peek seen]
  rfl

theorem readWord_eq {first : UInt8} (letter : Byte.isLetter first = true)
    (front : cursor.rest = first :: rest) :
    cursor.readWord cursor.position = .ok ((Lexeme.word (first :: rest)).readAt cursor) := by
  have isWord : Byte.isWordByte first = true := by
    rw [Byte.isWordByte, letter, Bool.true_or]
  rw [readWord, (BufferReader.bumpWhile_copies _).behindByte (peek_of_rest front),
    rest_behind front]
  unfold Lexeme.word
  dsimp only
  rw [List.takeWhile_cons_of_pos isWord]
  simp only [bind, Except.bind, List.nil_append]
  generalize Keyword.find? (Bytes.lower (first :: rest.takeWhile Byte.isWordByte)) = found
  cases found <;> rfl

theorem readBindVariable_eq (front : cursor.rest = ':'.toUInt8 :: rest) :
    cursor.readBindVariable cursor.position = .ok ((Lexeme.bindVariable rest).readAt cursor) := by
  rw [readBindVariable, (BufferReader.bumpWhile_copies _).behindByte (peek_of_rest front),
    rest_behind front, Lexeme.bindVariable]
  cases rest.takeWhile Byte.isBindByte <;> rfl

theorem readLine_eq (mark : UInt8) (rest : Bytes) (behind : (cursor.advance 2).rest = rest) :
    (cursor.advance 2).readLine mark cursor.position =
      .ok ((Lexeme.lineComment mark rest).readAt cursor) := by
  rw [readLine, BufferReader.bumpLine_copies, behind]
  exact congrArg Except.ok (endToken_append _ _ cursor [] [mark, mark] _)

theorem readBlock_opened (rest : Bytes) (behind : (cursor.advance 2).rest = rest) :
    (cursor.advance 2).readBlock cursor.position ['/'.toUInt8, '*'.toUInt8] =
      .ok ((Lexeme.blockComment rest).readAt cursor) := by
  rw [readBlock_eq, behind, Lexeme.blockComment]
  cases Comment.throughClose? rest with
  | none =>
      exact congrArg Except.ok (endToken_append _ _ cursor [] ['/'.toUInt8, '*'.toUInt8] _)
  | some body =>
      exact congrArg Except.ok (endToken_append _ _ cursor [] ['/'.toUInt8, '*'.toUInt8] body)

section Mark

/-! Behind a mark stands what decides between its lexemes, and it is read only if it was seen. -/

variable {first : UInt8} (front : cursor.rest = first :: rest)

include front

theorem peek_behind : (cursor.advance 1).peek = rest.head? := by
  rw [peek, rest_behind front]

theorem bumpSymbol_behind {byte : UInt8} (seen : (rest.head? == some byte) = true)
    (kind : Kind) :
    (cursor.advance 1).bumpSymbol kind cursor.position =
      .ok ((Lexeme.symbol kind 2).readAt cursor) := by
  rw [bumpSymbol_of_peek ((peek_behind front).trans (eq_of_beq seen)), advance_advance]
  rfl

theorem bump_behind {byte : UInt8} (seen : (rest.head? == some byte) = true) :
    (cursor.advance 1).bump = .ok (byte, cursor.advance 2) := by
  rw [bump_of_peek ((peek_behind front).trans (eq_of_beq seen)), advance_advance]

theorem rest_behind_two : (cursor.advance 2).rest = rest.tail := by
  rw [rest_advance, front]
  cases rest <;> rfl

theorem readGreater_eq :
    (cursor.advance 1).readGreater cursor.position =
      .ok ((Mark.greater rest).readAt cursor) := by
  rw [readGreater, peek_behind front, Mark.greater]
  split
  · next seen => exact bumpSymbol_behind front seen _
  · rfl

theorem readExclamation_eq :
    (cursor.advance 1).readExclamation cursor.position =
      .ok ((Mark.exclamation rest).readAt cursor) := by
  rw [readExclamation, peek_behind front, Mark.exclamation]
  split
  · next seen => exact bumpSymbol_behind front seen _
  · rfl

theorem readLess_eq :
    (cursor.advance 1).readLess cursor.position = .ok ((Mark.less rest).readAt cursor) := by
  rw [readLess, peek_behind front, Mark.less]
  split
  · next seen => exact bumpSymbol_behind front seen _
  · split
    · next seen =>
        rw [bump_behind front seen]
        simp only [bind, Except.bind]
        rw [peek, rest_behind_two front]
        split
        · next seenThird =>
            have third : (cursor.advance 2).peek = some '>'.toUInt8 := by
              rw [peek, rest_behind_two front]
              exact eq_of_beq seenThird
            rw [bumpSymbol_of_peek third, advance_advance]
            rfl
        · rfl
    · rfl

theorem readMinus_eq :
    (cursor.advance 1).readMinus cursor.position = .ok ((Mark.minus rest).readAt cursor) := by
  rw [readMinus, peek_behind front, Mark.minus]
  split
  · next seen =>
      rw [bump_behind front seen]
      exact readLine_eq _ _ (rest_behind_two front)
  · rfl

theorem readSlash_eq :
    (cursor.advance 1).readSlash cursor.position = .ok ((Mark.slash rest).readAt cursor) := by
  rw [readSlash, peek_behind front, Mark.slash]
  split
  · next seen =>
      rw [bump_behind front seen]
      exact readLine_eq _ _ (rest_behind_two front)
  · split
    · next seen =>
        rw [bump_behind front seen]
        exact readBlock_opened _ (rest_behind_two front)
    · rfl

end Mark

theorem readPoint_eq (front : cursor.rest = '.'.toUInt8 :: rest) :
    (cursor.advance 1).readPoint cursor.position = .ok ((Mark.point rest).readAt cursor) := by
  rw [readPoint, peekIs, peek_behind front, Mark.point]
  split
  · exact readNumber_point front
  · rfl

theorem standsAlone_eq (byte : UInt8) : standsAlone byte = Mark.standalone.contains byte := by
  simp only [standsAlone, Mark.standalone, List.map_cons, List.map_nil, List.contains_cons,
    List.contains_nil, Bool.or_false, Bool.or_assoc]

theorem readMark_eq {first : UInt8} (front : cursor.rest = first :: rest) :
    (cursor.advance 1).readMark first cursor.position =
      .ok ((Mark.lexeme first rest).readAt cursor) := by
  unfold readMark Mark.lexeme
  rw [standsAlone_eq]
  by_cases isPoint : (first == '.'.toUInt8) = true
  · cases eq_of_beq isPoint
    exact readPoint_eq front
  · rw [if_neg isPoint, if_neg isPoint]
    repeat' split
    · rfl
    · exact readSlash_eq front
    · exact readMinus_eq front
    · exact readLess_eq front
    · exact readGreater_eq front
    · exact readExclamation_eq front
    · rfl
    · rfl

theorem readQuoted_opened {quote : UInt8} (isQuote : Byte.isQuote quote = true)
    (front : cursor.rest = quote :: rest) :
    (cursor.advance 1).readQuoted quote (if quote == Byte.backQuote then .identifier else .string)
        cursor.position [] =
      .ok ((Lexeme.quoted quote rest).readAt cursor) := by
  have notEscape : (Byte.backslash == quote) = false :=
    beq_false_of_ne (Byte.ne_backslash_of_isQuote isQuote).symm
  rw [readQuoted_eq notEscape, rest_behind front, endQuoted, advance_advance, Nat.add_comm]
  rfl

/-- Whatever stands first is read without a fault, as the lexeme that it starts. -/
theorem readFront_eq {first : UInt8} (front : cursor.rest = first :: rest) :
    cursor.readFront first = .ok ((Lexeme.ofFront first rest).readAt cursor) := by
  rw [readFront, bump_of_peek (peek_of_rest front), Lexeme.ofFront]
  split
  · next letter => exact readWord_eq letter front
  split
  · next digit => exact readNumber_eq digit front
  by_cases colon : (first == ':'.toUInt8) = true
  · cases eq_of_beq colon
    exact readBindVariable_eq front
  · rw [if_neg colon, if_neg colon]
    simp only [bind, Except.bind]
    split
    · next isQuote => exact readQuoted_opened isQuote front
    · exact readMark_eq front

end Cursor

end SqlLexer
