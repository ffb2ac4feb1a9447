import SqlLexer.Proofs.QuotedText

/-!
# Bytes that end a lexeme

For most readers of the lexer a blank, a quote or a slash behind the input is as
good as the end of it: no word, number or operator goes on with one of these.
Only text that waits for a closing mark, or for the end of its line, reads the
byte as a part of itself, and quotes and slashes may join with their like.
`StopsAt` states this for readers of every result, and like the law about
lookahead it survives sequencing and branching on the next byte.
-/

namespace SqlLexer

/-- Unless its result is still open, the reader reads the same in front of the
byte as at the end of the input. -/
def StopsAt {α : Type} (stop : UInt8) (isOpen : α → Prop) (read : Bytes → α) : Prop :=
  ∀ input behind, ¬isOpen (read input) → read (input ++ stop :: behind) = read input

namespace StopsAt

variable {α β : Type} {stop : UInt8} {isOpen : α → Prop} {read : Bytes → α}

theorem const (stop : UInt8) (isOpen : α → Prop) (result : α) :
    StopsAt stop isOpen (fun _ => result) :=
  fun _ _ _ => rfl

theorem through (stops : StopsAt stop isOpen read) {isOpenAfter : β → Prop} {after : Bytes → β}
    (opens : ∀ input, isOpen (read input) → isOpenAfter (after input))
    (determined : ∀ left right, read left = read right → after left = after right) :
    StopsAt stop isOpenAfter after := by
  intro input behind closed
  exact determined _ _ (stops input behind fun isOpen => closed (opens input isOpen))

theorem mono (stops : StopsAt stop isOpen read) {isOpenAfter : α → Prop}
    (opens : ∀ result, isOpen result → isOpenAfter result) : StopsAt stop isOpenAfter read :=
  stops.through (fun input => opens (read input)) (fun _ _ => id)

theorem afterByte (stops : StopsAt stop isOpen read) (byte : UInt8) :
    StopsAt stop isOpen (fun input => read (byte :: input)) :=
  fun input behind closed => stops (byte :: input) behind closed

/-- A choice by the class of the next byte.  If the stop belongs to it, then the
reader is open without a next byte. -/
theorem branch {onMatch other : Bytes → α} {inClass : UInt8 → Bool}
    (outside : inClass stop = true → isOpen (other []))
    (matching : ∀ byte, inClass byte = true →
      StopsAt stop isOpen (fun rest => onMatch (byte :: rest)))
    (others : StopsAt stop isOpen other) :
    StopsAt stop isOpen
      (fun input => if input.head?.any inClass then onMatch input else other input) := by
  intro input behind closed
  let choice := fun input : Bytes =>
    if input.head?.any inClass then onMatch input else other input
  have matched {byte : UInt8} (rest : Bytes) (inside : inClass byte = true) :
      choice (byte :: rest) = onMatch (byte :: rest) := by
    simp [choice, inside]
  have unmatched {byte : UInt8} (rest : Bytes) (notInside : ¬inClass byte = true) :
      choice (byte :: rest) = other (byte :: rest) := by
    simp [choice, notInside]
  change ¬isOpen (choice input) at closed
  change choice (input ++ stop :: behind) = choice input
  cases input with
  | nil =>
      rw [List.nil_append, unmatched behind (fun inside => closed (outside inside))]
      exact others [] behind closed
  | cons byte rest =>
      by_cases inside : inClass byte = true
      · rw [matched rest inside] at closed
        rw [List.cons_append, matched _ inside, matched rest inside]
        exact matching byte inside rest behind closed
      · rw [unmatched rest inside] at closed
        rw [List.cons_append, unmatched _ inside, unmatched rest inside]
        exact others (byte :: rest) behind closed

theorem branchByte {onMatch other : Bytes → α} {expected : UInt8}
    (different : (stop == expected) = true → isOpen (other []))
    (matching : StopsAt stop isOpen onMatch) (others : StopsAt stop isOpen other) :
    StopsAt stop isOpen
      (fun input => if input.head? == some expected then onMatch input.tail else other input) := by
  have sameTest : ∀ input : Bytes,
      (input.head? == some expected) = input.head?.any (· == expected) := by
    intro input
    cases input <;> rfl
  simp only [sameTest]
  exact branch different (fun _ _ => matching) others

end StopsAt

namespace Byte

/-- A byte that opens text which needs a closing mark, or may do so. -/
def opensText (byte : UInt8) : Bool :=
  isQuote byte || byte == '/'.toUInt8

/-- A byte with which no lexeme goes on, except for text that is open and for
quotes and slashes themselves. -/
def endsLexeme (byte : UInt8) : Bool :=
  isBlank byte || opensText byte

theorem endsLexeme_of_isBlank {byte : UInt8} (blank : isBlank byte = true) :
    endsLexeme byte = true := by
  rw [endsLexeme, blank, Bool.true_or]

theorem not_of_endsLexeme (inClass : UInt8 → Bool) {byte : UInt8}
    (excludes : [' '.toUInt8, '\t'.toUInt8, '\r'.toUInt8, '\n'.toUInt8, singleQuote, doubleQuote,
      backQuote, '/'.toUInt8].any inClass = false)
    (ends : endsLexeme byte = true) : ¬inClass byte = true := by
  have listed : byte ∈ [' '.toUInt8, '\t'.toUInt8, '\r'.toUInt8, '\n'.toUInt8, singleQuote,
      doubleQuote, backQuote, '/'.toUInt8] := by
    simp only [endsLexeme, opensText, isBlank, isQuote, Bool.or_eq_true, beq_iff_eq] at ends
    rcases ends with (((rfl | rfl) | rfl) | rfl) | (((rfl | rfl) | rfl) | rfl) <;> simp
  exact List.any_eq_false.mp excludes byte listed

end Byte

/-! ## Runs of bytes -/

theorem takeWhile_stopsAt {inClass : UInt8 → Bool} {stop : UInt8}
    (outside : ¬inClass stop = true) :
    StopsAt stop (fun _ => False) (fun input : Bytes => input.takeWhile inClass) := by
  intro input behind _
  have nothing : (stop :: behind).takeWhile inClass = [] :=
    List.takeWhile_cons_of_neg outside
  simp only [List.takeWhile_append, nothing, List.append_nil]
  split
  · next whole => exact ((List.takeWhile_sublist inClass).eq_of_length whole).symm
  · rfl

namespace StopsAt

variable {stop : UInt8}

theorem append {first second : Bytes → Bytes} (ahead : OneAhead List.length 0 first)
    (firstStops : StopsAt stop (fun _ => False) first)
    (secondStops : StopsAt stop (fun _ => False) second) :
    StopsAt stop (fun _ => False)
      (fun input => first input ++ second (input.drop (first input).length)) := by
  intro input behind _
  have bound := ahead.width_le input
  have firstSame := firstStops input behind not_false
  have secondSame := secondStops (input.drop (first input).length) behind not_false
  simp only [firstSame]
  rw [List.drop_append_of_le_length (by omega), secondSame]

theorem headed {read tail : Bytes → Bytes} {inClass : UInt8 → Bool}
    (outside : ¬inClass stop = true) (tailStops : StopsAt stop (fun _ => False) tail)
    (atEnd : read [] = [])
    (atByte : ∀ byte rest, read (byte :: rest) =
      if inClass byte then byte :: tail rest else []) :
    StopsAt stop (fun _ => False) read := by
  intro input behind _
  cases input with
  | nil =>
      rw [List.nil_append, atByte, atEnd, if_neg outside]
  | cons byte rest =>
      rw [List.cons_append, atByte, atByte, tailStops rest behind not_false]

end StopsAt

namespace Numeral

variable {stop : UInt8}

theorem digits_stopAt (ends : Byte.endsLexeme stop = true) :
    StopsAt stop (fun _ => False) (fun input : Bytes => input.takeWhile Byte.isDigit) :=
  takeWhile_stopsAt (Byte.not_of_endsLexeme _ (by decide) ends)

theorem fraction_stopsAt (ends : Byte.endsLexeme stop = true) :
    StopsAt stop (fun _ => False) fraction :=
  (digits_stopAt ends).headed (Byte.not_of_endsLexeme (· == '.'.toUInt8) (by decide) ends) rfl
    (fun _ _ => rfl)

theorem sign_stopsAt (ends : Byte.endsLexeme stop = true) :
    StopsAt stop (fun _ => False) sign :=
  (StopsAt.const stop _ []).headed
    (Byte.not_of_endsLexeme (fun byte => byte == '+'.toUInt8 || byte == '-'.toUInt8) (by decide)
      ends) rfl (fun _ _ => rfl)

theorem exponent_stopsAt (ends : Byte.endsLexeme stop = true) :
    StopsAt stop (fun _ => False) exponent :=
  (StopsAt.append sign_oneAhead (sign_stopsAt ends) (digits_stopAt ends)).headed
    (Byte.not_of_endsLexeme (fun byte => byte == 'e'.toUInt8 || byte == 'E'.toUInt8) (by decide)
      ends) rfl (fun _ _ => rfl)

theorem decimal_stopsAt (ends : Byte.endsLexeme stop = true) :
    StopsAt stop (fun _ => False) decimal := by
  have wholeAhead := takeWhile_oneAhead Byte.isDigit
  rw [decimal_eq_append]
  exact StopsAt.append (wholeAhead.append fraction_oneAhead)
    (StopsAt.append wholeAhead (digits_stopAt ends) (fraction_stopsAt ends))
    (exponent_stopsAt ends)

theorem ofFront_stopsAt (ends : Byte.endsLexeme stop = true) :
    StopsAt stop (fun _ => False) ofFront := by
  have hexDigits : StopsAt stop (fun _ => False)
      (fun input : Bytes => input.takeWhile Byte.isHexDigit) :=
    takeWhile_stopsAt (Byte.not_of_endsLexeme _ (by decide) ends)
  rw [ofFront_eq_branch]
  refine StopsAt.branch (Byte.not_of_endsLexeme (· == '0'.toUInt8) (by decide) ends) ?_
    (decimal_stopsAt ends)
  intro zero isZero
  rw [eq_of_beq isZero]
  simp only [ofFront_zero]
  refine StopsAt.branch (Byte.not_of_endsLexeme isHexMark (by decide) ends) ?_
    ((decimal_stopsAt ends).afterByte _)
  intro mark marked
  exact hexDigits.through (fun _ => id)
    (fun _ _ same => congrArg ('0'.toUInt8 :: mark :: ·) same)

end Numeral

/-! ## Text that waits for its end -/

/-- Closed text ends with its quote, unless the same quote stands behind it. -/
theorem QuotedText.read_stopsAt {quote stop : UInt8} (notEscape : quote ≠ Byte.backslash)
    (different : stop ≠ quote) :
    StopsAt stop (fun text => text.closed = false) (read quote) := by
  intro input behind closed
  have splits := splits_read quote input
  generalize read quote input = text at closed splits
  cases splits with
  | @closed body value rest units single =>
      rw [List.append_assoc, List.cons_append]
      apply read_of_splits notEscape
      apply Splits.closed units
      cases rest with
      | nil => simpa using different
      | cons next others => exact single
  | unclosed units => exact absurd rfl closed
  | loneEscape units => exact absurd rfl closed

namespace Comment

theorem throughLine_append {input : Bytes}
    (ends : (throughLine input).getLast? = some Byte.lineFeed) (behind : Bytes) :
    throughLine (input ++ behind) = throughLine input := by
  induction input with
  | nil => cases ends
  | cons byte rest ih =>
      by_cases isEnd : (byte == Byte.lineFeed) = true
      · simp only [List.cons_append, throughLine, isEnd, if_true]
      · simp only [List.cons_append, throughLine, isEnd, Bool.false_eq_true, if_false] at ends ⊢
        rw [List.getLast?_cons, Option.some.injEq] at ends
        have endsBehind : (throughLine rest).getLast? = some Byte.lineFeed := by
          cases last : (throughLine rest).getLast? with
          | none =>
              rw [last, Option.getD_none] at ends
              exact absurd (beq_iff_eq.mpr ends) isEnd
          | some other =>
              rw [last, Option.getD_some] at ends
              rw [ends]
        rw [ih endsBehind]

theorem throughLine_of_cutOff {input : Bytes}
    (cutOff : (throughLine input).getLast? ≠ some Byte.lineFeed) : throughLine input = input := by
  induction input with
  | nil => rfl
  | cons byte rest ih =>
      rw [throughLine] at cutOff ⊢
      split
      · next isEnd =>
          rw [if_pos isEnd, eq_of_beq isEnd] at cutOff
          exact absurd rfl cutOff
      · next notEnd =>
          rw [if_neg notEnd, List.getLast?_cons] at cutOff
          rw [ih]
          intro ends
          rw [ends] at cutOff
          exact cutOff rfl

theorem throughLine_append_lineFeed {input : Bytes} (whole : throughLine input = input)
    (cutOff : input.getLast? ≠ some Byte.lineFeed) (behind : Bytes) :
    throughLine (input ++ Byte.lineFeed :: behind) = input ++ [Byte.lineFeed] := by
  induction input with
  | nil => rfl
  | cons byte rest ih =>
      rw [throughLine] at whole
      split at whole
      · next isEnd =>
          obtain rfl : [] = rest := (List.cons.inj whole).2
          exact absurd (congrArg some (eq_of_beq isEnd)) cutOff
      · next notEnd =>
          have cutOffBehind : rest.getLast? ≠ some Byte.lineFeed := by
            intro ends
            rw [List.getLast?_cons, ends, Option.getD_some] at cutOff
            exact cutOff rfl
          rw [List.cons_append, throughLine, if_neg notEnd, ih (List.cons.inj whole).2 cutOffBehind,
            List.cons_append]

end Comment

/-- A comment of one line without the line feed that ends it. -/
def Token.isOpenLine (token : Token) : Bool :=
  token.kind == .comment && [ascii "--", ascii "//"].contains (token.value.take 2) &&
    token.value.getLast? != some Byte.lineFeed

/-- The stop becomes a part of a lexeme of this kind with this first byte: it
doubles the quote at its end, or a slash that stands alone. -/
def Kind.JoinsStop (kind : Kind) (first stop : UInt8) : Prop :=
  stop = first ∧ (Byte.isQuote first = true ∨ first = '/'.toUInt8 ∧ kind = .punctuation first)

namespace Lexeme

variable {stop : UInt8}

/-- The lexeme with this first byte may go on with the stop where the input ends:
it misses a closing mark, or the end of its line, or the stop joins it. -/
def IsOpen (stop first : UInt8) (lexeme : Lexeme) : Prop :=
  (lexeme.kind = .invalid ∧ Byte.opensText first = true) ∨
    (lexeme.toToken 0).isOpenLine = true ∨ lexeme.kind.JoinsStop first stop

theorem word_stopsAt (ends : Byte.endsLexeme stop = true) : StopsAt stop (fun _ => False) word :=
  (takeWhile_stopsAt (Byte.not_of_endsLexeme Byte.isWordByte (by decide) ends)).through
    (fun _ => id) fun _ _ => word_congr

theorem bindVariable_stopsAt (ends : Byte.endsLexeme stop = true) :
    StopsAt stop (fun _ => False) bindVariable :=
  (takeWhile_stopsAt (Byte.not_of_endsLexeme Byte.isBindByte (by decide) ends)).through
    (fun _ => id) fun _ _ => bindVariable_congr

theorem number_stopsAt (ends : Byte.endsLexeme stop = true) :
    StopsAt stop (fun _ => False) number :=
  (Numeral.ofFront_stopsAt ends).through (fun _ => id) fun _ _ => number_congr

theorem quoted_stopsAt {quote : UInt8} (isQuote : Byte.isQuote quote = true) (stop : UInt8) :
    StopsAt stop (IsOpen stop quote) (quoted quote) := by
  by_cases same : stop = quote
  · intro input behind closed
    exact absurd (.inr (.inr ⟨same, .inl isQuote⟩)) closed
  · have notEscape := Byte.ne_backslash_of_isQuote isQuote
    have opens : Byte.opensText quote = true := by
      rw [Byte.opensText, isQuote, Bool.true_or]
    refine (QuotedText.read_stopsAt notEscape same).through ?_ fun _ _ => quoted_congr
    intro input notClosed
    refine .inl ⟨?_, opens⟩
    simp [quoted, notClosed]

theorem blockComment_stopsAt (stop : UInt8) :
    StopsAt stop (fun lexeme => lexeme.kind = .invalid) blockComment := by
  intro input behind closed
  cases closes : Comment.throughClose? input with
  | none =>
      rw [blockComment_open closes] at closed
      exact absurd rfl closed
  | some body =>
      rw [blockComment_closed closes]
      exact blockComment_closed (Comment.throughClose?_extend closes _)

theorem isOpenLine_lineComment {mark : UInt8}
    (marks : mark = '-'.toUInt8 ∨ mark = '/'.toUInt8) (input : Bytes) :
    ((lineComment mark input).toToken 0).isOpenLine =
      ((Comment.throughLine input).getLast? != some Byte.lineFeed) := by
  have opens : [ascii "--", ascii "//"].contains [mark, mark] = true := by
    rcases marks with rfl | rfl <;> decide
  have notLineFeed : (some mark != some Byte.lineFeed) = true := by
    rcases marks with rfl | rfl <;> decide
  simp only [Token.isOpenLine, lineComment, verbatim, toToken, BEq.rfl, Bool.true_and,
    List.take_succ_cons, List.take_zero, opens, List.getLast?_cons]
  cases Comment.throughLine input |>.getLast? with
  | none => exact notLineFeed
  | some last => rfl

theorem lineComment_stopsAt {mark : UInt8} (marks : mark = '-'.toUInt8 ∨ mark = '/'.toUInt8)
    (stop : UInt8) :
    StopsAt stop (fun lexeme => (lexeme.toToken 0).isOpenLine = true) (lineComment mark) := by
  intro input behind closed
  dsimp only at closed
  rw [isOpenLine_lineComment marks, bne_iff_ne, Decidable.not_not] at closed
  unfold lineComment
  rw [Comment.throughLine_append closed]

end Lexeme

namespace Mark

variable {stop : UInt8}

theorem point_stopsAt (ends : Byte.endsLexeme stop = true) :
    StopsAt stop (fun _ => False) point :=
  StopsAt.branch (Byte.not_of_endsLexeme Byte.isDigit (by decide) ends)
    (fun digit _ => ((Lexeme.number_stopsAt ends).afterByte _).afterByte digit)
    (StopsAt.const stop _ _)

theorem slash_stopsAt (ends : Byte.endsLexeme stop = true) :
    StopsAt stop (Lexeme.IsOpen stop '/'.toUInt8) slash :=
  StopsAt.branchByte (fun isSlash => .inr (.inr ⟨eq_of_beq isSlash, .inr ⟨rfl, rfl⟩⟩))
    ((Lexeme.lineComment_stopsAt (.inr rfl) stop).mono fun _ isOpen => .inr (.inl isOpen))
    (StopsAt.branchByte
      (fun isStar => absurd isStar (Byte.not_of_endsLexeme (· == '*'.toUInt8) (by decide) ends))
      ((Lexeme.blockComment_stopsAt stop).mono fun _ invalid => .inl ⟨invalid, by decide⟩)
      (StopsAt.const stop _ _))

theorem minus_stopsAt (ends : Byte.endsLexeme stop = true) :
    StopsAt stop (Lexeme.IsOpen stop '-'.toUInt8) minus :=
  StopsAt.branchByte
    (fun isMinus => absurd isMinus (Byte.not_of_endsLexeme (· == '-'.toUInt8) (by decide) ends))
    ((Lexeme.lineComment_stopsAt (.inl rfl) stop).mono fun _ isOpen => .inr (.inl isOpen))
    (StopsAt.const stop _ _)

theorem less_stopsAt (ends : Byte.endsLexeme stop = true) : StopsAt stop (fun _ => False) less :=
  StopsAt.branchByte (Byte.not_of_endsLexeme (· == '>'.toUInt8) (by decide) ends)
    (StopsAt.const stop _ _)
    (StopsAt.branchByte (Byte.not_of_endsLexeme (· == '='.toUInt8) (by decide) ends)
      (StopsAt.branchByte (Byte.not_of_endsLexeme (· == '>'.toUInt8) (by decide) ends)
        (StopsAt.const stop _ _) (StopsAt.const stop _ _))
      (StopsAt.const stop _ _))

theorem greater_stopsAt (ends : Byte.endsLexeme stop = true) :
    StopsAt stop (fun _ => False) greater :=
  StopsAt.branchByte (Byte.not_of_endsLexeme (· == '='.toUInt8) (by decide) ends)
    (StopsAt.const stop _ _) (StopsAt.const stop _ _)

theorem exclamation_stopsAt (ends : Byte.endsLexeme stop = true) :
    StopsAt stop (fun _ => False) exclamation :=
  StopsAt.branchByte (Byte.not_of_endsLexeme (· == '='.toUInt8) (by decide) ends)
    (StopsAt.const stop _ _) (StopsAt.const stop _ _)

theorem lexeme_stopsAt (first : UInt8) (ends : Byte.endsLexeme stop = true) :
    StopsAt stop (Lexeme.IsOpen stop first) (lexeme first) := by
  unfold lexeme
  repeat' split
  · exact StopsAt.const stop _ _
  · exact (point_stopsAt ends).mono fun _ => False.elim
  · next isSlash =>
      rw [eq_of_beq isSlash]
      exact slash_stopsAt ends
  · next isMinus =>
      rw [eq_of_beq isMinus]
      exact minus_stopsAt ends
  · exact (less_stopsAt ends).mono fun _ => False.elim
  · exact (greater_stopsAt ends).mono fun _ => False.elim
  · exact (exclamation_stopsAt ends).mono fun _ => False.elim
  · exact StopsAt.const stop _ _
  · exact StopsAt.const stop _ _

end Mark

/-- Whatever comes first, the lexeme there ends at such a byte, unless it is open. -/
theorem Lexeme.ofFront_stopsAt (first : UInt8) {stop : UInt8}
    (ends : Byte.endsLexeme stop = true) : StopsAt stop (IsOpen stop first) (ofFront first) := by
  rcases ofFront_cases first with
    ⟨_, isWord⟩ | ⟨_, isNumber⟩ | ⟨quote, isQuoted⟩ | ⟨_, isBind⟩ | ⟨_, isMark⟩
  · rw [isWord]
    exact ((word_stopsAt ends).afterByte first).mono fun _ => False.elim
  · rw [isNumber]
    exact ((number_stopsAt ends).afterByte first).mono fun _ => False.elim
  · rw [isQuoted]
    exact quoted_stopsAt quote stop
  · rw [isBind]
    exact (bindVariable_stopsAt ends).mono fun _ => False.elim
  · rw [isMark]
    exact Mark.lexeme_stopsAt first ends

end SqlLexer
