import SqlLexer.Lexeme.Front

/-!
# One byte of lookahead

No reader of the lexer looks further than one byte past what it takes, and
none goes back.  `OneAhead` states this once for readers of every result: what
is read may be cut behind its last byte, and may be extended behind the byte
that was looked at.  Both halves survive sequencing and branching on the next
byte, so the law for the front of an input is assembled like the reader itself.
-/

namespace SqlLexer

/-- A reader that starts with `taken` bytes already read, takes a run of its
input, and looks at one more byte at most.  `width` counts all bytes of a
result, the ones taken before included. -/
structure OneAhead {α : Type} (width : α → Nat) (taken : Nat)
    (read : Bytes → α) : Prop where
  taken_le : ∀ input, taken ≤ width (read input)
  width_le : ∀ input, width (read input) ≤ taken + input.length
  /-- What lies behind the result may be missing. -/
  cut : ∀ kept more, width (read (kept ++ more)) ≤ taken + kept.length →
    read kept = read (kept ++ more)
  /-- Once a byte behind the result is seen, nothing after that byte matters. -/
  extend : ∀ kept more, width (read kept) < taken + kept.length →
    read (kept ++ more) = read kept

namespace OneAhead

variable {α β : Type} {width : α → Nat} {taken : Nat} {read : Bytes → α}

/-- The result depends on the bytes read and on the next one alone. -/
theorem swap (ahead : OneAhead width taken read)
    {kept more : Bytes} {next : UInt8}
    (fits : width (read (kept ++ next :: more)) ≤ taken + kept.length)
    (other : Bytes) :
    read (kept ++ next :: other) = read (kept ++ next :: more) := by
  have split : ∀ rest, kept ++ next :: rest = (kept ++ [next]) ++ rest := by
    intro rest
    simp
  have cutAfterNext : read (kept ++ [next]) = read (kept ++ next :: more) := by
    rw [split more]
    apply ahead.cut
    rw [← split more, List.length_append, List.length_singleton]
    omega
  have narrow : width (read (kept ++ [next])) <
      taken + (kept ++ [next]).length := by
    rw [cutAfterNext, List.length_append, List.length_singleton]
    omega
  rw [split other, ahead.extend _ other narrow, cutAfterNext]

theorem const (width : α → Nat) (result : α) :
    OneAhead width (width result) (fun _ => result) where
  taken_le _ := Nat.le_refl _
  width_le _ := Nat.le_add_right _ _
  cut _ _ _ := rfl
  extend _ _ _ := rfl

theorem through (ahead : OneAhead width taken read)
    {widthAfter : β → Nat} {after : Bytes → β} (added : Nat)
    (measured : ∀ input, widthAfter (after input) = added + width (read input))
    (determined : ∀ left right, read left = read right → after left = after right) :
    OneAhead widthAfter (added + taken) after where
  taken_le input := by
    have bound := ahead.taken_le input
    rw [measured]
    omega
  width_le input := by
    have bound := ahead.width_le input
    rw [measured]
    omega
  cut kept more fits := by
    rw [measured] at fits
    exact determined _ _ (ahead.cut kept more (by omega))
  extend kept more fits := by
    rw [measured] at fits
    exact determined _ _ (ahead.extend kept more (by omega))

theorem afterByte (ahead : OneAhead width taken read) {byte : UInt8}
    (takes : ∀ input, taken + 1 ≤ width (read (byte :: input))) :
    OneAhead width (taken + 1) (fun input => read (byte :: input)) where
  taken_le := takes
  width_le input := by
    have bound := ahead.width_le (byte :: input)
    rw [List.length_cons] at bound
    omega
  cut kept more fits := by
    apply ahead.cut (byte :: kept) more
    rw [List.length_cons]
    exact (Nat.add_right_comm taken 1 kept.length ▸ fits)
  extend kept more fits := by
    apply ahead.extend (byte :: kept) more
    rw [List.length_cons]
    omega

/-- A choice by the class of the next byte.  The byte that decides for the
first reader is taken by it. -/
theorem branch {onMatch other : Bytes → α} (inClass : UInt8 → Bool)
    (matching : ∀ byte, inClass byte = true →
      OneAhead width (taken + 1) (fun rest => onMatch (byte :: rest)))
    (others : OneAhead width taken other) :
    OneAhead width taken
      (fun input => if input.head?.any inClass then onMatch input
        else other input) := by
  let choice := fun input : Bytes =>
    if input.head?.any inClass then onMatch input else other input
  have matched : ∀ byte rest, inClass byte = true →
      choice (byte :: rest) = onMatch (byte :: rest) := by
    intro byte rest inside
    simp [choice, inside]
  have unmatched : ∀ byte rest, ¬inClass byte = true →
      choice (byte :: rest) = other (byte :: rest) := by
    intro byte rest outside
    simp [choice, outside]
  change OneAhead width taken choice
  constructor
  · intro input
    cases input with
    | nil => exact others.taken_le []
    | cons byte rest =>
        by_cases inside : inClass byte = true
        · rw [matched byte rest inside]
          exact Nat.le_of_succ_le ((matching byte inside).taken_le rest)
        · rw [unmatched byte rest inside]
          exact others.taken_le (byte :: rest)
  · intro input
    cases input with
    | nil => exact others.width_le []
    | cons byte rest =>
        by_cases inside : inClass byte = true
        · have bound := (matching byte inside).width_le rest
          rw [matched byte rest inside, List.length_cons]
          omega
        · rw [unmatched byte rest inside]
          exact others.width_le (byte :: rest)
  · intro kept more fits
    cases kept with
    | nil =>
        cases more with
        | nil => rfl
        | cons byte rest =>
            by_cases inside : inClass byte = true
            · have bound := (matching byte inside).taken_le rest
              rw [List.nil_append, matched byte rest inside,
                List.length_nil] at fits
              omega
            · rw [List.nil_append, unmatched byte rest inside] at fits ⊢
              exact others.cut [] (byte :: rest) fits
    | cons byte rest =>
        by_cases inside : inClass byte = true
        · rw [List.cons_append, matched byte _ inside,
            List.length_cons] at fits
          rw [List.cons_append, matched byte _ inside,
            matched byte _ inside]
          exact (matching byte inside).cut rest more (by omega)
        · rw [List.cons_append, unmatched byte _ inside] at fits
          rw [List.cons_append, unmatched byte _ inside,
            unmatched byte _ inside]
          exact others.cut (byte :: rest) more fits
  · intro kept more fits
    cases kept with
    | nil =>
        have bound := others.taken_le []
        have atEnd : choice [] = other [] := rfl
        rw [atEnd, List.length_nil] at fits
        omega
    | cons byte rest =>
        by_cases inside : inClass byte = true
        · rw [matched byte _ inside, List.length_cons] at fits
          rw [List.cons_append, matched byte _ inside,
            matched byte _ inside]
          exact (matching byte inside).extend rest more (by omega)
        · rw [unmatched byte _ inside] at fits
          rw [List.cons_append, unmatched byte _ inside,
            unmatched byte _ inside]
          exact others.extend (byte :: rest) more fits

theorem branchByte {onMatch other : Bytes → α} (expected : UInt8)
    (matching : OneAhead width (taken + 1) onMatch)
    (others : OneAhead width taken other) :
    OneAhead width taken
      (fun input => if input.head? == some expected then onMatch input.tail
        else other input) := by
  have sameTest : ∀ input : Bytes,
      (input.head? == some expected) = input.head?.any (· == expected) := by
    intro input
    cases input <;> rfl
  simp only [sameTest]
  exact branch (· == expected) (fun _ _ => matching) others

end OneAhead

/-! ## Runs of bytes -/

theorem drop_length_takeWhile {α : Type} (inClass : α → Bool) (items : List α) :
    items.drop (items.takeWhile inClass).length =
      items.dropWhile inClass := by
  calc
    items.drop (items.takeWhile inClass).length =
        (items.takeWhile inClass ++ items.dropWhile inClass).drop
          (items.takeWhile inClass).length := by
      rw [List.takeWhile_append_dropWhile]
    _ = items.dropWhile inClass := List.drop_left

theorem takeWhile_oneAhead (inClass : UInt8 → Bool) :
    OneAhead List.length 0 (fun input : Bytes => input.takeWhile inClass) where
  taken_le _ := Nat.zero_le _
  width_le input := by
    rw [Nat.zero_add]
    exact (List.takeWhile_sublist inClass).length_le
  cut kept more fits := by
    rw [Nat.zero_add, List.takeWhile_append] at fits
    rw [List.takeWhile_append]
    split at fits
    · next whole =>
      rw [List.length_append] at fits
      have nothingMore : more.takeWhile inClass = [] :=
        List.eq_nil_of_length_eq_zero (by omega)
      have sublist : kept.takeWhile inClass = kept :=
        (List.takeWhile_sublist inClass).eq_of_length whole
      rw [if_pos whole, nothingMore, List.append_nil, sublist]
    · next partly => rw [if_neg partly]
  extend kept more fits := by
    rw [List.takeWhile_append, if_neg]
    omega

namespace OneAhead

/-- One reader after the other, the second on what the first leaves. -/
theorem append {first second : Bytes → Bytes}
    (firstAhead : OneAhead List.length 0 first)
    (secondAhead : OneAhead List.length 0 second) :
    OneAhead List.length 0
      (fun input => first input ++ second (input.drop (first input).length)) where
  taken_le _ := Nat.zero_le _
  width_le input := by
    have firstBound := firstAhead.width_le input
    have secondBound :=
      secondAhead.width_le (input.drop (first input).length)
    rw [List.length_drop] at secondBound
    rw [List.length_append]
    omega
  cut kept more fits := by
    rw [List.length_append] at fits
    have firstSame : first kept = first (kept ++ more) :=
      firstAhead.cut kept more (by omega)
    have bound := firstAhead.width_le kept
    rw [← firstSame, List.drop_append_of_le_length (by omega)] at fits ⊢
    rw [secondAhead.cut _ more (by rw [List.length_drop]; omega)]
  extend kept more fits := by
    rw [List.length_append] at fits
    have firstSame : first (kept ++ more) = first kept :=
      firstAhead.extend kept more (by omega)
    have bound := firstAhead.width_le kept
    rw [firstSame, List.drop_append_of_le_length (by omega),
      secondAhead.extend _ more (by rw [List.length_drop]; omega)]

theorem headed {read tail : Bytes → Bytes} {inClass : UInt8 → Bool}
    (tailAhead : OneAhead List.length 0 tail)
    (atEnd : read [] = [])
    (atByte : ∀ byte rest, read (byte :: rest) =
      if inClass byte then byte :: tail rest else []) :
    OneAhead List.length 0 read := by
  have unfolded : read = fun input =>
      if input.head?.any inClass then
        (input.head?.toList ++ tail input.tail) else [] := by
    funext input
    cases input with
    | nil => exact atEnd
    | cons byte rest =>
        rw [atByte]
        rfl
  rw [unfolded]
  apply branch inClass
  · intro byte inside
    exact tailAhead.through 1
      (fun input => Nat.add_comm (tail input).length 1)
      (fun _ _ same => congrArg (byte :: ·) same)
  · exact const List.length []

end OneAhead

namespace Numeral

theorem fraction_oneAhead : OneAhead List.length 0 fraction :=
  (takeWhile_oneAhead Byte.isDigit).headed rfl (fun _ _ => rfl)

theorem sign_oneAhead : OneAhead List.length 0 sign :=
  (OneAhead.const List.length []).headed rfl (fun _ _ => rfl)

theorem exponent_oneAhead : OneAhead List.length 0 exponent :=
  (sign_oneAhead.append (takeWhile_oneAhead Byte.isDigit)).headed rfl
    (fun _ _ => rfl)

theorem decimal_eq_append :
    decimal = fun input =>
      let whole := input.takeWhile Byte.isDigit
      let mantissa := whole ++ fraction (input.drop whole.length)
      mantissa ++ exponent (input.drop mantissa.length) := by
  funext input
  simp only [decimal, ← drop_length_takeWhile, List.drop_drop, List.length_append]

theorem decimal_oneAhead : OneAhead List.length 0 decimal := by
  rw [decimal_eq_append]
  exact ((takeWhile_oneAhead Byte.isDigit).append fraction_oneAhead).append
    exponent_oneAhead

/-- A byte that makes a leading zero the mark of a hexadecimal numeral. -/
def isHexMark (byte : UInt8) : Bool :=
  byte == 'x'.toUInt8 || byte == 'X'.toUInt8

theorem ofFront_zero (rest : Bytes) :
    ofFront ('0'.toUInt8 :: rest) =
      if rest.head?.any isHexMark then
        '0'.toUInt8 :: (rest.head?.toList ++ rest.tail.takeWhile Byte.isHexDigit)
      else decimal ('0'.toUInt8 :: rest) := by
  cases rest with
  | nil => rfl
  | cons mark digits =>
      by_cases marked : isHexMark mark = true
      · have test : (mark == 'x'.toUInt8 || mark == 'X'.toUInt8) = true := marked
        simp [ofFront, hexadecimal?, marked, test]
      · have test : ¬(mark == 'x'.toUInt8 || mark == 'X'.toUInt8) = true := marked
        simp [ofFront, hexadecimal?, marked, test]

private theorem isDigit_zero : Byte.isDigit '0'.toUInt8 = true := by decide

theorem ofFront_of_head_ne_zero {first : UInt8}
    (notZero : ¬(first == '0'.toUInt8) = true) (rest : Bytes) :
    ofFront (first :: rest) = decimal (first :: rest) := by
  cases rest with
  | nil => rfl
  | cons mark digits => simp [ofFront, hexadecimal?, notZero]

theorem ofFront_eq_branch :
    ofFront = fun input =>
      if input.head?.any (· == '0'.toUInt8) then ofFront input else decimal input := by
  funext input
  cases input with
  | nil => rfl
  | cons first rest =>
      by_cases isZero : (first == '0'.toUInt8) = true
      · simp [isZero]
      · simp [isZero, ofFront_of_head_ne_zero isZero]

/-- A numeral of either form.  The mark that tells them apart is the byte after
the zero, so the choice looks no further ahead than a reader may. -/
theorem ofFront_oneAhead : OneAhead List.length 0 ofFront := by
  rw [ofFront_eq_branch]
  refine OneAhead.branch (· == '0'.toUInt8) ?_ decimal_oneAhead
  intro zero isZero
  rw [eq_of_beq isZero]
  simp only [ofFront_zero]
  refine OneAhead.branch isHexMark ?_ ?_
  · intro mark marked
    exact (takeWhile_oneAhead Byte.isHexDigit).through 2
      (fun input => Nat.add_comm (input.takeWhile Byte.isHexDigit).length 2)
      (fun _ _ same => congrArg ('0'.toUInt8 :: mark :: ·) same)
  · apply decimal_oneAhead.afterByte
    intro rest
    exact Nat.succ_le_of_lt (List.length_pos_iff.mpr (by
      simp [decimal, isDigit_zero]))

end Numeral

/-! ## Quoted text and comments -/

theorem Byte.ne_backslash_of_isQuote {quote : UInt8} (quotes : isQuote quote = true) :
    quote ≠ backslash := by
  rintro rfl
  cases quotes

namespace QuotedText

theorem width_read_le (quote : UInt8) (input : Bytes) :
    (read quote input).width ≤ input.length := by
  fun_induction read quote input <;>
    simp only [prepend, List.length_cons, List.length_nil] at * <;> omega

theorem width_read_pos (quote first : UInt8) (rest : Bytes) :
    0 < (read quote (first :: rest)).width := by
  cases rest <;> rw [read] <;> repeat' split
  all_goals simp only [prepend]; omega

theorem read_plain {quote byte : UInt8} (notQuote : (byte == quote) = false)
    (notEscape : (byte == Byte.backslash) = false) (rest : Bytes) :
    read quote (byte :: rest) = (read quote rest).prepend byte 1 := by
  cases rest <;> simp [read, notQuote, notEscape, prepend]

theorem read_closing {quote : UInt8} {rest : Bytes}
    (single : ¬rest.head? = some quote) :
    read quote (quote :: rest) = { value := [], width := 1, closed := true } := by
  cases rest with
  | nil => simp [read]
  | cons next rest =>
      have different : ¬next = quote := by simpa using single
      simp [read, different]

theorem read_doubled (quote : UInt8) (rest : Bytes) :
    read quote (quote :: quote :: rest) = (read quote rest).prepend quote 2 := by
  simp [read]

theorem read_escaped {quote : UInt8} (notQuote : (Byte.backslash == quote) = false)
    (marker : UInt8) (rest : Bytes) :
    read quote (Byte.backslash :: marker :: rest) =
      (read quote rest).prepend (Escape.meaning marker) 2 := by
  simp [read, notQuote]

theorem read_cut (quote : UInt8) (kept more : Bytes)
    (fits : (read quote (kept ++ more)).width ≤ kept.length) :
    read quote kept = read quote (kept ++ more) := by
  fun_induction read quote kept with
  | case1 =>
      cases more with
      | nil => rfl
      | cons first rest =>
          have wide := width_read_pos quote first rest
          rw [List.nil_append, List.length_nil] at fits
          omega
  | case2 byte isQuote =>
      cases eq_of_beq isQuote
      cases more with
      | nil => simp [read]
      | cons next rest =>
          by_cases doubled : next = quote
          · subst next
            rw [List.singleton_append, read_doubled] at fits
            simp only [prepend, List.length_singleton] at fits
            omega
          · exact (read_closing (by simpa using doubled)).symm
  | case3 byte notQuote isEscape =>
      cases eq_of_beq isEscape
      cases more with
      | nil => simp [read, notQuote]
      | cons marker rest =>
          rw [List.singleton_append, read_escaped (by simpa using notQuote)] at fits
          simp only [prepend, List.length_singleton] at fits
          omega
  | case4 byte notQuote notEscape =>
      cases more with
      | nil => simp [read, notQuote, notEscape]
      | cons next rest =>
          have wide := width_read_pos quote next rest
          rw [List.singleton_append, read_plain (by simpa using notQuote)
            (by simpa using notEscape)] at fits
          simp only [prepend, List.length_singleton] at fits
          omega
  | case5 byte next rest isQuote isDoubled ih =>
      cases eq_of_beq isQuote
      cases eq_of_beq isDoubled
      simp only [List.cons_append, read_doubled, prepend, List.length_cons] at fits ⊢
      rw [ih (by omega)]
  | case6 byte next rest isQuote notDoubled =>
      cases eq_of_beq isQuote
      exact (read_closing (by simpa using notDoubled)).symm
  | case7 byte next rest notQuote isEscape ih =>
      cases eq_of_beq isEscape
      rw [List.cons_append, List.cons_append,
        read_escaped (by simpa using notQuote)] at fits ⊢
      simp only [prepend, List.length_cons] at fits ⊢
      rw [ih (by omega)]
  | case8 byte next rest notQuote notEscape ih =>
      have unfolded : read quote (byte :: (next :: rest ++ more)) =
          (read quote (next :: rest ++ more)).prepend byte 1 :=
        read_plain (by simpa using notQuote) (by simpa using notEscape) _
      rw [List.cons_append, unfolded] at fits
      simp only [prepend, List.length_cons] at fits
      rw [List.cons_append, unfolded, ih (by rw [List.length_cons]; omega)]

theorem read_extend (quote : UInt8) (kept more : Bytes)
    (fits : (read quote kept).width < kept.length) :
    read quote (kept ++ more) = read quote kept := by
  fun_induction read quote kept with
  | case1 => simp at fits
  | case2 byte isQuote => simp at fits
  | case3 byte notQuote isEscape => simp at fits
  | case4 byte notQuote notEscape => simp at fits
  | case5 byte next rest isQuote isDoubled ih =>
      cases eq_of_beq isQuote
      cases eq_of_beq isDoubled
      simp only [prepend, List.length_cons] at fits
      rw [List.cons_append, List.cons_append, read_doubled, ih (by omega)]
  | case6 byte next rest isQuote notDoubled =>
      cases eq_of_beq isQuote
      exact read_closing (by simpa using notDoubled)
  | case7 byte next rest notQuote isEscape ih =>
      cases eq_of_beq isEscape
      simp only [prepend, List.length_cons] at fits
      rw [List.cons_append, List.cons_append,
        read_escaped (by simpa using notQuote), ih (by omega)]
  | case8 byte next rest notQuote notEscape ih =>
      simp only [prepend, List.length_cons] at fits
      rw [List.cons_append, read_plain (by simpa using notQuote)
        (by simpa using notEscape), ih (by rw [List.length_cons]; omega)]

theorem read_oneAhead (quote : UInt8) :
    OneAhead QuotedText.width 0 (read quote) where
  taken_le _ := Nat.zero_le _
  width_le input := by
    rw [Nat.zero_add]
    exact width_read_le quote input
  cut kept more fits := read_cut quote kept more (by omega)
  extend kept more fits := read_extend quote kept more (by omega)

end QuotedText

namespace Comment

theorem throughLine_oneAhead : OneAhead List.length 0 throughLine := by
  have bound : ∀ input, (throughLine input).length ≤ input.length := by
    intro input
    fun_induction throughLine input <;>
      simp only [List.length_cons, List.length_nil] at * <;> omega
  constructor
  · intro input
    exact Nat.zero_le _
  · intro input
    rw [Nat.zero_add]
    exact bound input
  · intro kept more fits
    rw [Nat.zero_add] at fits
    induction kept with
    | nil =>
        exact (List.eq_nil_of_length_eq_zero (Nat.le_zero.mp fits)).symm
    | cons byte rest ih =>
        by_cases ends : (byte == Byte.lineFeed) = true
        · simp [throughLine, ends]
        · simp only [List.cons_append, throughLine, ends, Bool.false_eq_true,
            if_false, List.length_cons] at fits ⊢
          rw [ih (by omega)]
  · intro kept more fits
    rw [Nat.zero_add] at fits
    induction kept with
    | nil => simp [throughLine] at fits
    | cons byte rest ih =>
        by_cases ends : (byte == Byte.lineFeed) = true
        · simp [throughLine, ends]
        · simp only [List.cons_append, throughLine, ends, Bool.false_eq_true,
            if_false, List.length_cons] at fits ⊢
          rw [ih (by omega)]

/-- The next two bytes are the closing mark. -/
def IsClose (byte : UInt8) (rest : Bytes) : Prop :=
  byte = '*'.toUInt8 ∧ rest.head? = some '/'.toUInt8

theorem throughClose?_of_isClose {byte : UInt8} {rest : Bytes}
    (isClose : IsClose byte rest) :
    throughClose? (byte :: rest) = some ['*'.toUInt8, '/'.toUInt8] := by
  rw [throughClose?, if_pos]
  simp [isClose.1, isClose.2]

theorem throughClose?_of_not_isClose {byte : UInt8} {rest : Bytes}
    (notClose : ¬IsClose byte rest) :
    throughClose? (byte :: rest) = (throughClose? rest).map (byte :: ·) := by
  rw [throughClose?, if_neg]
  simpa [IsClose] using notClose

theorem length_of_throughClose? {input body : Bytes}
    (closes : throughClose? input = some body) :
    2 ≤ body.length ∧ body.length ≤ input.length := by
  induction input generalizing body with
  | nil => cases closes
  | cons byte rest ih =>
      by_cases isClose : IsClose byte rest
      · rw [throughClose?_of_isClose isClose] at closes
        cases closes
        obtain ⟨next, others, rfl⟩ : ∃ next others, rest = next :: others := by
          cases rest with
          | nil => cases isClose.2
          | cons next others => exact ⟨next, others, rfl⟩
        simp
      · rw [throughClose?_of_not_isClose isClose] at closes
        obtain ⟨tail, tailCloses, rfl⟩ := Option.map_eq_some_iff.mp closes
        have bounds := ih tailCloses
        simp only [List.length_cons]
        omega

theorem throughClose?_extend {kept body : Bytes}
    (closes : throughClose? kept = some body) (more : Bytes) :
    throughClose? (kept ++ more) = some body := by
  induction kept generalizing body with
  | nil => cases closes
  | cons byte rest ih =>
      cases rest with
      | nil =>
          have bounds := length_of_throughClose? closes
          simp only [List.length_singleton] at bounds
          omega
      | cons next rest =>
          by_cases isClose : IsClose byte (next :: rest)
          · rw [throughClose?_of_isClose isClose] at closes
            rw [← closes]
            exact throughClose?_of_isClose isClose
          · rw [throughClose?_of_not_isClose isClose] at closes
            obtain ⟨tail, tailCloses, rfl⟩ := Option.map_eq_some_iff.mp closes
            have stillOpen : ¬IsClose byte (next :: rest ++ more) := isClose
            rw [List.cons_append, throughClose?_of_not_isClose stillOpen,
              ih tailCloses, Option.map_some]

theorem throughClose?_cut {kept more body : Bytes}
    (closes : throughClose? (kept ++ more) = some body)
    (fits : body.length ≤ kept.length) :
    throughClose? kept = some body := by
  induction kept generalizing body with
  | nil =>
      have bounds := length_of_throughClose? closes
      rw [List.length_nil] at fits
      omega
  | cons byte rest ih =>
      cases rest with
      | nil =>
          have bounds := length_of_throughClose? closes
          rw [List.length_singleton] at fits
          omega
      | cons next rest =>
          by_cases isClose : IsClose byte (next :: rest)
          · have closesWhole : IsClose byte (next :: rest ++ more) := isClose
            rw [List.cons_append, throughClose?_of_isClose closesWhole] at closes
            rw [← closes]
            exact throughClose?_of_isClose isClose
          · have stillOpen : ¬IsClose byte (next :: rest ++ more) := isClose
            rw [List.cons_append, throughClose?_of_not_isClose stillOpen] at closes
            obtain ⟨tail, tailCloses, rfl⟩ := Option.map_eq_some_iff.mp closes
            simp only [List.length_cons] at fits ih
            rw [throughClose?_of_not_isClose isClose, ih tailCloses (by omega),
              Option.map_some]

end Comment

/-! ## Lexemes -/

namespace Lexeme

theorem symbol_oneAhead (kind : Kind) (size : Nat) :
    OneAhead Lexeme.width size (fun _ => symbol kind size) :=
  OneAhead.const Lexeme.width (symbol kind size)

theorem word_congr {left right : Bytes}
    (same : left.takeWhile Byte.isWordByte = right.takeWhile Byte.isWordByte) :
    word left = word right := by
  unfold word
  rw [same]

theorem bindVariable_congr {left right : Bytes}
    (same : left.takeWhile Byte.isBindByte = right.takeWhile Byte.isBindByte) :
    bindVariable left = bindVariable right := by
  unfold bindVariable
  rw [same]

theorem number_congr {left right : Bytes}
    (same : Numeral.ofFront left = Numeral.ofFront right) : number left = number right := by
  unfold number
  rw [same]

theorem quoted_congr {quote : UInt8} {left right : Bytes}
    (same : QuotedText.read quote left = QuotedText.read quote right) :
    quoted quote left = quoted quote right := by
  unfold quoted
  rw [same]

theorem word_oneAhead : OneAhead Lexeme.width 0 word := by
  refine (takeWhile_oneAhead Byte.isWordByte).through 0 ?_ fun _ _ => word_congr
  intro input
  rw [width_word, Nat.zero_add]

theorem bindVariable_oneAhead : OneAhead Lexeme.width 1 bindVariable := by
  refine (takeWhile_oneAhead Byte.isBindByte).through 1 ?_ fun _ _ => bindVariable_congr
  intro input
  exact Nat.add_comm (input.takeWhile Byte.isBindByte).length 1

theorem number_oneAhead : OneAhead Lexeme.width 0 number := by
  refine Numeral.ofFront_oneAhead.through 0 ?_ fun _ _ => number_congr
  intro input
  exact (Nat.zero_add (Numeral.ofFront input).length).symm

theorem quoted_oneAhead (quote : UInt8) :
    OneAhead Lexeme.width 1 (quoted quote) := by
  refine (QuotedText.read_oneAhead quote).through 1 ?_ fun _ _ => quoted_congr
  intro input
  exact Nat.add_comm (QuotedText.read quote input).width 1

theorem lineComment_oneAhead (mark : UInt8) :
    OneAhead Lexeme.width 2 (lineComment mark) := by
  refine Comment.throughLine_oneAhead.through 2 ?_ ?_
  · intro input
    exact Nat.add_comm (Comment.throughLine input).length 2
  · intro left right same
    unfold lineComment
    rw [same]

theorem blockComment_closed {afterOpen body : Bytes}
    (closes : Comment.throughClose? afterOpen = some body) :
    blockComment afterOpen =
      verbatim .comment ('/'.toUInt8 :: '*'.toUInt8 :: body) := by
  rw [blockComment, closes]

theorem blockComment_open {afterOpen : Bytes}
    (neverCloses : Comment.throughClose? afterOpen = none) :
    blockComment afterOpen =
      verbatim .invalid ('/'.toUInt8 :: '*'.toUInt8 :: afterOpen) := by
  rw [blockComment, neverCloses]

theorem blockComment_oneAhead : OneAhead Lexeme.width 2 blockComment where
  taken_le input := by
    cases closes : Comment.throughClose? input with
    | none =>
        rw [blockComment_open closes]
        simp only [verbatim, List.length_cons]
        omega
    | some body =>
        rw [blockComment_closed closes]
        simp only [verbatim, List.length_cons]
        omega
  width_le input := by
    cases closes : Comment.throughClose? input with
    | none =>
        rw [blockComment_open closes]
        simp only [verbatim, List.length_cons]
        omega
    | some body =>
        have bounds := Comment.length_of_throughClose? closes
        rw [blockComment_closed closes]
        simp only [verbatim, List.length_cons]
        omega
  cut kept more fits := by
    cases closes : Comment.throughClose? (kept ++ more) with
    | none =>
        rw [blockComment_open closes] at fits
        simp only [verbatim, List.length_cons, List.length_append] at fits
        have nothingMore : more = [] :=
          List.eq_nil_of_length_eq_zero (by omega)
        rw [nothingMore, List.append_nil]
    | some body =>
        rw [blockComment_closed closes] at fits ⊢
        simp only [verbatim, List.length_cons] at fits
        exact blockComment_closed (Comment.throughClose?_cut closes (by omega))
  extend kept more fits := by
    cases closes : Comment.throughClose? kept with
    | none =>
        rw [blockComment_open closes] at fits
        simp only [verbatim, List.length_cons] at fits
        omega
    | some body =>
        rw [blockComment_closed closes]
        exact blockComment_closed (Comment.throughClose?_extend closes more)

end Lexeme

namespace Mark

theorem point_oneAhead : OneAhead Lexeme.width 1 point := by
  have isDigit_point : Byte.isDigit '.'.toUInt8 = false := by decide
  have spelled : ∀ digit rest, Byte.isDigit digit = true →
      2 ≤ (Lexeme.number ('.'.toUInt8 :: digit :: rest)).width := by
    intro digit rest isDigit
    have notZero : ¬('.'.toUInt8 == '0'.toUInt8) = true := by decide
    simp only [Lexeme.number, Lexeme.verbatim,
      Numeral.ofFront_of_head_ne_zero notZero]
    simp [Numeral.decimal, isDigit_point, Numeral.fraction, isDigit]
  refine OneAhead.branch Byte.isDigit ?_ (Lexeme.symbol_oneAhead _ 1)
  intro digit isDigit
  have afterPoint : OneAhead Lexeme.width 1
      (fun input => Lexeme.number ('.'.toUInt8 :: input)) :=
    Lexeme.number_oneAhead.afterByte fun input =>
      (Lexeme.takesInput_number (Numeral.ofFront_point_ne_nil input)).width_pos
  exact afterPoint.afterByte fun rest => spelled digit rest isDigit

theorem slash_oneAhead : OneAhead Lexeme.width 1 slash :=
  OneAhead.branchByte '/'.toUInt8 (Lexeme.lineComment_oneAhead '/'.toUInt8)
    (OneAhead.branchByte '*'.toUInt8 Lexeme.blockComment_oneAhead
      (Lexeme.symbol_oneAhead _ 1))

theorem minus_oneAhead : OneAhead Lexeme.width 1 minus :=
  OneAhead.branchByte '-'.toUInt8 (Lexeme.lineComment_oneAhead '-'.toUInt8)
    (Lexeme.symbol_oneAhead _ 1)

theorem less_oneAhead : OneAhead Lexeme.width 1 less :=
  OneAhead.branchByte '>'.toUInt8 (Lexeme.symbol_oneAhead _ 2)
    (OneAhead.branchByte '='.toUInt8
      (OneAhead.branchByte '>'.toUInt8 (Lexeme.symbol_oneAhead _ 3)
        (Lexeme.symbol_oneAhead _ 2))
      (Lexeme.symbol_oneAhead _ 1))

theorem greater_oneAhead : OneAhead Lexeme.width 1 greater :=
  OneAhead.branchByte '='.toUInt8 (Lexeme.symbol_oneAhead _ 2)
    (Lexeme.symbol_oneAhead _ 1)

theorem exclamation_oneAhead : OneAhead Lexeme.width 1 exclamation :=
  OneAhead.branchByte '='.toUInt8 (Lexeme.symbol_oneAhead _ 2)
    (OneAhead.const Lexeme.width (Lexeme.verbatim .invalid ['!'.toUInt8]))

theorem lexeme_oneAhead (first : UInt8) :
    OneAhead Lexeme.width 1 (lexeme first) := by
  have oneByte : ∀ kind, OneAhead Lexeme.width 1
      (fun _ => Lexeme.verbatim kind [first]) := by
    intro kind
    exact OneAhead.const Lexeme.width (Lexeme.verbatim kind [first])
  unfold lexeme
  repeat' split
  · exact OneAhead.const Lexeme.width (Lexeme.verbatim .valueArgument ['?'.toUInt8])
  · exact point_oneAhead
  · exact slash_oneAhead
  · exact minus_oneAhead
  · exact less_oneAhead
  · exact greater_oneAhead
  · exact exclamation_oneAhead
  · exact Lexeme.symbol_oneAhead _ 1
  · exact oneByte .invalid

end Mark

namespace Lexeme

theorem ofFront_cases (first : UInt8) :
    (Byte.isLetter first = true ∧ ofFront first = fun rest => word (first :: rest)) ∨
      (Byte.isDigit first = true ∧ ofFront first = fun rest => number (first :: rest)) ∨
      (Byte.isQuote first = true ∧ ofFront first = quoted first) ∨
      (first = ':'.toUInt8 ∧ ofFront first = bindVariable) ∨
      (Byte.isQuote first = false ∧ ofFront first = Mark.lexeme first) := by
  by_cases letter : Byte.isLetter first = true
  · refine .inl ⟨letter, ?_⟩
    funext rest
    rw [ofFront, if_pos letter]
  by_cases digit : Byte.isDigit first = true
  · refine .inr (.inl ⟨digit, ?_⟩)
    funext rest
    rw [ofFront, if_neg letter, if_pos digit]
  by_cases quote : Byte.isQuote first = true
  · refine .inr (.inr (.inl ⟨quote, ?_⟩))
    funext rest
    rw [ofFront, if_neg letter, if_neg digit, if_pos quote]
  by_cases colon : (first == ':'.toUInt8) = true
  · refine .inr (.inr (.inr (.inl ⟨eq_of_beq colon, ?_⟩)))
    funext rest
    rw [ofFront, if_neg letter, if_neg digit, if_neg quote, if_pos colon]
  · refine .inr (.inr (.inr (.inr ⟨(Bool.not_eq_true _).mp quote, ?_⟩)))
    funext rest
    rw [ofFront, if_neg letter, if_neg digit, if_neg quote, if_neg colon]

theorem ofFront_of_isQuote {first : UInt8} (quote : Byte.isQuote first = true) (rest : Bytes) :
    ofFront first rest = quoted first rest := by
  simp only [Byte.isQuote, Bool.or_eq_true, beq_iff_eq] at quote
  rcases quote with (rfl | rfl) | rfl <;> rfl

/-- Whatever comes first, the lexeme there is read with one byte of lookahead. -/
theorem ofFront_oneAhead (first : UInt8) :
    OneAhead Lexeme.width 1 (ofFront first) := by
  rcases ofFront_cases first with
    ⟨letter, isWord⟩ | ⟨digit, isNumber⟩ | ⟨_, isQuoted⟩ | ⟨_, isBind⟩ | ⟨_, isMark⟩
  · rw [isWord]
    exact word_oneAhead.afterByte fun rest => (takesInput_word letter rest).width_pos
  · rw [isNumber]
    exact number_oneAhead.afterByte fun rest =>
      (takesInput_number (Numeral.ofFront_ne_nil_of_isDigit digit rest)).width_pos
  · rw [isQuoted]
    exact quoted_oneAhead first
  · rw [isBind]
    exact bindVariable_oneAhead
  · rw [isMark]
    exact Mark.lexeme_oneAhead first

end Lexeme

end SqlLexer
