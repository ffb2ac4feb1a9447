import SqlLexer.Proofs.Spelling

/-!
# Reading a text in lower case

No reader of the lexer tells a letter from the same letter in the other case.
`CaseBlind` states this once for readers of every result: a text in lower case
is read as the text itself, with the result in lower case.  The law survives
sequencing and branching, so that it is assembled like the readers.  Quoted
text is the exception, because a letter behind a backslash may be a marker in
one case and mean itself in the other; there the law holds of the shape alone.
-/

namespace SqlLexer

namespace Byte

/-- The function does not depend on the case of a letter. -/
def CaseBlind {α : Type} (read : UInt8 → α) : Prop :=
  ∀ byte, read (lower byte) = read byte

def upperLetters : Bytes :=
  (List.range 26).map fun index => UInt8.ofNat (65 + index)

theorem mem_upperLetters {byte : UInt8} (upper : isUpper byte = true) :
    byte ∈ upperLetters := by
  have bounds : 65 ≤ byte.toNat ∧ byte.toNat ≤ 90 := by
    rw [isUpper, isBetween, Bool.and_eq_true, decide_eq_true_eq, decide_eq_true_eq,
      UInt8.le_iff_toNat_le, UInt8.le_iff_toNat_le] at upper
    exact upper
  refine List.mem_map.mpr ⟨byte.toNat - 65, List.mem_range.mpr (by omega), ?_⟩
  rw [Nat.add_sub_cancel' bounds.1]
  exact UInt8.ofNat_toNat

theorem CaseBlind.of_upper {α : Type} [DecidableEq α] {read : UInt8 → α}
    (letters : upperLetters.all (fun upper => read (lower upper) = read upper) = true) :
    CaseBlind read := by
  intro byte
  by_cases upper : isUpper byte = true
  · exact of_decide_eq_true (List.all_eq_true.mp letters byte (mem_upperLetters upper))
  · rw [lower, if_neg upper]

theorem lower_lower : CaseBlind lower :=
  .of_upper (by decide)

theorem isLetter_caseBlind : CaseBlind isLetter :=
  .of_upper (by decide)

theorem isDigit_caseBlind : CaseBlind isDigit :=
  .of_upper (by decide)

theorem isQuote_caseBlind : CaseBlind isQuote :=
  .of_upper (by decide)

theorem isBlank_caseBlind : CaseBlind isBlank :=
  .of_upper (by decide)

theorem isWordByte_caseBlind : CaseBlind isWordByte :=
  .of_upper (by decide)

/-- A byte that is no letter, and therefore its own lower-case form. -/
def isCaseless (byte : UInt8) : Bool :=
  !(isUpper byte || isLower byte)

theorem isLower_lower {byte : UInt8} (upper : isUpper byte = true) :
    isLower (lower byte) = true := by
  have letters : upperLetters.all (fun upper => isLower (lower upper)) = true := by decide
  exact List.all_eq_true.mp letters byte (mem_upperLetters upper)

theorem lower_of_isCaseless {byte : UInt8} (caseless : isCaseless byte = true) :
    lower byte = byte := by
  simp only [isCaseless, Bool.not_eq_true', Bool.or_eq_false_iff] at caseless
  rw [lower, caseless.1]
  rfl

theorem isCaseless_of_isQuote {byte : UInt8} (quote : isQuote byte = true) :
    isCaseless byte = true := by
  simp only [isQuote, Bool.or_eq_true, beq_iff_eq] at quote
  rcases quote with (rfl | rfl) | rfl <;> decide

theorem beq_lower {expected : UInt8} (caseless : isCaseless expected = true) (byte : UInt8) :
    (lower byte == expected) = (byte == expected) := by
  simp only [isCaseless, Bool.not_eq_true', Bool.or_eq_false_iff] at caseless
  by_cases upper : isUpper byte = true
  · have different : byte ≠ expected := by
      rintro rfl
      rw [caseless.1] at upper
      cases upper
    have lowerDifferent : lower byte ≠ expected := by
      intro same
      have isLower := isLower_lower upper
      rw [same, caseless.2] at isLower
      cases isLower
    rw [beq_false_of_ne different, beq_false_of_ne lowerDifferent]
  · rw [lower, if_neg upper]

theorem isBindByte_caseBlind : CaseBlind isBindByte := by
  intro byte
  rw [isBindByte, isBindByte, isWordByte_caseBlind byte, beq_lower (by decide)]

end Byte

namespace Bytes

@[simp] theorem lower_nil : lower [] = [] :=
  rfl

@[simp] theorem lower_cons (byte : UInt8) (rest : Bytes) :
    lower (byte :: rest) = Byte.lower byte :: lower rest :=
  rfl

@[simp] theorem lower_append (first second : Bytes) :
    lower (first ++ second) = lower first ++ lower second :=
  List.map_append

@[simp] theorem length_lower (bytes : Bytes) : (lower bytes).length = bytes.length :=
  List.length_map _

@[simp] theorem lower_lower (bytes : Bytes) : lower (lower bytes) = lower bytes := by
  rw [lower, lower, List.map_map]
  exact List.map_congr_left fun byte _ => Byte.lower_lower byte

theorem drop_lower (bytes : Bytes) (count : Nat) :
    (lower bytes).drop count = lower (bytes.drop count) :=
  List.map_drop.symm

theorem any_head?_lower {inClass : UInt8 → Bool} (blind : Byte.CaseBlind inClass)
    (bytes : Bytes) : (lower bytes).head?.any inClass = bytes.head?.any inClass := by
  cases bytes with
  | nil => rfl
  | cons byte rest => exact blind byte

theorem beq_head?_lower {expected : UInt8} (caseless : Byte.isCaseless expected = true)
    (bytes : Bytes) :
    ((lower bytes).head? == some expected) = (bytes.head? == some expected) := by
  cases bytes with
  | nil => rfl
  | cons byte rest => exact Byte.beq_lower caseless byte

end Bytes

/-- A text in lower case is read as the text itself, up to what lowering does to
the result. -/
def CaseBlind {α : Type} (lowered : α → α) (read : Bytes → α) : Prop :=
  ∀ input, read (Bytes.lower input) = lowered (read input)

namespace CaseBlind

variable {α : Type} {lowered : α → α}

theorem const {result : α} (lower : lowered result = result) :
    CaseBlind lowered (fun _ => result) :=
  fun _ => lower.symm

theorem branch {onMatch other : Bytes → α} {inClass : UInt8 → Bool}
    (blind : Byte.CaseBlind inClass) (matching : CaseBlind lowered onMatch)
    (others : CaseBlind lowered other) :
    CaseBlind lowered
      (fun input => if input.head?.any inClass then onMatch input else other input) := by
  intro input
  dsimp only
  rw [Bytes.any_head?_lower blind]
  split
  · exact matching input
  · exact others input

theorem branchByte {onMatch other : Bytes → α} {expected : UInt8}
    (caseless : Byte.isCaseless expected = true) (matching : CaseBlind lowered onMatch)
    (others : CaseBlind lowered other) :
    CaseBlind lowered
      (fun input => if input.head? == some expected then onMatch input.tail else other input) := by
  intro input
  have lowerTail : (Bytes.lower input).tail = Bytes.lower input.tail := List.map_tail.symm
  dsimp only
  rw [Bytes.beq_head?_lower caseless, lowerTail]
  split
  · exact matching input.tail
  · exact others input

end CaseBlind

/-! ## Runs of bytes -/

theorem takeWhile_caseBlind {inClass : UInt8 → Bool} (blind : Byte.CaseBlind inClass) :
    CaseBlind Bytes.lower (fun input => input.takeWhile inClass) := by
  intro input
  have sameClass : inClass ∘ Byte.lower = inClass := funext blind
  dsimp only
  rw [Bytes.lower, List.takeWhile_map, sameClass, Bytes.lower]

namespace CaseBlind

theorem append {first second : Bytes → Bytes} (firstBlind : CaseBlind Bytes.lower first)
    (secondBlind : CaseBlind Bytes.lower second) :
    CaseBlind Bytes.lower
      (fun input => first input ++ second (input.drop (first input).length)) := by
  intro input
  dsimp only
  rw [firstBlind, Bytes.length_lower, Bytes.drop_lower, secondBlind, Bytes.lower_append]

theorem headed {read tail : Bytes → Bytes} {inClass : UInt8 → Bool}
    (blind : Byte.CaseBlind inClass) (tailBlind : CaseBlind Bytes.lower tail)
    (atEnd : read [] = [])
    (atByte : ∀ byte rest, read (byte :: rest) =
      if inClass byte then byte :: tail rest else []) :
    CaseBlind Bytes.lower read := by
  intro input
  cases input with
  | nil =>
      rw [Bytes.lower_nil, atEnd]
      rfl
  | cons byte rest =>
      rw [Bytes.lower_cons, atByte, atByte, blind byte, tailBlind]
      split <;> rfl

end CaseBlind

namespace Numeral

theorem digits_caseBlind : CaseBlind Bytes.lower (fun input => input.takeWhile Byte.isDigit) :=
  takeWhile_caseBlind Byte.isDigit_caseBlind

theorem fraction_caseBlind : CaseBlind Bytes.lower fraction := by
  have point : Byte.CaseBlind (· == '.'.toUInt8) := .of_upper (by decide)
  exact digits_caseBlind.headed point rfl fun _ _ => rfl

theorem sign_caseBlind : CaseBlind Bytes.lower sign := by
  have signs : Byte.CaseBlind (fun byte => byte == '+'.toUInt8 || byte == '-'.toUInt8) :=
    .of_upper (by decide)
  exact (CaseBlind.const rfl).headed signs rfl fun _ _ => rfl

theorem exponent_caseBlind : CaseBlind Bytes.lower exponent := by
  have marks : Byte.CaseBlind (fun byte => byte == 'e'.toUInt8 || byte == 'E'.toUInt8) :=
    .of_upper (by decide)
  exact (sign_caseBlind.append digits_caseBlind).headed marks rfl fun _ _ => rfl

theorem decimal_caseBlind : CaseBlind Bytes.lower decimal := by
  rw [decimal_eq_append]
  exact (digits_caseBlind.append fraction_caseBlind).append exponent_caseBlind

theorem hexadecimal?_lower (input : Bytes) :
    hexadecimal? (Bytes.lower input) = (hexadecimal? input).map Bytes.lower := by
  have zeroBlind := Byte.beq_lower (show Byte.isCaseless '0'.toUInt8 = true by decide)
  have markBlind : Byte.CaseBlind (fun mark => mark == 'x'.toUInt8 || mark == 'X'.toUInt8) :=
    .of_upper (by decide)
  have hexBlind : Byte.CaseBlind Byte.isHexDigit := .of_upper (by decide)
  have hexDigits := takeWhile_caseBlind hexBlind
  match input with
  | [] => rfl
  | [_] => rfl
  | zero :: mark :: rest =>
      simp only [Bytes.lower_cons, hexadecimal?, zeroBlind zero, markBlind mark, hexDigits rest]
      split <;> rfl

theorem ofFront_caseBlind : CaseBlind Bytes.lower ofFront := by
  intro input
  rw [ofFront, ofFront, hexadecimal?_lower, decimal_caseBlind]
  cases hexadecimal? input <;> rfl

theorem isBadOctal_lower (numeral : Bytes) :
    isBadOctal (Bytes.lower numeral) = isBadOctal numeral := by
  have largeBlind : Byte.CaseBlind (fun digit => decide ('8'.toUInt8 ≤ digit)) :=
    .of_upper (by decide)
  have sameDigits : Byte.isDigit ∘ Byte.lower = Byte.isDigit := funext Byte.isDigit_caseBlind
  have sameLarge : (fun digit => decide ('8'.toUInt8 ≤ digit)) ∘ Byte.lower =
      fun digit => decide ('8'.toUInt8 ≤ digit) := funext largeBlind
  rw [isBadOctal, isBadOctal, Bytes.beq_head?_lower (by decide), Bytes.lower, List.all_map,
    List.any_map, sameDigits, sameLarge]

end Numeral

/-! ## Quoted text and comments -/

/-- The texts take the same bytes, and mean as many. -/
structure QuotedText.SameShape (left right : QuotedText) : Prop where
  width_eq : left.width = right.width
  closed_eq : left.closed = right.closed
  length_eq : left.value.length = right.value.length

namespace QuotedText

theorem SameShape.prepend {left right : QuotedText} (shape : left.SameShape right)
    (byte other : UInt8) (width : Nat) :
    (left.prepend byte width).SameShape (right.prepend other width) where
  width_eq := congrArg (width + ·) shape.width_eq
  closed_eq := shape.closed_eq
  length_eq := congrArg (· + 1) shape.length_eq

/-- A letter in another case may have another meaning behind a backslash, but
takes as much room. -/
theorem sameShape_read_lower {quote : UInt8} (isQuote : Byte.isQuote quote = true)
    (input : Bytes) : (read quote (Bytes.lower input)).SameShape (read quote input) := by
  have caseless := Byte.isCaseless_of_isQuote isQuote
  have notEscape : (Byte.backslash == quote) = false :=
    beq_false_of_ne (Byte.ne_backslash_of_isQuote isQuote).symm
  have sameQuote := Byte.beq_lower caseless
  have sameEscape := Byte.beq_lower (show Byte.isCaseless Byte.backslash = true by decide)
  have quoteLower := Byte.lower_of_isCaseless caseless
  have escapeLower : Byte.lower Byte.backslash = Byte.backslash := by decide
  fun_induction read quote input with
  | case1 => exact ⟨rfl, rfl, rfl⟩
  | case2 byte isQuote =>
      simp only [Bytes.lower_cons, Bytes.lower_nil, read, sameQuote, isQuote, if_true]
      exact ⟨rfl, rfl, rfl⟩
  | case3 byte notQuote isEscape =>
      simp only [Bytes.lower_cons, Bytes.lower_nil, read, sameQuote, sameEscape, notQuote,
        isEscape, Bool.false_eq_true, if_false, if_true]
      exact ⟨rfl, rfl, rfl⟩
  | case4 byte notQuote notEscape =>
      simp only [Bytes.lower_cons, Bytes.lower_nil, read, sameQuote, sameEscape, notQuote,
        notEscape, Bool.false_eq_true, if_false]
      exact ⟨rfl, rfl, rfl⟩
  | case5 byte next rest isQuote isDoubled ih =>
      cases eq_of_beq isQuote
      cases eq_of_beq isDoubled
      rw [Bytes.lower_cons, Bytes.lower_cons, quoteLower, read_doubled]
      exact ih.prepend _ _ 2
  | case6 byte next rest isQuote notDoubled =>
      cases eq_of_beq isQuote
      have single : ¬(Bytes.lower (next :: rest)).head? = some quote := by
        rw [← beq_iff_eq, Bytes.beq_head?_lower caseless]
        simpa using notDoubled
      rw [Bytes.lower_cons, quoteLower, read_closing single]
      exact ⟨rfl, rfl, rfl⟩
  | case7 byte next rest notQuote isEscape ih =>
      cases eq_of_beq isEscape
      rw [Bytes.lower_cons, Bytes.lower_cons, escapeLower, read_escaped notEscape]
      exact ih.prepend _ _ 2
  | case8 byte next rest notQuote notEscape ih =>
      have lowerNotQuote := (sameQuote byte).trans ((Bool.not_eq_true _).mp notQuote)
      have lowerNotEscape := (sameEscape byte).trans ((Bool.not_eq_true _).mp notEscape)
      rw [Bytes.lower_cons, read_plain lowerNotQuote lowerNotEscape]
      exact ih.prepend _ _ 1

end QuotedText

namespace Comment

theorem throughLine_caseBlind : CaseBlind Bytes.lower throughLine := by
  have sameLineFeed := Byte.beq_lower (show Byte.isCaseless Byte.lineFeed = true by decide)
  intro input
  induction input with
  | nil => rfl
  | cons byte rest ih =>
      rw [Bytes.lower_cons, throughLine, throughLine, sameLineFeed, ih]
      split <;> rfl

theorem throughClose?_lower (input : Bytes) :
    throughClose? (Bytes.lower input) = (throughClose? input).map Bytes.lower := by
  induction input with
  | nil => rfl
  | cons byte rest ih =>
      rw [Bytes.lower_cons, throughClose?, throughClose?, Byte.beq_lower (by decide),
        Bytes.beq_head?_lower (by decide), ih]
      split
      · rfl
      · rw [Option.map_map, Option.map_map]
        rfl

end Comment

/-! ## Lexemes -/

/-- The same lexeme with its text in lower case. -/
def Lexeme.lower (lexeme : Lexeme) : Lexeme :=
  { lexeme with value := Bytes.lower lexeme.value }

namespace Lexeme

theorem lower_verbatim (kind : Kind) (spelling : Bytes) :
    (verbatim kind spelling).lower = verbatim kind (Bytes.lower spelling) := by
  simp [verbatim, lower]

theorem symbol_caseBlind (kind : Kind) (width : Nat) :
    CaseBlind lower (fun _ => symbol kind width) :=
  CaseBlind.const rfl

theorem word_caseBlind : CaseBlind lower word := by
  intro input
  have spelling : (Bytes.lower input).takeWhile Byte.isWordByte =
      Bytes.lower (input.takeWhile Byte.isWordByte) :=
    takeWhile_caseBlind Byte.isWordByte_caseBlind input
  unfold word
  rw [spelling]
  generalize input.takeWhile Byte.isWordByte = spelling
  simp only [Bytes.lower_lower, Bytes.length_lower]
  cases found : Keyword.find? (Bytes.lower spelling) with
  | none => exact (lower_verbatim _ _).symm
  | some keyword => simp only [lower, Bytes.lower_lower]

theorem bindVariable_caseBlind : CaseBlind lower bindVariable := by
  intro input
  have name := takeWhile_caseBlind Byte.isBindByte_caseBlind input
  have sameEmpty : ∀ name : Bytes, (Bytes.lower name).isEmpty = name.isEmpty :=
    fun _ => List.isEmpty_map
  have colon : Byte.lower ':'.toUInt8 = ':'.toUInt8 := by decide
  dsimp only at name
  simp only [bindVariable, name, sameEmpty, lower_verbatim, Bytes.lower_cons, colon]

theorem number_caseBlind : CaseBlind lower number := by
  intro input
  simp only [number, Numeral.ofFront_caseBlind input, Numeral.isBadOctal_lower, lower_verbatim]

theorem lineComment_caseBlind {mark : UInt8} (caseless : Byte.isCaseless mark = true) :
    CaseBlind lower (lineComment mark) := by
  intro input
  simp only [lineComment, Comment.throughLine_caseBlind input, lower_verbatim, Bytes.lower_cons,
    Byte.lower_of_isCaseless caseless]

theorem blockComment_caseBlind : CaseBlind lower blockComment := by
  have slash : Byte.lower '/'.toUInt8 = '/'.toUInt8 := by decide
  have star : Byte.lower '*'.toUInt8 = '*'.toUInt8 := by decide
  intro input
  rw [blockComment, blockComment, Comment.throughClose?_lower]
  cases Comment.throughClose? input with
  | none => simp only [Option.map_none, lower_verbatim, Bytes.lower_cons, slash, star]
  | some body => simp only [Option.map_some, lower_verbatim, Bytes.lower_cons, slash, star]

end Lexeme

namespace Mark

open Lexeme

theorem point_caseBlind : CaseBlind Lexeme.lower point := by
  refine CaseBlind.branch Byte.isDigit_caseBlind ?_ (symbol_caseBlind _ 1)
  intro input
  exact number_caseBlind ('.'.toUInt8 :: input)

theorem slash_caseBlind : CaseBlind Lexeme.lower slash :=
  CaseBlind.branchByte (by decide) (lineComment_caseBlind (by decide))
    (CaseBlind.branchByte (by decide) blockComment_caseBlind (symbol_caseBlind _ 1))

theorem minus_caseBlind : CaseBlind Lexeme.lower minus :=
  CaseBlind.branchByte (by decide) (lineComment_caseBlind (by decide)) (symbol_caseBlind _ 1)

theorem less_caseBlind : CaseBlind Lexeme.lower less :=
  CaseBlind.branchByte (by decide) (symbol_caseBlind _ 2)
    (CaseBlind.branchByte (by decide)
      (CaseBlind.branchByte (by decide) (symbol_caseBlind _ 3) (symbol_caseBlind _ 2))
      (symbol_caseBlind _ 1))

theorem greater_caseBlind : CaseBlind Lexeme.lower greater :=
  CaseBlind.branchByte (by decide) (symbol_caseBlind _ 2) (symbol_caseBlind _ 1)

theorem exclamation_caseBlind : CaseBlind Lexeme.lower exclamation :=
  CaseBlind.branchByte (by decide) (symbol_caseBlind _ 2) (CaseBlind.const rfl)

theorem standalone_caseBlind : Byte.CaseBlind standalone.contains :=
  .of_upper (by decide)

theorem isCaseless_of_standalone {byte : UInt8} (alone : standalone.contains byte = true) :
    Byte.isCaseless byte = true := by
  have all : standalone.all Byte.isCaseless = true := by decide
  exact List.all_eq_true.mp all byte (List.contains_iff_mem.mp alone)

theorem lexeme_lower (first : UInt8) (rest : Bytes) :
    lexeme (Byte.lower first) (Bytes.lower rest) = (lexeme first rest).lower := by
  have sameMark : ∀ mark, Byte.isCaseless mark = true →
      (Byte.lower first == mark) = (first == mark) :=
    fun mark caseless => Byte.beq_lower caseless first
  unfold lexeme
  rw [sameMark '?'.toUInt8 (by decide), sameMark '.'.toUInt8 (by decide),
    sameMark '/'.toUInt8 (by decide), sameMark '-'.toUInt8 (by decide),
    sameMark '<'.toUInt8 (by decide), sameMark '>'.toUInt8 (by decide),
    sameMark '!'.toUInt8 (by decide), standalone_caseBlind first]
  repeat' split
  · rfl
  · exact point_caseBlind rest
  · exact slash_caseBlind rest
  · exact minus_caseBlind rest
  · exact less_caseBlind rest
  · exact greater_caseBlind rest
  · exact exclamation_caseBlind rest
  · next alone =>
      rw [Byte.lower_of_isCaseless (isCaseless_of_standalone alone)]
      rfl
  · exact (lower_verbatim _ [first]).symm

end Mark

/-- Whatever comes first, the lexeme there is the same in lower case, unless it
is quoted. -/
theorem Lexeme.ofFront_lower {first : UInt8} (notQuote : Byte.isQuote first = false)
    (rest : Bytes) :
    ofFront (Byte.lower first) (Bytes.lower rest) = (ofFront first rest).lower := by
  have quoteBlind := (Byte.isQuote_caseBlind first).trans notQuote
  unfold ofFront
  rw [Byte.isLetter_caseBlind first, Byte.isDigit_caseBlind first, quoteBlind, notQuote,
    Byte.beq_lower (by decide) first]
  split
  · exact word_caseBlind (first :: rest)
  · split
    · exact number_caseBlind (first :: rest)
    · rw [if_neg Bool.false_ne_true, if_neg Bool.false_ne_true]
      split
      · exact bindVariable_caseBlind rest
      · exact Mark.lexeme_lower first rest

end SqlLexer
