import SqlLexer.Proofs.QuotedText

/-!
# What the span of a lexeme says

A lexeme is built beside the bytes that it takes, not from them.  `Kind.Spells`
states for each kind which bytes may stand for it, which text they give it, and
what may follow them.  Every reader of the lexer obeys it at the front of every
input.
-/

namespace SqlLexer

/-- The word is the canonical spelling of the keyword, or one of its aliases. -/
def Keyword.IsSpelling (keyword : Keyword) (word : Bytes) : Prop :=
  word = ascii keyword.spelling ∨
    ∃ name, (name, keyword) ∈ Keyword.aliases ∧ word = ascii name

/-- The next byte makes a longer lexeme together with a structural byte. -/
def Kind.joins (byte next : UInt8) : Bool :=
  if byte == '<'.toUInt8 then next == '>'.toUInt8 || next == '='.toUInt8
  else if byte == '>'.toUInt8 then next == '='.toUInt8
  else if byte == '-'.toUInt8 then next == '-'.toUInt8
  else if byte == '/'.toUInt8 then next == '/'.toUInt8 || next == '*'.toUInt8
  else byte == '.'.toUInt8 && Byte.isDigit next

/-- The text is the span itself, which opens no quoted text. -/
def IsVerbatim (value span : Bytes) : Prop :=
  value = span ∧ span.head?.any Byte.isQuote = false

/-- The span is quoted text from its opening quote through its closing one, and
the text is what it means. -/
def Encloses (quote : UInt8) (value span : Bytes) (next : Option UInt8) : Prop :=
  ∃ body, span = quote :: (body ++ [quote]) ∧ QuotedText.Units quote body value ∧
    next ≠ some quote

/-- The span is an opening quote with units up to the end of the input, but no
closing quote.  A backslash with nothing behind it may be left over. -/
def IsUnclosed (value span : Bytes) (next : Option UInt8) : Prop :=
  ∃ quote body, Byte.isQuote quote = true ∧
    (span = quote :: body ∨ span = quote :: (body ++ [Byte.backslash])) ∧
    QuotedText.Units quote body value ∧ next = none

/-- The span stands for a lexeme of the kind with this text, in front of this
byte. -/
def Kind.Spells (kind : Kind) (value span : Bytes) (next : Option UInt8) : Prop :=
  match kind with
  | .endOfInput => False
  | .punctuation byte =>
    value = [] ∧ span = [byte] ∧ byte ∈ structuralBytes ∧ next.any (joins byte) = false
  | .keyword word => value = Bytes.lower span ∧ word.IsSpelling value
  | .identifier => IsVerbatim value span ∨ Encloses Byte.backQuote value span next
  | .string =>
    Encloses Byte.singleQuote value span next ∨ Encloses Byte.doubleQuote value span next
  | .number | .valueArgument | .comment => IsVerbatim value span
  | .notEqual =>
    value = [] ∧
      (span = ['<'.toUInt8, '>'.toUInt8] ∨ span = ['!'.toUInt8, '='.toUInt8])
  | .lessOrEqual =>
    value = [] ∧ span = ['<'.toUInt8, '='.toUInt8] ∧ next ≠ some '>'.toUInt8
  | .greaterOrEqual => value = [] ∧ span = ['>'.toUInt8, '='.toUInt8]
  | .nullSafeEqual => value = [] ∧ span = ['<'.toUInt8, '='.toUInt8, '>'.toUInt8]
  | .invalid => IsVerbatim value span ∨ IsUnclosed value span next

/-! ## Numerals and comments are read as they stand -/

theorem isPrefix_append {first second input : Bytes} (starts : first <+: input)
    (continues : second <+: input.drop first.length) : first ++ second <+: input := by
  obtain ⟨rest, rfl⟩ := starts
  rw [List.drop_left] at continues
  exact (List.prefix_append_right_inj first).mpr continues

namespace Numeral

theorem isPrefix_fraction (input : Bytes) : fraction input <+: input := by
  cases input with
  | nil => exact List.prefix_refl []
  | cons byte rest =>
      rw [fraction]
      split
      · exact List.cons_prefix_cons.mpr ⟨rfl, List.takeWhile_prefix _⟩
      · exact List.nil_prefix

theorem isPrefix_sign (input : Bytes) : sign input <+: input := by
  cases input with
  | nil => exact List.prefix_refl []
  | cons byte rest =>
      rw [sign]
      split
      · exact List.cons_prefix_cons.mpr ⟨rfl, List.nil_prefix⟩
      · exact List.nil_prefix

theorem isPrefix_exponent (input : Bytes) : exponent input <+: input := by
  cases input with
  | nil => exact List.prefix_refl []
  | cons byte rest =>
      rw [exponent]
      split
      · have digits := isPrefix_append (isPrefix_sign rest) (List.takeWhile_prefix Byte.isDigit)
        exact List.cons_prefix_cons.mpr ⟨rfl, digits⟩
      · exact List.nil_prefix

theorem isPrefix_decimal (input : Bytes) : decimal input <+: input := by
  have whole := List.takeWhile_prefix (l := input) Byte.isDigit
  have mantissa := isPrefix_append whole (isPrefix_fraction _)
  have numeral := isPrefix_append mantissa (isPrefix_exponent _)
  simpa only [decimal, List.length_append, ← List.drop_drop, drop_length_takeWhile] using numeral

theorem isPrefix_ofFront (input : Bytes) : ofFront input <+: input := by
  cases input with
  | nil => exact List.prefix_refl []
  | cons first rest =>
      by_cases isZero : (first == '0'.toUInt8) = true
      · rw [eq_of_beq isZero, ofFront_zero]
        cases rest with
        | nil => exact isPrefix_decimal _
        | cons mark digits =>
            split
            · have hexDigits := List.takeWhile_prefix (l := digits) Byte.isHexDigit
              exact List.cons_prefix_cons.mpr
                ⟨rfl, List.cons_prefix_cons.mpr ⟨rfl, hexDigits⟩⟩
            · exact isPrefix_decimal _
      · rw [ofFront_of_head_ne_zero isZero]
        exact isPrefix_decimal _

end Numeral

namespace Comment

theorem isPrefix_throughLine (input : Bytes) : throughLine input <+: input := by
  induction input with
  | nil => exact List.prefix_refl []
  | cons byte rest ih =>
      rw [throughLine]
      split
      · exact List.cons_prefix_cons.mpr ⟨rfl, List.nil_prefix⟩
      · exact List.cons_prefix_cons.mpr ⟨rfl, ih⟩

theorem isPrefix_of_throughClose? {input body : Bytes}
    (closed : throughClose? input = some body) : body <+: input := by
  induction input generalizing body with
  | nil => cases closed
  | cons byte rest ih =>
      by_cases isClose : IsClose byte rest
      · rw [throughClose?_of_isClose isClose] at closed
        cases closed
        obtain ⟨isStar, isSlash⟩ := isClose
        obtain ⟨others, rfl⟩ := List.head?_eq_some_iff.mp isSlash
        rw [isStar]
        exact ⟨others, rfl⟩
      · rw [throughClose?_of_not_isClose isClose] at closed
        obtain ⟨inner, innerClosed, rfl⟩ := Option.map_eq_some_iff.mp closed
        exact List.cons_prefix_cons.mpr ⟨rfl, ih innerClosed⟩

end Comment

/-! ## Each reader spells what it reads -/

namespace Lexeme

/-- The first bytes of an input spell the lexeme. -/
inductive SpellsFront (lexeme : Lexeme) : Bytes → Prop where
  | front (span after : Bytes) :
      lexeme.width = span.length →
      lexeme.kind.Spells lexeme.value span after.head? →
      SpellsFront lexeme (span ++ after)

theorem spellsFront_verbatim {kind : Kind} {spelling rest : Bytes} {first : UInt8}
    (isPrefix : spelling <+: first :: rest) (notQuote : Byte.isQuote first = false)
    (spells : ∀ next, IsVerbatim spelling spelling → kind.Spells spelling spelling next) :
    (verbatim kind spelling).SpellsFront (first :: rest) := by
  have unquoted : spelling.head?.any Byte.isQuote = false := by
    cases spelling with
    | nil => rfl
    | cons head tail =>
        rw [(List.cons_prefix_cons.mp isPrefix).1]
        exact notQuote
  obtain ⟨after, split⟩ := isPrefix
  rw [← split]
  exact .front spelling after rfl (spells after.head? ⟨rfl, unquoted⟩)

theorem spellsFront_whole {lexeme : Lexeme} {input : Bytes}
    (measured : lexeme.width = input.length)
    (spells : lexeme.kind.Spells lexeme.value input none) : lexeme.SpellsFront input := by
  have front := SpellsFront.front input [] measured spells
  rw [List.append_nil] at front
  exact front

theorem spellsFront_symbol {kind : Kind} (span after : Bytes)
    (spells : kind.Spells [] span after.head?) :
    (symbol kind span.length).SpellsFront (span ++ after) :=
  .front span after rfl spells

theorem isSpelling_of_find? {word : Bytes} {keyword : Keyword}
    (found : Keyword.find? word = some keyword) : keyword.IsSpelling word := by
  obtain ⟨before, behind, split, _⟩ := List.lookup_eq_some_iff.mp found
  have member : (word, keyword) ∈ Keyword.entries := by
    rw [← List.mem_reverse, split]
    exact List.mem_append_right before List.mem_cons_self
  rcases List.mem_append.mp member with canonical | renamed
  · obtain ⟨other, _, same⟩ := List.mem_map.mp canonical
    cases same
    exact .inl rfl
  · obtain ⟨⟨name, other⟩, listed, same⟩ := List.mem_map.mp renamed
    cases same
    exact .inr ⟨name, listed, rfl⟩

theorem isQuote_of_class {inClass : UInt8 → Bool} {byte : UInt8}
    (excludes : [Byte.singleQuote, Byte.doubleQuote, Byte.backQuote].any inClass = false)
    (inside : inClass byte = true) : Byte.isQuote byte = false := by
  cases isQuote : Byte.isQuote byte with
  | false => rfl
  | true =>
      simp only [Byte.isQuote, Bool.or_eq_true, beq_iff_eq] at isQuote
      have listed : byte ∈ [Byte.singleQuote, Byte.doubleQuote, Byte.backQuote] := by
        rcases isQuote with (rfl | rfl) | rfl <;> simp
      exact absurd inside (List.any_eq_false.mp excludes byte listed)

theorem spellsFront_word {first : UInt8} (letter : Byte.isLetter first = true)
    (rest : Bytes) : (word (first :: rest)).SpellsFront (first :: rest) := by
  have isPrefix := List.takeWhile_prefix (l := first :: rest) Byte.isWordByte
  unfold word
  generalize (first :: rest).takeWhile Byte.isWordByte = spelling at isPrefix ⊢
  dsimp only
  split
  · next keyword found =>
      obtain ⟨after, whole⟩ := isPrefix
      rw [← whole]
      exact .front spelling after rfl ⟨rfl, isSpelling_of_find? found⟩
  · exact spellsFront_verbatim isPrefix (isQuote_of_class (by decide) letter) fun _ => .inl

theorem spellsFront_number {first : UInt8} (notQuote : Byte.isQuote first = false)
    (rest : Bytes) : (number (first :: rest)).SpellsFront (first :: rest) := by
  apply spellsFront_verbatim (Numeral.isPrefix_ofFront _) notQuote
  intro next isVerbatim
  split
  · exact .inl isVerbatim
  · exact isVerbatim

theorem spellsFront_bindVariable (rest : Bytes) :
    (bindVariable rest).SpellsFront (':'.toUInt8 :: rest) := by
  have name := List.takeWhile_prefix (l := rest) Byte.isBindByte
  apply spellsFront_verbatim (List.cons_prefix_cons.mpr ⟨rfl, name⟩) (by decide)
  intro next isVerbatim
  split
  · exact .inl isVerbatim
  · exact isVerbatim

theorem spellsFront_quoted {quote : UInt8} (isQuote : Byte.isQuote quote = true)
    (afterQuote : Bytes) : (quoted quote afterQuote).SpellsFront (quote :: afterQuote) := by
  have splits := QuotedText.splits_read quote afterQuote
  unfold quoted
  generalize QuotedText.read quote afterQuote = text at splits
  cases splits with
  | @closed body value rest units single =>
      have whole : quote :: (body ++ quote :: rest) = (quote :: (body ++ [quote])) ++ rest := by
        simp
      have encloses : Encloses quote value (quote :: (body ++ [quote])) rest.head? :=
        ⟨body, rfl, units, single⟩
      rw [whole]
      refine .front _ rest (by simp) ?_
      simp only [Byte.isQuote, Bool.or_eq_true, beq_iff_eq] at isQuote
      rcases isQuote with (rfl | rfl) | rfl
      · exact .inl encloses
      · exact .inr encloses
      · exact .inr encloses
  | @unclosed _ value units =>
      have unclosed : IsUnclosed value (quote :: afterQuote) none :=
        ⟨quote, afterQuote, isQuote, .inl rfl, units, rfl⟩
      exact spellsFront_whole rfl (.inr unclosed)
  | @loneEscape body value units =>
      have unclosed : IsUnclosed value (quote :: (body ++ [Byte.backslash])) none :=
        ⟨quote, body, isQuote, .inr rfl, units, rfl⟩
      exact spellsFront_whole (by simp) (.inr unclosed)

theorem spellsFront_lineComment {mark : UInt8} (notQuote : Byte.isQuote mark = false)
    (afterMarks : Bytes) :
    (lineComment mark afterMarks).SpellsFront (mark :: mark :: afterMarks) := by
  have line := Comment.isPrefix_throughLine afterMarks
  apply spellsFront_verbatim
    (List.cons_prefix_cons.mpr ⟨rfl, List.cons_prefix_cons.mpr ⟨rfl, line⟩⟩) notQuote
  intro next isVerbatim
  exact isVerbatim

theorem spellsFront_blockComment (afterOpen : Bytes) :
    (blockComment afterOpen).SpellsFront ('/'.toUInt8 :: '*'.toUInt8 :: afterOpen) := by
  unfold blockComment
  split
  · next body closed =>
      have isPrefix := Comment.isPrefix_of_throughClose? closed
      apply spellsFront_verbatim
        (List.cons_prefix_cons.mpr ⟨rfl, List.cons_prefix_cons.mpr ⟨rfl, isPrefix⟩⟩) (by decide)
      intro next isVerbatim
      exact isVerbatim
  · exact spellsFront_verbatim (List.prefix_refl _) (by decide) fun _ => .inl

end Lexeme

namespace Mark

open Lexeme

theorem spellsFront_structural {byte : UInt8} (structural : byte ∈ Kind.structuralBytes)
    {rest : Bytes} (alone : ∀ next, rest.head? = some next → Kind.joins byte next = false) :
    (symbol (.punctuation byte) 1).SpellsFront (byte :: rest) := by
  have notJoined : rest.head?.any (Kind.joins byte) = false := by
    cases rest with
    | nil => rfl
    | cons next others => exact alone next rfl
  exact spellsFront_symbol [byte] rest ⟨rfl, rfl, structural, notJoined⟩

theorem spellsFront_point (rest : Bytes) : (point rest).SpellsFront ('.'.toUInt8 :: rest) := by
  unfold point
  split
  · exact spellsFront_number (by decide) rest
  · next noDigit =>
      apply spellsFront_structural (by decide)
      intro next atFront
      rw [atFront] at noDigit
      exact (Bool.not_eq_true _).mp noDigit

theorem spellsFront_slash (rest : Bytes) : (slash rest).SpellsFront ('/'.toUInt8 :: rest) := by
  unfold slash
  split
  · next doubled =>
      obtain ⟨afterMarks, rfl⟩ := List.head?_eq_some_iff.mp (eq_of_beq doubled)
      exact spellsFront_lineComment (by decide) afterMarks
  · next notSlash =>
      split
      · next opens =>
          obtain ⟨afterOpen, rfl⟩ := List.head?_eq_some_iff.mp (eq_of_beq opens)
          exact spellsFront_blockComment afterOpen
      · next notStar =>
          apply spellsFront_structural (by decide)
          intro next atFront
          rw [atFront] at notSlash notStar
          exact Bool.or_eq_false_iff.mpr ⟨by simpa using notSlash, by simpa using notStar⟩

theorem spellsFront_minus (rest : Bytes) : (minus rest).SpellsFront ('-'.toUInt8 :: rest) := by
  unfold minus
  split
  · next doubled =>
      obtain ⟨afterMarks, rfl⟩ := List.head?_eq_some_iff.mp (eq_of_beq doubled)
      exact spellsFront_lineComment (by decide) afterMarks
  · next notMinus =>
      apply spellsFront_structural (by decide)
      intro next atFront
      rw [atFront] at notMinus
      exact (Bool.not_eq_true _).mp notMinus

theorem spellsFront_less (rest : Bytes) : (less rest).SpellsFront ('<'.toUInt8 :: rest) := by
  unfold less
  split
  · next unequal =>
      obtain ⟨after, rfl⟩ := List.head?_eq_some_iff.mp (eq_of_beq unequal)
      exact spellsFront_symbol ['<'.toUInt8, '>'.toUInt8] after ⟨rfl, .inl rfl⟩
  · next notGreater =>
      split
      · next orEqual =>
          obtain ⟨after, rfl⟩ := List.head?_eq_some_iff.mp (eq_of_beq orEqual)
          split
          · next nullSafe =>
              obtain ⟨others, rfl⟩ := List.head?_eq_some_iff.mp (eq_of_beq nullSafe)
              exact spellsFront_symbol ['<'.toUInt8, '='.toUInt8, '>'.toUInt8] others
                ⟨rfl, rfl⟩
          · next notGreaterBehind =>
              exact spellsFront_symbol ['<'.toUInt8, '='.toUInt8] after
                ⟨rfl, rfl, by simpa using notGreaterBehind⟩
      · next notEqual =>
          apply spellsFront_structural (by decide)
          intro next atFront
          rw [atFront] at notGreater notEqual
          exact Bool.or_eq_false_iff.mpr ⟨by simpa using notGreater, by simpa using notEqual⟩

theorem spellsFront_greater (rest : Bytes) :
    (greater rest).SpellsFront ('>'.toUInt8 :: rest) := by
  unfold greater
  split
  · next orEqual =>
      obtain ⟨after, rfl⟩ := List.head?_eq_some_iff.mp (eq_of_beq orEqual)
      exact spellsFront_symbol ['>'.toUInt8, '='.toUInt8] after ⟨rfl, rfl⟩
  · next notEqual =>
      apply spellsFront_structural (by decide)
      intro next atFront
      rw [atFront] at notEqual
      exact (Bool.not_eq_true _).mp notEqual

theorem spellsFront_exclamation (rest : Bytes) :
    (exclamation rest).SpellsFront ('!'.toUInt8 :: rest) := by
  unfold exclamation
  split
  · next unequal =>
      obtain ⟨after, rfl⟩ := List.head?_eq_some_iff.mp (eq_of_beq unequal)
      exact spellsFront_symbol ['!'.toUInt8, '='.toUInt8] after ⟨rfl, .inr rfl⟩
  · exact spellsFront_verbatim ⟨rest, rfl⟩ (by decide) fun _ => .inl

theorem spellsFront_lexeme {first : UInt8} (notQuote : Byte.isQuote first = false)
    (rest : Bytes) : (lexeme first rest).SpellsFront (first :: rest) := by
  unfold lexeme
  by_cases isPlaceholder : first = '?'.toUInt8
  · subst isPlaceholder
    exact spellsFront_verbatim ⟨rest, rfl⟩ (by decide) fun _ isVerbatim => isVerbatim
  by_cases isPoint : first = '.'.toUInt8
  · subst isPoint
    exact spellsFront_point rest
  by_cases isSlash : first = '/'.toUInt8
  · subst isSlash
    exact spellsFront_slash rest
  by_cases isMinus : first = '-'.toUInt8
  · subst isMinus
    exact spellsFront_minus rest
  by_cases isLess : first = '<'.toUInt8
  · subst isLess
    exact spellsFront_less rest
  by_cases isGreater : first = '>'.toUInt8
  · subst isGreater
    exact spellsFront_greater rest
  by_cases isExclamation : first = '!'.toUInt8
  · subst isExclamation
    exact spellsFront_exclamation rest
  simp only [beq_iff_eq, isPlaceholder, isPoint, isSlash, isMinus, isLess, isGreater,
    isExclamation, if_false]
  split
  · next alone =>
      apply spellsFront_structural (List.contains_iff_mem.mp (structural_of_standalone alone))
      intro next _
      simp [Kind.joins, isPoint, isSlash, isMinus, isLess, isGreater]
  · exact spellsFront_verbatim ⟨rest, rfl⟩ notQuote fun _ => .inl

end Mark

/-- Whatever comes first, the lexeme there is spelled by the first bytes. -/
theorem Lexeme.spellsFront_ofFront (first : UInt8) (rest : Bytes) :
    (ofFront first rest).SpellsFront (first :: rest) := by
  unfold ofFront
  split
  · next letter => exact spellsFront_word letter rest
  · split
    · next digit => exact spellsFront_number (isQuote_of_class (by decide) digit) rest
    · split
      · next isQuote => exact spellsFront_quoted isQuote rest
      · next notQuote =>
          split
          · next isColon =>
              rw [eq_of_beq isColon]
              exact spellsFront_bindVariable rest
          · exact Mark.spellsFront_lexeme ((Bool.not_eq_true _).mp notQuote) rest

end SqlLexer
