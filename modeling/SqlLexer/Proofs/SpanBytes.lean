import SqlLexer.Proofs.Defects
import SqlLexer.Proofs.Joining

/-!
# The bytes of a span

Outside quoted text and comments a lexeme takes plain bytes only: letters,
digits and marks.  A byte that starts no token is taken alone.  So whatever is
found in a span besides plain bytes, such as a blank or a part of a longer
character, stands in quoted text or in a comment.
-/

namespace SqlLexer

open TokenStream

namespace Byte

/-- A byte of which words, numbers and operators consist. -/
def isPlain (byte : UInt8) : Bool :=
  opensToken byte && !isQuote byte

theorem isPlain_iff (byte : UInt8) :
    isPlain byte = true ↔ opensToken byte = true ∧ isQuote byte = false := by
  rw [isPlain, Bool.and_eq_true, Bool.not_eq_true']

theorem isPlain_of_isWordByte {byte : UInt8} (word : isWordByte byte = true) :
    isPlain byte = true := by
  rw [isPlain_iff]
  refine ⟨?_, Lexeme.isQuote_of_class (by decide) word⟩
  simp only [isWordByte, Bool.or_eq_true] at word
  rcases word with letter | digit
  · simp [opensToken, letter]
  · simp [opensToken, digit]

theorem isPlain_of_isDigit {byte : UInt8} (digit : isDigit byte = true) : isPlain byte = true :=
  isPlain_of_isWordByte (by rw [isWordByte, digit, Bool.or_true])

theorem isPlain_of_isBindByte {byte : UInt8} (bind : isBindByte byte = true) :
    isPlain byte = true := by
  simp only [isBindByte, Bool.or_eq_true, beq_iff_eq] at bind
  rcases bind with word | rfl
  · exact isPlain_of_isWordByte word
  · decide

theorem isPlain_of_structural {byte : UInt8}
    (structural : Kind.structuralBytes.contains byte = true) : isPlain byte = true := by
  rw [isPlain_iff]
  refine ⟨?_, Lexeme.isQuote_of_class (by decide) structural⟩
  rw [opensToken, structural, Bool.or_true]

theorem isPlain_of_isHexDigit {byte : UInt8} (hex : isHexDigit byte = true) :
    isPlain byte = true := by
  apply isPlain_of_isWordByte
  rw [isHexDigit, decide_eq_true_eq, digitValue] at hex
  split at hex
  · next digit => rw [isWordByte, digit, Bool.or_true]
  split at hex
  · next lower =>
      rw [isBetween, Bool.and_eq_true, decide_eq_true_eq, decide_eq_true_eq] at lower
      have letter : isLower byte = true := by
        rw [isLower, isBetween, Bool.and_eq_true, decide_eq_true_eq, decide_eq_true_eq]
        exact ⟨lower.1, UInt8.le_trans lower.2 (by decide)⟩
      simp [isWordByte, isLetter, letter]
  split at hex
  · next upper =>
      rw [isBetween, Bool.and_eq_true, decide_eq_true_eq, decide_eq_true_eq] at upper
      have letter : isUpper byte = true := by
        rw [isUpper, isBetween, Bool.and_eq_true, decide_eq_true_eq, decide_eq_true_eq]
        exact ⟨upper.1, UInt8.le_trans upper.2 (by decide)⟩
      simp [isWordByte, isLetter, letter]
  · exact absurd hex (by decide)

theorem isBlank_of_isPlain {byte : UInt8} (plain : isPlain byte = true) :
    isBlank byte = false := by
  cases blank : isBlank byte with
  | false => rfl
  | true =>
      simp only [isBlank, Bool.or_eq_true, beq_iff_eq] at blank
      rcases blank with ((rfl | rfl) | rfl) | rfl <;> cases plain

end Byte

def AllPlain (bytes : Bytes) : Prop :=
  ∀ byte ∈ bytes, Byte.isPlain byte = true

namespace AllPlain

theorem nil : AllPlain [] :=
  fun _ member => absurd member List.not_mem_nil

theorem cons {byte : UInt8} {bytes : Bytes} (plain : Byte.isPlain byte = true)
    (others : AllPlain bytes) : AllPlain (byte :: bytes) :=
  List.forall_mem_cons.mpr ⟨plain, others⟩

theorem append {first second : Bytes} (firstPlain : AllPlain first)
    (secondPlain : AllPlain second) : AllPlain (first ++ second) := by
  intro byte member
  rcases List.mem_append.mp member with inFirst | inSecond
  · exact firstPlain byte inFirst
  · exact secondPlain byte inSecond

theorem takeWhile {inClass : UInt8 → Bool}
    (plain : ∀ byte, inClass byte = true → Byte.isPlain byte = true) (input : Bytes) :
    AllPlain (input.takeWhile inClass) := by
  intro byte member
  exact plain byte (List.all_eq_true.mp List.all_takeWhile byte member)

end AllPlain

namespace Numeral

theorem allPlain_digits (input : Bytes) : AllPlain (input.takeWhile Byte.isDigit) :=
  .takeWhile (fun _ => Byte.isPlain_of_isDigit) input

theorem allPlain_fraction (input : Bytes) : AllPlain (fraction input) := by
  cases input with
  | nil => exact .nil
  | cons byte rest =>
      rw [fraction]
      split
      · next isPoint =>
          rw [eq_of_beq isPoint]
          exact .cons (by decide) (allPlain_digits rest)
      · exact .nil

theorem allPlain_sign (input : Bytes) : AllPlain (sign input) := by
  cases input with
  | nil => exact .nil
  | cons byte rest =>
      rw [sign]
      split
      · next isSign =>
          simp only [Bool.or_eq_true, beq_iff_eq] at isSign
          rcases isSign with rfl | rfl
          · exact .cons (by decide) .nil
          · exact .cons (by decide) .nil
      · exact .nil

theorem allPlain_exponent (input : Bytes) : AllPlain (exponent input) := by
  cases input with
  | nil => exact .nil
  | cons byte rest =>
      rw [exponent]
      split
      · next isMark =>
          have behind :=
            (allPlain_sign rest).append (allPlain_digits (rest.drop (sign rest).length))
          simp only [Bool.or_eq_true, beq_iff_eq] at isMark
          rcases isMark with rfl | rfl
          · exact .cons (by decide) behind
          · exact .cons (by decide) behind
      · exact .nil

theorem allPlain_decimal (input : Bytes) : AllPlain (decimal input) :=
  ((allPlain_digits _).append (allPlain_fraction _)).append (allPlain_exponent _)

theorem allPlain_ofFront (input : Bytes) : AllPlain (ofFront input) := by
  cases input with
  | nil => exact allPlain_decimal []
  | cons first rest =>
      by_cases isZero : (first == '0'.toUInt8) = true
      · rw [eq_of_beq isZero, ofFront_zero]
        split
        · next marked =>
            cases rest with
            | nil => cases marked
            | cons mark digits =>
                have hexDigits : AllPlain (digits.takeWhile Byte.isHexDigit) :=
                  .takeWhile (fun _ => Byte.isPlain_of_isHexDigit) digits
                simp only [List.head?_cons, Option.any_some, isHexMark, Bool.or_eq_true,
                  beq_iff_eq] at marked
                rcases marked with rfl | rfl
                · exact .cons (by decide) (.cons (by decide) hexDigits)
                · exact .cons (by decide) (.cons (by decide) hexDigits)
        · exact allPlain_decimal _
      · rw [ofFront_of_head_ne_zero isZero]
        exact allPlain_decimal _

end Numeral

namespace Lexeme

/-- What a lexeme takes of an input: plain bytes, one byte that starts no token,
quoted text, or a comment. -/
inductive Takes (input : Bytes) (lexeme : Lexeme) : Prop where
  | plain : AllPlain (input.take lexeme.width) → Takes input lexeme
  | stray {byte : UInt8} {rest : Bytes} : ¬Byte.opensToken byte = true → input = byte :: rest →
      lexeme = verbatim .invalid [byte] → Takes input lexeme
  | quoted {quote : UInt8} {rest : Bytes} : Byte.isQuote quote = true → input = quote :: rest →
      lexeme = quoted quote rest → Takes input lexeme
  | line {mark : UInt8} {rest : Bytes} : mark = '-'.toUInt8 ∨ mark = '/'.toUInt8 →
      input = mark :: mark :: rest → lexeme = lineComment mark rest → Takes input lexeme
  | block {rest : Bytes} : input = '/'.toUInt8 :: '*'.toUInt8 :: rest →
      lexeme = blockComment rest → Takes input lexeme

theorem takes_verbatim {kind : Kind} {spelling input : Bytes} (isPrefix : spelling <+: input)
    (plain : AllPlain spelling) : (verbatim kind spelling).Takes input := by
  obtain ⟨rest, rfl⟩ := isPrefix
  apply Takes.plain
  rw [verbatim, List.take_left]
  exact plain

theorem takes_symbol {kind : Kind} (span rest : Bytes) (plain : AllPlain span) :
    (symbol kind span.length).Takes (span ++ rest) := by
  apply Takes.plain
  rw [symbol, List.take_left]
  exact plain

theorem takes_word (input : Bytes) : (word input).Takes input := by
  apply Takes.plain
  rw [width_word, ← List.prefix_iff_eq_take.mp (List.takeWhile_prefix Byte.isWordByte)]
  exact .takeWhile (fun _ => Byte.isPlain_of_isWordByte) input

theorem takes_number (input : Bytes) : (number input).Takes input :=
  takes_verbatim (Numeral.isPrefix_ofFront input) (Numeral.allPlain_ofFront input)

theorem takes_bindVariable (rest : Bytes) : (bindVariable rest).Takes (':'.toUInt8 :: rest) := by
  have name := List.takeWhile_prefix (l := rest) Byte.isBindByte
  have plainName := AllPlain.takeWhile (fun _ => Byte.isPlain_of_isBindByte) rest
  exact takes_verbatim (List.cons_prefix_cons.mpr ⟨rfl, name⟩) (.cons (by decide) plainName)

end Lexeme

namespace Mark

open Lexeme

theorem takes_point (rest : Bytes) : (point rest).Takes ('.'.toUInt8 :: rest) := by
  unfold point
  split
  · exact takes_number _
  · exact takes_symbol ['.'.toUInt8] rest (.cons (by decide) .nil)

theorem takes_slash (rest : Bytes) : (slash rest).Takes ('/'.toUInt8 :: rest) := by
  unfold slash
  split
  · next doubled =>
      obtain ⟨afterMarks, rfl⟩ := List.head?_eq_some_iff.mp (eq_of_beq doubled)
      exact .line (.inr rfl) rfl rfl
  · split
    · next opens =>
        obtain ⟨afterOpen, rfl⟩ := List.head?_eq_some_iff.mp (eq_of_beq opens)
        exact .block rfl rfl
    · exact takes_symbol ['/'.toUInt8] rest (.cons (by decide) .nil)

theorem takes_minus (rest : Bytes) : (minus rest).Takes ('-'.toUInt8 :: rest) := by
  unfold minus
  split
  · next doubled =>
      obtain ⟨afterMarks, rfl⟩ := List.head?_eq_some_iff.mp (eq_of_beq doubled)
      exact .line (.inl rfl) rfl rfl
  · exact takes_symbol ['-'.toUInt8] rest (.cons (by decide) .nil)

theorem takes_less (rest : Bytes) : (less rest).Takes ('<'.toUInt8 :: rest) := by
  have opening : AllPlain ['<'.toUInt8] := .cons (by decide) .nil
  unfold less
  split
  · next unequal =>
      obtain ⟨after, rfl⟩ := List.head?_eq_some_iff.mp (eq_of_beq unequal)
      exact takes_symbol ['<'.toUInt8, '>'.toUInt8] after (opening.append (.cons (by decide) .nil))
  · split
    · next orEqual =>
        obtain ⟨after, rfl⟩ := List.head?_eq_some_iff.mp (eq_of_beq orEqual)
        have orEqualPlain : AllPlain ['<'.toUInt8, '='.toUInt8] :=
          opening.append (.cons (by decide) .nil)
        split
        · next nullSafe =>
            obtain ⟨others, rfl⟩ := List.head?_eq_some_iff.mp (eq_of_beq nullSafe)
            exact takes_symbol ['<'.toUInt8, '='.toUInt8, '>'.toUInt8] others
              (orEqualPlain.append (.cons (by decide) .nil))
        · exact takes_symbol ['<'.toUInt8, '='.toUInt8] after orEqualPlain
    · exact takes_symbol ['<'.toUInt8] rest opening

theorem takes_beforeEqual (mark : UInt8) (plain : Byte.isPlain mark = true) (kind : Kind)
    (alone : Lexeme)
    (takesAlone : ∀ rest : Bytes, alone.Takes (mark :: rest)) (rest : Bytes) :
    (if rest.head? == some '='.toUInt8 then symbol kind 2 else alone).Takes (mark :: rest) := by
  split
  · next orEqual =>
      obtain ⟨after, rfl⟩ := List.head?_eq_some_iff.mp (eq_of_beq orEqual)
      exact takes_symbol [mark, '='.toUInt8] after (.cons plain (.cons (by decide) .nil))
  · exact takesAlone rest

theorem takes_greater (rest : Bytes) : (greater rest).Takes ('>'.toUInt8 :: rest) :=
  takes_beforeEqual _ (by decide) _ _
    (fun rest => takes_symbol ['>'.toUInt8] rest (.cons (by decide) .nil)) rest

theorem takes_exclamation (rest : Bytes) : (exclamation rest).Takes ('!'.toUInt8 :: rest) :=
  takes_beforeEqual _ (by decide) _ _
    (fun rest => takes_verbatim ⟨rest, rfl⟩ (.cons (by decide) .nil)) rest

theorem takes_lexeme {first : UInt8} (notQuote : ¬Byte.isQuote first = true) (rest : Bytes) :
    (lexeme first rest).Takes (first :: rest) := by
  by_cases opens : Byte.opensToken first = true
  · unfold lexeme
    repeat' split
    · next isMark =>
        rw [eq_of_beq isMark]
        exact takes_verbatim ⟨rest, rfl⟩ (.cons (by decide) .nil)
    · next isMark =>
        rw [eq_of_beq isMark]
        exact takes_point rest
    · next isMark =>
        rw [eq_of_beq isMark]
        exact takes_slash rest
    · next isMark =>
        rw [eq_of_beq isMark]
        exact takes_minus rest
    · next isMark =>
        rw [eq_of_beq isMark]
        exact takes_less rest
    · next isMark =>
        rw [eq_of_beq isMark]
        exact takes_greater rest
    · next isMark =>
        rw [eq_of_beq isMark]
        exact takes_exclamation rest
    · next alone =>
        have plain := Byte.isPlain_of_structural (structural_of_standalone alone)
        exact takes_symbol [first] rest (.cons plain .nil)
    · have plain : Byte.isPlain first = true :=
        (Byte.isPlain_iff first).mpr ⟨opens, (Bool.not_eq_true _).mp notQuote⟩
      exact takes_verbatim ⟨rest, rfl⟩ (.cons plain .nil)
  · exact .stray opens rfl (lexeme_of_stray opens rest)

end Mark

namespace Comment

theorem getLast?_of_throughClose? {input body : Bytes} (closes : throughClose? input = some body) :
    body.getLast? = some '/'.toUInt8 := by
  induction input generalizing body with
  | nil => cases closes
  | cons byte rest ih =>
      by_cases isClose : IsClose byte rest
      · rw [throughClose?_of_isClose isClose] at closes
        cases closes
        rfl
      · rw [throughClose?_of_not_isClose isClose] at closes
        obtain ⟨inner, innerCloses, rfl⟩ := Option.map_eq_some_iff.mp closes
        rw [List.getLast?_cons, ih innerCloses]
        rfl

end Comment

namespace Lexeme

/-- Whatever comes first, a lexeme takes plain bytes, a stray byte, quoted text or
a comment. -/
theorem takes_ofFront (first : UInt8) (rest : Bytes) :
    (ofFront first rest).Takes (first :: rest) := by
  rcases ofFront_cases first with
    ⟨_, isWord⟩ | ⟨_, isNumber⟩ | ⟨quote, isQuoted⟩ | ⟨isColon, isBind⟩ | ⟨notQuote, isMark⟩
  · rw [isWord]
    exact takes_word _
  · rw [isNumber]
    exact takes_number _
  · rw [isQuoted]
    exact .quoted quote rfl rfl
  · rw [isBind, isColon]
    exact takes_bindVariable rest
  · rw [isMark]
    exact Mark.takes_lexeme ((Bool.eq_false_iff).mp notQuote) rest

namespace Reads

variable {lexeme : Lexeme} {span rest : Bytes}

theorem width_eq (reads : lexeme.Reads span rest) : lexeme.width = span.length := by
  cases reads with
  | front _ exactly => exact exactly

theorem takes (reads : lexeme.Reads span rest) : lexeme.Takes (span ++ rest) := by
  cases reads with
  | front _ _ => exact takes_ofFront _ _

theorem allPlain_of_take (reads : lexeme.Reads span rest)
    (plain : AllPlain ((span ++ rest).take lexeme.width)) : AllPlain span := by
  rw [reads.width_eq, List.take_left] at plain
  exact plain

theorem split_eq (reads : lexeme.Reads span rest) {spelling after : Bytes}
    (front : span ++ rest = spelling ++ after) (measured : lexeme.width = spelling.length) :
    span = spelling ∧ rest = after :=
  List.append_inj front (reads.width_eq.symm.trans measured)

theorem head?_eq (reads : lexeme.Reads span rest) {first : UInt8} {others : Bytes}
    (front : span ++ rest = first :: others) : span.head? = some first := by
  obtain ⟨head, tail, rfl⟩ := List.exists_cons_of_ne_nil reads.span_ne_nil
  exact congrArg some (List.cons.inj front).1

/-- A span is plain, or one stray byte, or belongs to quoted text or a comment. -/
theorem allPlain_or_text (reads : lexeme.Reads span rest) :
    AllPlain span ∨ (∃ byte, span = [byte]) ∨ lexeme.kind = .comment ∨
      span.head?.any Byte.isQuote = true ∨
      (lexeme.kind = .invalid ∧ span.head?.any Byte.opensText = true) := by
  cases reads.takes with
  | plain plain => exact .inl (reads.allPlain_of_take plain)
  | @stray byte after _ front stray =>
      have spelled := (reads.split_eq front (by rw [stray]; rfl)).1
      exact .inr (.inl ⟨byte, spelled⟩)
  | quoted isQuote front _ =>
      refine .inr (.inr (.inr (.inl ?_)))
      rw [reads.head?_eq front]
      exact isQuote
  | line _ _ line =>
      rw [line]
      exact .inr (.inr (.inl rfl))
  | @block afterOpen front block =>
      cases closes : Comment.throughClose? afterOpen with
      | none =>
          rw [block, blockComment_open closes, reads.head?_eq front]
          exact .inr (.inr (.inr (.inr ⟨rfl, rfl⟩)))
      | some body =>
          rw [block, blockComment_closed closes]
          exact .inr (.inr (.inl rfl))

/-! ### How a span ends -/

theorem getLast?_of_quoted {quote : UInt8} {afterQuote : Bytes}
    (reads : (quoted quote afterQuote).Reads span rest)
    (front : span ++ rest = quote :: afterQuote)
    (closed : (QuotedText.read quote afterQuote).closed = true) :
    span.getLast? = some quote := by
  have splits := QuotedText.splits_read quote afterQuote
  have measured : (quoted quote afterQuote).width =
      (QuotedText.read quote afterQuote).width + 1 := rfl
  generalize QuotedText.read quote afterQuote = text at closed splits measured
  cases splits with
  | @closed body value behind units single =>
      have regrouped : quote :: (body ++ quote :: behind) =
          (quote :: body ++ [quote]) ++ behind := by simp
      have spelled := (reads.split_eq (front.trans regrouped) (by
        rw [measured, List.length_append]
        rfl)).1
      rw [spelled]
      exact List.getLast?_concat
  | unclosed _ => cases closed
  | loneEscape _ => cases closed

theorem getLast?_of_lineComment {mark : UInt8} {afterMarks : Bytes}
    (reads : (lineComment mark afterMarks).Reads span rest)
    (front : span ++ rest = mark :: mark :: afterMarks)
    (complete : (Comment.throughLine afterMarks).getLast? = some Byte.lineFeed) :
    span.getLast? = some Byte.lineFeed := by
  obtain ⟨after, split⟩ := Comment.isPrefix_throughLine afterMarks
  have regrouped : mark :: mark :: afterMarks =
      (mark :: mark :: Comment.throughLine afterMarks) ++ after := by
    rw [List.cons_append, List.cons_append, split]
  rw [(reads.split_eq (front.trans regrouped) rfl).1,
    List.getLast?_cons_cons, List.getLast?_cons, complete]
  rfl

theorem getLast?_of_blockComment {afterOpen body : Bytes}
    (reads : (blockComment afterOpen).Reads span rest)
    (front : span ++ rest = '/'.toUInt8 :: '*'.toUInt8 :: afterOpen)
    (closes : Comment.throughClose? afterOpen = some body) :
    span.getLast? = some '/'.toUInt8 := by
  obtain ⟨after, split⟩ := Comment.isPrefix_of_throughClose? closes
  have regrouped : '/'.toUInt8 :: '*'.toUInt8 :: afterOpen =
      ('/'.toUInt8 :: '*'.toUInt8 :: body) ++ after := by
    rw [List.cons_append, List.cons_append, split]
  rw [blockComment_closed closes] at reads
  rw [(reads.split_eq (front.trans regrouped) rfl).1,
    List.getLast?_cons_cons, List.getLast?_cons, Comment.getLast?_of_throughClose? closes]
  rfl

theorem rest_eq_nil_of_cutOff (reads : lexeme.Reads span rest)
    (cutOff : lexeme.kind = .invalid ∧ span.head?.any Byte.opensText = true) : rest = [] := by
  have measured := reads.width_eq
  cases reads with
  | @front first tail _ _ _ =>
      obtain ⟨invalid, opens⟩ := cutOff
      obtain ⟨defect, begins⟩ := exists_defect invalid
      have opens : Byte.opensText first = true := opens
      have isOpen : defect.isOpen = true := by
        cases defect with
        | openQuote | openComment => rfl
        | badOctal | namelessBind | loneExclamation =>
            obtain ⟨rfl, _⟩ := begins
            cases opens
        | strayByte =>
            have stray : ¬Byte.opensToken first = true := begins
            simp only [Byte.opensText, Bool.or_eq_true, beq_iff_eq] at opens
            rcases opens with isQuote | rfl
            · simp [Byte.opensToken, isQuote] at stray
            · exact absurd (by decide) stray
      have extent := (fails_of_begins begins).2
      rw [Defect.extent_of_isOpen isOpen, measured, List.length_append, List.length_cons] at extent
      exact List.eq_nil_of_length_eq_zero (by omega)

theorem rest_eq_nil_of_openLine (reads : lexeme.Reads span rest)
    (isOpen : (lexeme.toToken 0).isOpenLine = true) : rest = [] := by
  obtain ⟨mark, body, marks, rfl⟩ := reads.exists_marks_of_openLine isOpen
  cases reads with
  | front _ exactly =>
      simp only [List.cons_append, ofFront_doubled marks] at exactly isOpen
      rw [isOpenLine_lineComment marks, bne_iff_ne] at isOpen
      rw [lineComment, Comment.throughLine_of_cutOff isOpen] at exactly
      simp only [verbatim, List.length_cons, List.length_append] at exactly
      exact List.eq_nil_of_length_eq_zero (by omega)

/-- A lexeme that misses no end ends with a plain byte or a quote, or is one stray
byte, or is a comment with its line feed: that reads the same whatever stands behind
it. -/
theorem ends_of_complete (reads : lexeme.Reads span [])
    (notCutOff : ¬(lexeme.kind = .invalid ∧ span.head?.any Byte.opensText = true))
    (complete : (lexeme.toToken 0).isOpenLine = false) :
    ∃ last, span.getLast? = some last ∧
      (Byte.isPlain last = true ∨ Byte.isQuote last = true ∨ span = [last] ∨
        last = Byte.lineFeed ∧ ∀ behind, lexeme.Reads span behind) := by
  have exactly := reads.width_eq
  have atEnd : span ++ [] = span := List.append_nil span
  have takes := reads.takes
  rw [atEnd] at takes
  cases takes with
  | plain plain =>
      rw [exactly, List.take_length] at plain
      obtain ⟨last, isLast⟩ : ∃ last, span.getLast? = some last :=
        Option.isSome_iff_exists.mp (List.getLast?_isSome.mpr reads.span_ne_nil)
      exact ⟨last, isLast, .inl (plain last (List.mem_of_getLast? isLast))⟩
  | @stray byte after _ front stray =>
      have spelled := (reads.split_eq (atEnd.trans front) (by rw [stray]; rfl)).1
      exact ⟨byte, by rw [spelled]; rfl, .inr (.inr (.inl spelled))⟩
  | @quoted quote afterQuote isQuote front quoted =>
      subst front quoted
      cases closed : (QuotedText.read quote afterQuote).closed with
      | true => exact ⟨quote, reads.getLast?_of_quoted atEnd closed, .inr (.inl isQuote)⟩
      | false =>
          refine absurd ⟨(quoted_kind_iff _ _).mpr closed, ?_⟩ notCutOff
          simp [Byte.opensText, isQuote]
  | @line mark afterMarks marks front line =>
      subst front line
      rw [isOpenLine_lineComment marks, bne_eq_false_iff_eq] at complete
      refine ⟨_, reads.getLast?_of_lineComment atEnd complete, .inr (.inr (.inr ⟨rfl, ?_⟩))⟩
      intro behind
      have frontBehind : ofFront mark ((mark :: afterMarks) ++ behind) =
          lineComment mark afterMarks := by
        rw [List.cons_append, ofFront_doubled marks, lineComment,
          Comment.throughLine_append complete]
        rfl
      have notBlank : Byte.isBlank mark = false := by
        rcases marks with rfl | rfl <;> decide
      rw [← frontBehind] at exactly ⊢
      exact .front notBlank exactly
  | @block afterOpen front block =>
      subst front block
      cases closes : Comment.throughClose? afterOpen with
      | none => exact absurd ⟨congrArg Lexeme.kind (blockComment_open closes), rfl⟩ notCutOff
      | some body => exact ⟨_, reads.getLast?_of_blockComment atEnd closes, .inl (by decide)⟩

theorem exists_getLast? (reads : lexeme.Reads span rest) :
    rest = [] ∨ ∃ last, span.getLast? = some last ∧
      (Byte.isPlain last = true ∨ Byte.isQuote last = true ∨ span = [last] ∨
        last = Byte.lineFeed) := by
  by_cases cutOff : lexeme.kind = .invalid ∧ span.head?.any Byte.opensText = true
  · exact .inl (reads.rest_eq_nil_of_cutOff cutOff)
  cases isOpen : (lexeme.toToken 0).isOpenLine with
  | true => exact .inl (reads.rest_eq_nil_of_openLine isOpen)
  | false =>
      have alone : lexeme.Reads span [] := @cut _ _ [] rest reads
      obtain ⟨last, isLast, ends⟩ := alone.ends_of_complete cutOff isOpen
      exact .inr ⟨last, isLast, ends.imp_right (.imp_right (.imp_right And.left))⟩

end Reads

end Lexeme

end SqlLexer
