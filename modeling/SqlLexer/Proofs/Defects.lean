import SqlLexer.Proofs.Octal
import SqlLexer.Proofs.Tiling

/-!
# Where no token starts

Text that is no token of the dialect fails in one of six ways, each of which
shows in the text itself: no reader has to be run to see it.  `Defect.Begins`
states them, and every invalid lexeme has one of them and no other cause.  The
defect also fixes what is skipped, and therefore where reading resumes.
-/

namespace SqlLexer

/-- Behind an opening quote stand units and a closing quote, which is not
doubled. -/
def QuotedText.Closes (quote : UInt8) (afterQuote : Bytes) : Prop :=
  ∃ body value behind, afterQuote = body ++ quote :: behind ∧
    Units quote body value ∧ ¬behind.head? = some quote

/-- A byte with which some token starts. -/
def Byte.opensToken (byte : UInt8) : Bool :=
  isLetter byte || isDigit byte || isQuote byte || byte == ':'.toUInt8 || byte == '?'.toUInt8 ||
    byte == '!'.toUInt8 || Kind.structuralBytes.contains byte

/-- A way in which text starts no token. -/
inductive Defect where
  /-- Digits with a leading zero, with an eight or a nine among them, and no
  fraction or exponent that would make them decimal. -/
  | badOctal
  | openQuote
  | openComment
  /-- A colon that no name follows. -/
  | namelessBind
  /-- An exclamation mark that no equals sign follows. -/
  | loneExclamation
  | strayByte
  deriving DecidableEq, Repr

namespace Defect

/-- The text that consists of this byte and the rest starts with the defect. -/
def Begins (defect : Defect) (first : UInt8) (rest : Bytes) : Prop :=
  match defect with
  | badOctal =>
    first = '0'.toUInt8 ∧
      ((first :: rest).takeWhile Byte.isDigit).any Byte.isDecimalOnly = true ∧
      ¬((first :: rest).dropWhile Byte.isDigit).head?.any Numeral.continuesDigits = true
  | openQuote => Byte.isQuote first = true ∧ ¬QuotedText.Closes first rest
  | openComment =>
    first = '/'.toUInt8 ∧
      ∃ afterOpen, rest = '*'.toUInt8 :: afterOpen ∧ ¬ascii "*/" <:+: afterOpen
  | namelessBind => first = ':'.toUInt8 ∧ ¬rest.head?.any Byte.isBindByte = true
  | loneExclamation => first = '!'.toUInt8 ∧ ¬rest.head? = some '='.toUInt8
  | strayByte => ¬Byte.opensToken first = true

/-- How many bytes are skipped for the defect. -/
def extent (defect : Defect) (first : UInt8) (rest : Bytes) : Nat :=
  match defect with
  | badOctal => ((first :: rest).takeWhile Byte.isDigit).length
  | openQuote | openComment => (first :: rest).length
  | namelessBind | loneExclamation | strayByte => 1

/-- The defect is the lack of a closing mark. -/
def isOpen (defect : Defect) : Bool :=
  defect == openQuote || defect == openComment

theorem extent_of_isOpen {defect : Defect} (isOpen : defect.isOpen = true) (first : UInt8)
    (rest : Bytes) : defect.extent first rest = rest.length + 1 := by
  cases defect with
  | openQuote | openComment => rfl
  | badOctal | namelessBind | loneExclamation | strayByte => cases isOpen

end Defect

/-! ## What each reader fails on -/

namespace QuotedText

theorem closed_read_iff {quote : UInt8} (notEscape : quote ≠ Byte.backslash)
    (afterQuote : Bytes) : (read quote afterQuote).closed = true ↔ Closes quote afterQuote := by
  constructor
  · intro closed
    have splits := splits_read quote afterQuote
    generalize read quote afterQuote = text at closed splits
    cases splits with
    | @closed body value behind units single => exact ⟨body, value, behind, rfl, units, single⟩
    | unclosed _ => cases closed
    | loneEscape _ => cases closed
  · rintro ⟨body, value, behind, rfl, units, single⟩
    rw [read_of_splits notEscape (.closed units single)]

theorem closed_read_eq_false_iff {quote : UInt8} (isQuote : Byte.isQuote quote = true)
    (afterQuote : Bytes) : (read quote afterQuote).closed = false ↔ ¬Closes quote afterQuote := by
  rw [← closed_read_iff (Byte.ne_backslash_of_isQuote isQuote), Bool.not_eq_true]

theorem width_read_of_not_closed {quote : UInt8} {afterQuote : Bytes}
    (notClosed : (read quote afterQuote).closed = false) :
    (read quote afterQuote).width = afterQuote.length := by
  have splits := splits_read quote afterQuote
  generalize read quote afterQuote = text at notClosed splits
  cases splits with
  | closed _ _ => cases notClosed
  | unclosed _ => rfl
  | loneEscape _ => simp

end QuotedText

namespace Comment

theorem isClose_iff (byte : UInt8) (rest : Bytes) :
    IsClose byte rest ↔ ascii "*/" <+: byte :: rest := by
  have marks : ascii "*/" = ['*'.toUInt8, '/'.toUInt8] := rfl
  rw [marks, List.cons_prefix_cons, IsClose, eq_comm (a := byte)]
  cases rest with
  | nil => simp
  | cons next others => simp [List.cons_prefix_cons, eq_comm]

theorem throughClose?_eq_none_iff (input : Bytes) :
    throughClose? input = none ↔ ¬ascii "*/" <:+: input := by
  induction input with
  | nil => decide
  | cons byte rest ih =>
      rw [List.infix_cons_iff, ← isClose_iff]
      by_cases isClose : IsClose byte rest
      · rw [throughClose?_of_isClose isClose]
        simp [isClose]
      · rw [throughClose?_of_not_isClose isClose, Option.map_eq_none_iff, ih]
        simp [isClose]

end Comment

theorem Numeral.isBadOctal_ofFront_of_ne_zero {first : UInt8}
    (notZero : ¬(first == '0'.toUInt8) = true) (rest : Bytes) :
    isBadOctal (ofFront (first :: rest)) = false := by
  have isPrefix := isPrefix_ofFront (first :: rest)
  cases numeral : ofFront (first :: rest) with
  | nil => rfl
  | cons head tail =>
      rw [numeral] at isPrefix
      rw [(List.cons_prefix_cons.mp isPrefix).1]
      exact isBadOctal_of_head_ne_zero notZero tail

namespace Lexeme

theorem word_kind_ne (input : Bytes) : (word input).kind ≠ .invalid := by
  unfold word
  dsimp only
  split <;> simp [verbatim]

theorem number_kind_iff (input : Bytes) :
    (number input).kind = .invalid ↔ Numeral.isBadOctal (Numeral.ofFront input) = true := by
  simp [number, verbatim]

theorem quoted_kind_iff (quote : UInt8) (afterQuote : Bytes) :
    (quoted quote afterQuote).kind = .invalid ↔
      (QuotedText.read quote afterQuote).closed = false := by
  rw [quoted]
  dsimp only
  split
  · next closed => split <;> simp [closed]
  · next notClosed => simp [notClosed]

theorem blockComment_kind_iff (afterOpen : Bytes) :
    (blockComment afterOpen).kind = .invalid ↔ ¬ascii "*/" <:+: afterOpen := by
  rw [← Comment.throughClose?_eq_none_iff, blockComment]
  split
  · next closes => simp [closes, verbatim]
  · next neverCloses => simp [neverCloses, verbatim]

theorem bindVariable_of_nameless {afterColon : Bytes}
    (nameless : ¬afterColon.head?.any Byte.isBindByte = true) :
    bindVariable afterColon = verbatim .invalid [':'.toUInt8] := by
  cases afterColon with
  | nil => rfl
  | cons byte rest =>
      have outside : ¬Byte.isBindByte byte = true := nameless
      rw [bindVariable, List.takeWhile_cons_of_neg outside]
      rfl

theorem nameless_of_bindVariable_kind {afterColon : Bytes}
    (invalid : (bindVariable afterColon).kind = .invalid) :
    ¬afterColon.head?.any Byte.isBindByte = true := by
  intro named
  cases afterColon with
  | nil => cases named
  | cons byte rest =>
      have inside : Byte.isBindByte byte = true := named
      rw [bindVariable, List.takeWhile_cons_of_pos inside] at invalid
      cases invalid

theorem lineComment_kind_ne (mark : UInt8) (afterMarks : Bytes) :
    (lineComment mark afterMarks).kind ≠ .invalid := by
  simp [lineComment, verbatim]

end Lexeme

namespace Mark

open Lexeme

theorem point_kind_ne (rest : Bytes) : (point rest).kind ≠ .invalid := by
  have notZero : ¬('.'.toUInt8 == '0'.toUInt8) = true := by decide
  unfold point
  split
  · rw [ne_eq, number_kind_iff, Numeral.isBadOctal_ofFront_of_ne_zero notZero]
    exact Bool.false_ne_true
  · simp [symbol]

theorem exists_of_slash_kind {rest : Bytes} (invalid : (slash rest).kind = .invalid) :
    ∃ afterOpen, rest = '*'.toUInt8 :: afterOpen ∧ ¬ascii "*/" <:+: afterOpen := by
  unfold slash at invalid
  split at invalid
  · exact absurd invalid (lineComment_kind_ne _ _)
  · split at invalid
    · next opens =>
        obtain ⟨afterOpen, rfl⟩ := List.head?_eq_some_iff.mp (eq_of_beq opens)
        exact ⟨afterOpen, rfl, (blockComment_kind_iff afterOpen).mp invalid⟩
    · cases invalid

theorem minus_kind_ne (rest : Bytes) : (minus rest).kind ≠ .invalid := by
  unfold minus
  split
  · exact lineComment_kind_ne _ _
  · simp [symbol]

theorem less_kind_ne (rest : Bytes) : (less rest).kind ≠ .invalid := by
  unfold less
  repeat' split
  all_goals simp [symbol]

theorem greater_kind_ne (rest : Bytes) : (greater rest).kind ≠ .invalid := by
  unfold greater
  split <;> simp [symbol]

theorem exclamation_kind_iff (rest : Bytes) :
    (exclamation rest).kind = .invalid ↔ ¬rest.head? = some '='.toUInt8 := by
  unfold exclamation
  split
  · next unequal => simpa [symbol] using unequal
  · next alone => simpa [verbatim] using alone

theorem exists_defect {first : UInt8} {rest : Bytes} (notLetter : ¬Byte.isLetter first = true)
    (notDigit : ¬Byte.isDigit first = true) (notQuote : ¬Byte.isQuote first = true)
    (notColon : ¬(first == ':'.toUInt8) = true) (invalid : (lexeme first rest).kind = .invalid) :
    ∃ defect : Defect, defect.Begins first rest := by
  unfold lexeme at invalid
  repeat' split at invalid
  · cases invalid
  · exact absurd invalid (point_kind_ne rest)
  · next isSlash => exact ⟨.openComment, eq_of_beq isSlash, exists_of_slash_kind invalid⟩
  · exact absurd invalid (minus_kind_ne rest)
  · exact absurd invalid (less_kind_ne rest)
  · exact absurd invalid (greater_kind_ne rest)
  · next isExclamation =>
      exact ⟨.loneExclamation, eq_of_beq isExclamation, (exclamation_kind_iff rest).mp invalid⟩
  · cases invalid
  · next notPlaceholder notPoint notSlash notMinus notLess notGreater notExclamation notAlone =>
      have notStructural : ¬Kind.structuralBytes.contains first = true := by
        rw [structuralBytes_eq, List.contains_append]
        simp only [List.map_cons, List.map_nil, List.contains_cons, List.contains_nil,
          Bool.or_false, Bool.or_eq_true, not_or]
        exact ⟨notAlone, notPoint, notSlash, notMinus, notLess, notGreater⟩
      refine ⟨.strayByte, ?_⟩
      simp only [Defect.Begins, Byte.opensToken, Bool.or_eq_true, not_or]
      exact ⟨⟨⟨⟨⟨⟨notLetter, notDigit⟩, notQuote⟩, notColon⟩, notPlaceholder⟩, notExclamation⟩,
        notStructural⟩

theorem lexeme_of_stray {first : UInt8} (stray : ¬Byte.opensToken first = true)
    (rest : Bytes) : lexeme first rest = verbatim .invalid [first] := by
  simp only [Byte.opensToken, Bool.or_eq_true, not_or] at stray
  obtain ⟨⟨⟨_, notPlaceholder⟩, notExclamation⟩, notStructural⟩ := stray
  have notMark : ∀ mark, Kind.structuralBytes.contains mark = true → ¬(first == mark) = true := by
    intro mark structural same
    rw [eq_of_beq same] at notStructural
    exact notStructural structural
  have notAlone : ¬standalone.contains first = true := fun alone =>
    notStructural (structural_of_standalone alone)
  rw [lexeme, if_neg notPlaceholder, if_neg (notMark _ (by decide)), if_neg (notMark _ (by decide)),
    if_neg (notMark _ (by decide)), if_neg (notMark _ (by decide)), if_neg (notMark _ (by decide)),
    if_neg notExclamation, if_neg notAlone]

end Mark

/-! ## The defect at the front of an input -/

namespace Lexeme

/-- What is no token has a defect. -/
theorem exists_defect {first : UInt8} {rest : Bytes}
    (invalid : (ofFront first rest).kind = .invalid) :
    ∃ defect : Defect, defect.Begins first rest := by
  unfold ofFront at invalid
  by_cases letter : Byte.isLetter first = true
  · rw [if_pos letter] at invalid
    exact absurd invalid (word_kind_ne _)
  rw [if_neg letter] at invalid
  by_cases digit : Byte.isDigit first = true
  · rw [if_pos digit, number_kind_iff] at invalid
    by_cases isZero : (first == '0'.toUInt8) = true
    · cases eq_of_beq isZero
      exact ⟨.badOctal, rfl, (Numeral.isBadOctal_ofFront_zero rest).mp invalid⟩
    · rw [Numeral.isBadOctal_ofFront_of_ne_zero isZero] at invalid
      cases invalid
  rw [if_neg digit] at invalid
  by_cases quote : Byte.isQuote first = true
  · rw [if_pos quote] at invalid
    have notClosed := (quoted_kind_iff first rest).mp invalid
    exact ⟨.openQuote, quote, (QuotedText.closed_read_eq_false_iff quote rest).mp notClosed⟩
  rw [if_neg quote] at invalid
  by_cases colon : (first == ':'.toUInt8) = true
  · rw [if_pos colon] at invalid
    exact ⟨.namelessBind, eq_of_beq colon, nameless_of_bindVariable_kind invalid⟩
  rw [if_neg colon] at invalid
  exact Mark.exists_defect letter digit quote colon invalid

theorem ofFront_of_stray {first : UInt8} (stray : ¬Byte.opensToken first = true)
    (rest : Bytes) : ofFront first rest = verbatim .invalid [first] := by
  have isMark := Mark.lexeme_of_stray stray rest
  simp only [Byte.opensToken, Bool.or_eq_true, not_or] at stray
  obtain ⟨⟨⟨⟨⟨⟨notLetter, notDigit⟩, notQuote⟩, notColon⟩, _⟩, _⟩, _⟩ := stray
  rw [ofFront, if_neg notLetter, if_neg notDigit, if_neg notQuote, if_neg notColon, isMark]

/-- What has a defect is no token, and the defect says how much is skipped. -/
theorem fails_of_begins {defect : Defect} {first : UInt8} {rest : Bytes}
    (begins : defect.Begins first rest) :
    (ofFront first rest).kind = .invalid ∧
      (ofFront first rest).width = defect.extent first rest := by
  cases defect with
  | badOctal =>
      obtain ⟨rfl, judged⟩ := begins
      have isNumber : ofFront '0'.toUInt8 rest = number ('0'.toUInt8 :: rest) := rfl
      have bad := (Numeral.isBadOctal_ofFront_zero rest).mpr judged
      rw [isNumber]
      exact ⟨(number_kind_iff _).mpr bad,
        congrArg List.length (Numeral.ofFront_zero_of_isBadOctal bad)⟩
  | openQuote =>
      obtain ⟨quote, neverCloses⟩ := begins
      have notClosed := (QuotedText.closed_read_eq_false_iff quote rest).mpr neverCloses
      rw [ofFront_of_isQuote quote]
      exact ⟨(quoted_kind_iff first rest).mpr notClosed,
        congrArg (· + 1) (QuotedText.width_read_of_not_closed notClosed)⟩
  | openComment =>
      obtain ⟨rfl, afterOpen, rfl, neverCloses⟩ := begins
      have isBlock : ofFront '/'.toUInt8 ('*'.toUInt8 :: afterOpen) = blockComment afterOpen :=
        rfl
      have neverClosed := (Comment.throughClose?_eq_none_iff afterOpen).mpr neverCloses
      rw [isBlock, blockComment_open neverClosed]
      exact ⟨rfl, rfl⟩
  | namelessBind =>
      obtain ⟨rfl, nameless⟩ := begins
      have isBind : ofFront ':'.toUInt8 rest = bindVariable rest := rfl
      rw [isBind, bindVariable_of_nameless nameless]
      exact ⟨rfl, rfl⟩
  | loneExclamation =>
      obtain ⟨rfl, alone⟩ := begins
      have isExclamation : ofFront '!'.toUInt8 rest = Mark.exclamation rest := rfl
      rw [isExclamation, Mark.exclamation, if_neg (by simpa using alone)]
      exact ⟨rfl, rfl⟩
  | strayByte =>
      rw [ofFront_of_stray begins]
      exact ⟨rfl, rfl⟩

end Lexeme

theorem Lexer.stream_of_rest_nil {lexer : Lexer} (running : lexer.isStopped = false)
    (atEnd : lexer.cursor.rest = []) :
    lexer.stream =
      { proper := []
        final :=
          { token := Token.bare .endOfInput lexer.position, stop := lexer.position } } := by
  rw [stream_eq_ofBytes running, atEnd, TokenStream.ofBytes_of_allBlank AllBlank.nil]
  simp [TokenStream.shift, Entry.shift, Token.bare]

/-- The lexer that has read up to a place, with all else as it was. -/
def Lexer.moveTo (lexer : Lexer) (input : Bytes) (place : Nat) : Lexer :=
  { lexer with cursor := { rest := input.drop place, position := place } }

/-- A scan that is not stopped gives an invalid token exactly where the text at
the first byte that is no blank starts with a defect.  It skips the extent of
the defect and nothing more; for a missing closing mark that is all of the
input. -/
theorem scan_isInvalid_iff (input : Bytes) (config : Config) (commands : List Command)
    {place : Nat} {first : UInt8}
    (running : ((Lexer.start input config).after commands).isStopped = false)
    (ahead : ((Lexer.start input config).after commands).position ≤ place)
    (blank : AllBlank
      (input.extract ((Lexer.start input config).after commands).position place))
    (front : input[place]? = some first) (notBlank : Byte.isBlank first = false) :
    let lexer := (Lexer.start input config).after commands
    let rest := input.drop (place + 1)
    lexer.scan.1.offset = place ∧
      (lexer.scan.1.isInvalid = true ↔ ∃ defect : Defect, defect.Begins first rest) ∧
      ∀ defect : Defect, defect.Begins first rest →
        lexer.scan.2 = lexer.moveTo input (place + defect.extent first rest) ∧
        (defect.isOpen = true →
          lexer.scan.2.position = input.length ∧
          lexer.scan.2.stream.entries =
            [{ token := Token.bare .endOfInput input.length, stop := input.length }]) := by
  intro lexer rest
  have stands : lexer.StandsIn input :=
    (Lexer.invariant_standsIn input).after commands (Lexer.standsIn_start input config)
  have scanned := Lexer.scan_at stands running ahead blank front notBlank
  have isInvalid : lexer.scan.1.isInvalid = true ↔ (Lexeme.ofFront first rest).kind = .invalid := by
    rw [scanned]
    exact beq_iff_eq
  refine ⟨by rw [scanned]; rfl, ?_, ?_⟩
  · rw [isInvalid]
    constructor
    · exact Lexeme.exists_defect
    · rintro ⟨defect, begins⟩
      exact (Lexeme.fails_of_begins begins).1
  · intro defect begins
    obtain ⟨invalid, measured⟩ := Lexeme.fails_of_begins begins
    have moved : lexer.scan.2 = lexer.moveTo input (place + defect.extent first rest) := by
      rw [scanned]
      simp [Lexer.moveTo, rest, measured, Lexeme.toToken, Token.isPlaceholder, invalid]
    refine ⟨moved, ?_⟩
    intro isOpen
    have stop : place + defect.extent first rest = input.length := by
      obtain ⟨inside, _⟩ := List.getElem?_eq_some_iff.mp front
      have whole := Defect.extent_of_isOpen isOpen first rest
      rw [whole, List.length_drop]
      omega
    rw [stop] at moved
    have atEnd : lexer.scan.2.cursor.rest = [] := by
      rw [moved]
      exact List.drop_length
    have position : lexer.scan.2.position = input.length := by
      rw [moved]
      rfl
    refine ⟨position, ?_⟩
    have stillRunning := (Lexer.isStopped_scan lexer).trans running
    rw [Lexer.stream_of_rest_nil stillRunning atEnd, position]
    rfl

/-- An opening mark whose star cannot close it as well, behind a placeholder. -/
theorem scan_isInvalid_iff_at_open_comment :
    let input := ascii "? \n/*/ '"
    let lexer := (Lexer.start input .default).after [.scan]
    lexer.isStopped = false ∧ lexer.position ≤ 3 ∧
      AllBlank (input.extract lexer.position 3) ∧ input[3]? = some '/'.toUInt8 ∧
      Defect.openComment.Begins '/'.toUInt8 (input.drop 4) ∧
      lexer.scan.1.offset = 3 ∧ lexer.scan.1.isInvalid = true ∧
      lexer.scan.2.stream.entries =
        [{ token := Token.bare .endOfInput 8, stop := 8 }] := by
  intro input lexer
  have running : lexer.isStopped = false := by decide
  have ahead : lexer.position ≤ 3 := by decide
  have allBlank : (input.extract lexer.position 3).all Byte.isBlank = true := by decide
  have blank : AllBlank (input.extract lexer.position 3) :=
    fun byte member => List.all_eq_true.mp allBlank byte member
  have front : input[3]? = some '/'.toUInt8 := by decide
  have begins : Defect.openComment.Begins '/'.toUInt8 (input.drop 4) :=
    ⟨rfl, ascii "/ '", by decide, by decide⟩
  obtain ⟨offset, isInvalid, behind⟩ :=
    scan_isInvalid_iff input .default [.scan] running ahead blank front (by decide)
  exact ⟨running, ahead, blank, front, begins, offset, isInvalid.mpr ⟨_, begins⟩,
    ((behind _ begins).2 rfl).2⟩

end SqlLexer
