import SqlLexer.Proofs.Defects

/-!
# The units of quoted text

`Element` is a unit of quoted text as it is written.  No spelling of a unit is
the beginning of another one, and none begins what may end the units, so that a
text falls into units in one way only.  A scan follows this way: it succeeds
exactly if a closing quote stands at its end.
-/

namespace SqlLexer

namespace QuotedText

/-- A unit of quoted text. -/
inductive Element (quote : UInt8) where
  /-- A byte that stands for itself. -/
  | plain (byte : UInt8) (notQuote : byte ≠ quote) (notEscape : byte ≠ Byte.backslash)
  /-- The quote, written twice. -/
  | doubled
  /-- A byte behind a backslash. -/
  | escaped (marker : UInt8)

variable {quote : UInt8}

namespace Element

def spelling : Element quote → Bytes
  | plain byte _ _ => [byte]
  | doubled => [quote, quote]
  | escaped marker => [Byte.backslash, marker]

def meaning : Element quote → UInt8
  | plain byte _ _ => byte
  | doubled => quote
  | escaped marker => Escape.meaning marker

end Element

def spelled (elements : List (Element quote)) : Bytes :=
  elements.flatMap Element.spelling

def meant (elements : List (Element quote)) : Bytes :=
  elements.map Element.meaning

theorem spelled_cons (element : Element quote) (elements : List (Element quote)) :
    spelled (element :: elements) = element.spelling ++ spelled elements :=
  List.flatMap_cons

theorem units_iff {body value : Bytes} :
    Units quote body value ↔
      ∃ elements : List (Element quote), body = spelled elements ∧ value = meant elements := by
  constructor
  · intro units
    induction units with
    | nil => exact ⟨[], rfl, rfl⟩
    | @plain byte _ _ notQuote notEscape _ ih =>
        obtain ⟨elements, rfl, rfl⟩ := ih
        exact ⟨.plain byte notQuote notEscape :: elements, rfl, rfl⟩
    | doubled _ ih =>
        obtain ⟨elements, rfl, rfl⟩ := ih
        exact ⟨.doubled :: elements, rfl, rfl⟩
    | escaped marker _ ih =>
        obtain ⟨elements, rfl, rfl⟩ := ih
        exact ⟨.escaped marker :: elements, rfl, rfl⟩
  · rintro ⟨elements, rfl, rfl⟩
    induction elements with
    | nil => exact .nil
    | cons element elements ih =>
        cases element with
        | plain byte notQuote notEscape => exact .plain notQuote notEscape ih
        | doubled => exact .doubled ih
        | escaped marker => exact .escaped marker ih

/-- What may stand behind the units: one closing quote with other text, nothing
at all, or a backslash with nothing behind it. -/
inductive IsEnding (quote : UInt8) : Bytes → Prop where
  | closing {behind : Bytes} : behind.head? ≠ some quote → IsEnding quote (quote :: behind)
  | nothing : IsEnding quote []
  | loneEscape : IsEnding quote [Byte.backslash]

/-- The text behind an opening quote consists of these units, one closing quote,
and other text. -/
structure ClosesWith (quote : UInt8) (afterQuote : Bytes) (elements : List (Element quote))
    (behind : Bytes) : Prop where
  split : afterQuote = spelled elements ++ quote :: behind
  single : behind.head? ≠ some quote

/-- The text behind an opening quote consists of these units alone, but for a
backslash with nothing behind it. -/
def RunsOut (quote : UInt8) (afterQuote : Bytes) (elements : List (Element quote)) : Prop :=
  afterQuote = spelled elements ∨ afterQuote = spelled elements ++ [Byte.backslash]

/-! ## There is one way to split a text into units -/

theorem Element.eq_of_spelling_append (notEscape : quote ≠ Byte.backslash)
    {first second : Element quote} {behind other : Bytes}
    (same : first.spelling ++ behind = second.spelling ++ other) :
    first = second ∧ behind = other := by
  cases first with
  | plain byte notQuote notBackslash =>
      cases second with
      | plain => cases same; exact ⟨rfl, rfl⟩
      | doubled => exact absurd (List.cons.inj same).1 notQuote
      | escaped => exact absurd (List.cons.inj same).1 notBackslash
  | doubled =>
      cases second with
      | plain byte notQuote => exact absurd (List.cons.inj same).1.symm notQuote
      | doubled => cases same; exact ⟨rfl, rfl⟩
      | escaped => exact absurd (List.cons.inj same).1 notEscape
  | escaped marker =>
      cases second with
      | plain byte _ notBackslash => exact absurd (List.cons.inj same).1.symm notBackslash
      | doubled => exact absurd (List.cons.inj same).1.symm notEscape
      | escaped => cases same; exact ⟨rfl, rfl⟩

theorem IsEnding.ne_spelling_append (notEscape : quote ≠ Byte.backslash) {ending : Bytes}
    (ends : IsEnding quote ending) (element : Element quote) (behind : Bytes) :
    element.spelling ++ behind ≠ ending := by
  intro same
  cases ends with
  | closing single =>
      cases element with
      | plain byte notQuote => exact notQuote (List.cons.inj same).1
      | doubled => exact single (congrArg List.head? (List.cons.inj same).2).symm
      | escaped marker => exact notEscape (List.cons.inj same).1.symm
  | nothing => cases element <;> cases same
  | loneEscape =>
      cases element with
      | plain byte _ notBackslash => exact notBackslash (List.cons.inj same).1
      | doubled => exact notEscape (List.cons.inj same).1
      | escaped marker => cases same

/-- A text falls into units and what ends them in one way at most. -/
theorem spelled_append_inj (notEscape : quote ≠ Byte.backslash)
    {first second : List (Element quote)} {ending other : Bytes}
    (ends : IsEnding quote ending) (otherEnds : IsEnding quote other)
    (same : spelled first ++ ending = spelled second ++ other) :
    first = second ∧ ending = other := by
  induction first generalizing second with
  | nil =>
      cases second with
      | nil => exact ⟨rfl, same⟩
      | cons element elements =>
          rw [spelled_cons, List.append_assoc] at same
          exact absurd same.symm (ends.ne_spelling_append notEscape _ _)
  | cons head tail ih =>
      rw [spelled_cons, List.append_assoc] at same
      cases second with
      | nil => exact absurd same (otherEnds.ne_spelling_append notEscape _ _)
      | cons element elements =>
          rw [spelled_cons, List.append_assoc] at same
          obtain ⟨rfl, sameBehind⟩ := Element.eq_of_spelling_append notEscape same
          obtain ⟨rfl, sameEnding⟩ := ih sameBehind
          exact ⟨rfl, sameEnding⟩

namespace ClosesWith

variable {afterQuote behind : Bytes} {elements : List (Element quote)}

theorem unique (notEscape : quote ≠ Byte.backslash)
    (closes : ClosesWith quote afterQuote elements behind) {others : List (Element quote)}
    {otherBehind : Bytes} (otherCloses : ClosesWith quote afterQuote others otherBehind) :
    elements = others ∧ behind = otherBehind := by
  obtain ⟨sameElements, sameEnding⟩ := spelled_append_inj notEscape (.closing closes.single)
    (.closing otherCloses.single) (closes.split.symm.trans otherCloses.split)
  exact ⟨sameElements, (List.cons.inj sameEnding).2⟩

theorem read_eq (notEscape : quote ≠ Byte.backslash)
    (closes : ClosesWith quote afterQuote elements behind) :
    read quote afterQuote =
      { value := meant elements, width := (spelled elements).length + 1, closed := true } := by
  have units : Units quote (spelled elements) (meant elements) :=
    units_iff.mpr ⟨elements, rfl, rfl⟩
  rw [closes.split]
  exact read_of_splits notEscape (.closed units closes.single)

end ClosesWith

namespace RunsOut

variable {afterQuote : Bytes} {elements : List (Element quote)}

theorem unique (notEscape : quote ≠ Byte.backslash) (runsOut : RunsOut quote afterQuote elements)
    {others : List (Element quote)} (otherRunsOut : RunsOut quote afterQuote others) :
    others = elements := by
  have split {these : List (Element quote)} (out : RunsOut quote afterQuote these) :
      ∃ ending, IsEnding quote ending ∧ afterQuote = spelled these ++ ending := by
    rcases out with whole | escape
    · exact ⟨[], .nothing, by rw [List.append_nil, whole]⟩
    · exact ⟨_, .loneEscape, escape⟩
  obtain ⟨ending, ends, whole⟩ := split runsOut
  obtain ⟨otherEnding, otherEnds, otherWhole⟩ := split otherRunsOut
  exact (spelled_append_inj notEscape otherEnds ends (otherWhole.symm.trans whole)).1

theorem read_eq (notEscape : quote ≠ Byte.backslash)
    (runsOut : RunsOut quote afterQuote elements) :
    read quote afterQuote =
      { value := meant elements, width := afterQuote.length, closed := false } := by
  have units : Units quote (spelled elements) (meant elements) :=
    units_iff.mpr ⟨elements, rfl, rfl⟩
  rcases runsOut with rfl | rfl
  · exact read_of_splits notEscape (.unclosed units)
  · rw [List.length_append]
    exact read_of_splits notEscape (.loneEscape units)

end RunsOut

theorem closes_or_runsOut (quote : UInt8) (afterQuote : Bytes) :
    (∃ elements behind, ClosesWith quote afterQuote elements behind) ∨
      ∃ elements, RunsOut quote afterQuote elements := by
  have splits := splits_read quote afterQuote
  generalize read quote afterQuote = text at splits
  cases splits with
  | @closed _ _ behind units single =>
      obtain ⟨elements, rfl, rfl⟩ := units_iff.mp units
      exact .inl ⟨elements, behind, rfl, single⟩
  | unclosed units =>
      obtain ⟨elements, rfl, rfl⟩ := units_iff.mp units
      exact .inr ⟨elements, .inl rfl⟩
  | loneEscape units =>
      obtain ⟨elements, rfl, rfl⟩ := units_iff.mp units
      exact .inr ⟨elements, .inr rfl⟩

end QuotedText

open QuotedText

def Kind.ofQuote (quote : UInt8) : Kind :=
  if quote = Byte.backQuote then .identifier else .string

theorem Lexer.scan_at_quote {input : Bytes} {lexer : Lexer} {place : Nat} {quote : UInt8}
    (stands : lexer.StandsIn input) (running : lexer.isStopped = false)
    (ahead : lexer.position ≤ place) (blank : AllBlank (input.extract lexer.position place))
    (front : input[place]? = some quote) (isQuote : Byte.isQuote quote = true)
    {text : QuotedText} (reads : QuotedText.read quote (input.drop (place + 1)) = text) :
    lexer.scan.1 =
        { kind := if text.closed then .ofQuote quote else .invalid
          value := text.value
          offset := place } ∧
      lexer.scan.2.position = place + 1 + text.width := by
  have notBlank : Byte.isBlank quote = false := by
    cases isBlank : Byte.isBlank quote with
    | false => rfl
    | true =>
        rw [Lexeme.isQuote_of_class (by decide) isBlank] at isQuote
        cases isQuote
  rw [scan_at stands running ahead blank front notBlank, Lexeme.ofFront_of_isQuote isQuote,
    Lexeme.quoted, reads]
  constructor
  · simp only [Lexeme.toToken, Kind.ofQuote, beq_iff_eq]
  · simp only [position, Nat.add_assoc, Nat.add_comm text.width 1]

/-- Where a quote comes next, a scan gives what stands between it and a closing
quote: the text that the units mean, with the kind of the quote.  There is such a
token exactly if the text falls into units and a closing quote that is not
doubled, and it falls so in one way only.  Otherwise the token is invalid, and
takes all of the input with the units that are there. -/
theorem scan_quoted_iff (input : Bytes) (config : Config) (commands : List Command)
    {place : Nat} {quote : UInt8}
    (running : ((Lexer.start input config).after commands).isStopped = false)
    (ahead : ((Lexer.start input config).after commands).position ≤ place)
    (blank : AllBlank
      (input.extract ((Lexer.start input config).after commands).position place))
    (front : input[place]? = some quote) (isQuote : Byte.isQuote quote = true) :
    let lexer := (Lexer.start input config).after commands
    let afterQuote := input.drop (place + 1)
    (∀ value count,
        lexer.scan.1 = { kind := .ofQuote quote, value, offset := place } ∧
            lexer.scan.2.position = place + 1 + count ↔
          ∃ elements behind, ClosesWith quote afterQuote elements behind ∧
            value = meant elements ∧ count = (spelled elements).length + 1) ∧
      (∀ elements behind others otherBehind, ClosesWith quote afterQuote elements behind →
        ClosesWith quote afterQuote others otherBehind →
          elements = others ∧ behind = otherBehind) ∧
      ((¬∃ elements behind, ClosesWith quote afterQuote elements behind) →
        ∃ elements, RunsOut quote afterQuote elements ∧
          (∀ others, RunsOut quote afterQuote others → others = elements) ∧
          lexer.scan.1 = { kind := .invalid, value := meant elements, offset := place } ∧
          lexer.scan.2.position = input.length) := by
  intro lexer afterQuote
  have notEscape := Byte.ne_backslash_of_isQuote isQuote
  have stands : lexer.StandsIn input :=
    (Lexer.invariant_standsIn input).after commands (Lexer.standsIn_start input config)
  have closing {elements : List (Element quote)} {behind : Bytes}
      (closes : ClosesWith quote afterQuote elements behind) :
      lexer.scan.1 = { kind := .ofQuote quote, value := meant elements, offset := place } ∧
        lexer.scan.2.position = place + 1 + ((spelled elements).length + 1) :=
    Lexer.scan_at_quote stands running ahead blank front isQuote (closes.read_eq notEscape)
  have runningOut {elements : List (Element quote)}
      (runsOut : RunsOut quote afterQuote elements) :
      lexer.scan.1 = { kind := .invalid, value := meant elements, offset := place } ∧
        lexer.scan.2.position = place + 1 + afterQuote.length :=
    Lexer.scan_at_quote stands running ahead blank front isQuote (runsOut.read_eq notEscape)
  refine ⟨?_, fun _ _ _ _ closes => closes.unique notEscape, ?_⟩
  · intro value count
    constructor
    · rintro ⟨token, stop⟩
      rcases closes_or_runsOut quote afterQuote with ⟨elements, behind, closes⟩ | ⟨elements, out⟩
      · rw [(closing closes).1] at token
        rw [(closing closes).2] at stop
        cases token
        exact ⟨elements, behind, closes, rfl, by omega⟩
      · rw [(runningOut out).1] at token
        have sameKind := congrArg Token.kind token
        simp only [Kind.ofQuote] at sameKind
        split at sameKind <;> cases sameKind
    · rintro ⟨elements, behind, closes, rfl, rfl⟩
      exact closing closes
  · intro neverCloses
    obtain ⟨elements, out⟩ := (closes_or_runsOut quote afterQuote).resolve_left neverCloses
    have inside := (List.getElem?_eq_some_iff.mp front).1
    refine ⟨elements, out, fun _ => out.unique notEscape, (runningOut out).1, ?_⟩
    rw [(runningOut out).2, List.length_drop]
    omega

/-- An escaped quote before three doubled ones, and a keyword between back quotes
behind them. -/
theorem scan_quoted_iff_in_a_row :
    let input := ascii "? '\\'''''''' `select`"
    let lexer := (Lexer.start input .default).after [.scan]
    let elements : List (Element Byte.singleQuote) :=
      [.escaped Byte.singleQuote, .doubled, .doubled, .doubled]
    lexer.isStopped = false ∧ lexer.position ≤ 2 ∧
      AllBlank (input.extract lexer.position 2) ∧ input[2]? = some Byte.singleQuote ∧
      Byte.isQuote Byte.singleQuote = true ∧
      ClosesWith Byte.singleQuote (input.drop 3) elements (ascii " `select`") ∧
      lexer.scan.1 = { kind := .string, value := ascii "''''", offset := 2 } ∧
      lexer.scan.2.position = 3 + 9 := by
  intro input lexer elements
  have running : lexer.isStopped = false := by decide
  have ahead : lexer.position ≤ 2 := by decide
  have allBlank : (input.extract lexer.position 2).all Byte.isBlank = true := by decide
  have blank : AllBlank (input.extract lexer.position 2) :=
    fun byte member => List.all_eq_true.mp allBlank byte member
  have front : input[2]? = some Byte.singleQuote := by decide
  have closes : ClosesWith Byte.singleQuote (input.drop 3) elements (ascii " `select`") :=
    ⟨by decide, by decide⟩
  have scanned := ((scan_quoted_iff input .default [.scan] running ahead blank front rfl).1
    (ascii "''''") 9).mpr ⟨elements, _, closes, by decide, by decide⟩
  exact ⟨running, ahead, blank, front, rfl, closes, scanned⟩

end SqlLexer
