import Mathlib.Data.List.Forall2
import SqlLexer.Proofs.Lowering
import SqlLexer.Proofs.Progress
import SqlLexer.Proofs.SessionStream

/-!
# Texts that differ in the case of letters

Lowering the letters of a text leaves the text's tokens in their places.  Two
texts with the same lower-case form therefore have the same tokens, up to the
case of the letters in them.  Only the meaning of an escape in quoted text may
depend on case, and even there the number of bytes does not.
-/

namespace SqlLexer

/-- The tokens are the same up to the case of letters.  Text that started with a
quote may differ otherwise, but not in length. -/
structure Token.SameButCase (quoted : Bool) (left right : Token) : Prop where
  kind_eq : left.kind = right.kind
  offset_eq : left.offset = right.offset
  length_eq : left.value.length = right.value.length
  isPlaceholder_eq : left.isPlaceholder = right.isPlaceholder
  keyword_eq : left.kind.isKeyword = true → left.value = right.value
  lower_eq : quoted = false → Bytes.lower left.value = Bytes.lower right.value

/-- The token starts with a quote of the input. -/
def Token.isQuotedIn (token : Token) (input : Bytes) : Bool :=
  input[token.offset]?.any Byte.isQuote

/-! ## The lexeme at the front -/

theorem beq_placeholder_lower (value : Bytes) :
    (Bytes.lower value == ['?'.toUInt8]) = (value == ['?'.toUInt8]) := by
  have caseless : Byte.isCaseless '?'.toUInt8 = true := by decide
  match value with
  | [] => rfl
  | [byte] => simpa using Byte.beq_lower caseless byte
  | first :: second :: rest => simp

namespace Lexeme

theorem lower_value_of_isKeyword {first : UInt8} {rest : Bytes}
    (isKeyword : (ofFront first rest).kind.isKeyword = true) :
    Bytes.lower (ofFront first rest).value = (ofFront first rest).value := by
  have spellsFront := spellsFront_ofFront first rest
  generalize ofFront first rest = lexeme at isKeyword spellsFront
  generalize first :: rest = input at spellsFront
  obtain ⟨span, after, _, spells⟩ := spellsFront
  cases kind : lexeme.kind with
  | keyword word =>
      rw [kind] at spells
      rw [spells.1, Bytes.lower_lower]
  | _ =>
      rw [kind] at isKeyword
      cases isKeyword

theorem plain_quoted (quote : UInt8) (afterQuote : Bytes) (offset : Nat) :
    (quoted quote afterQuote).kind.isKeyword = false ∧
      ((quoted quote afterQuote).toToken offset).isPlaceholder = false := by
  simp only [Token.isPlaceholder, toToken, quoted]
  split
  · split <;> exact ⟨rfl, rfl⟩
  · exact ⟨rfl, rfl⟩

variable {first other : UInt8} {rest behind : Bytes}

theorem sameButCase_quoted (isQuote : Byte.isQuote first = true)
    (sameRest : Bytes.lower rest = Bytes.lower behind) :
    (quoted first rest).width = (quoted first behind).width ∧
      ∀ offset, ((quoted first rest).toToken offset).SameButCase true
        ((quoted first behind).toToken offset) := by
  have left := QuotedText.sameShape_read_lower isQuote rest
  have right := QuotedText.sameShape_read_lower isQuote behind
  rw [← sameRest] at right
  have sameClosed := left.closed_eq.symm.trans right.closed_eq
  have sameKind : (quoted first rest).kind = (quoted first behind).kind := by
    simp only [quoted, sameClosed]
  refine ⟨congrArg (· + 1) (left.width_eq.symm.trans right.width_eq), ?_⟩
  intro offset
  obtain ⟨notKeyword, notPlaceholder⟩ := plain_quoted first rest offset
  obtain ⟨_, otherNotPlaceholder⟩ := plain_quoted first behind offset
  exact {
    kind_eq := sameKind
    offset_eq := rfl
    length_eq := left.length_eq.symm.trans right.length_eq
    isPlaceholder_eq := notPlaceholder.trans otherNotPlaceholder.symm
    keyword_eq := fun isKeyword => by
      rw [toToken, notKeyword] at isKeyword
      cases isKeyword
    lower_eq := fun unquoted => absurd unquoted Bool.noConfusion }

theorem sameButCase_unquoted (notQuote : Byte.isQuote first = false)
    (sameFirst : Byte.lower first = Byte.lower other)
    (sameRest : Bytes.lower rest = Bytes.lower behind) :
    (ofFront first rest).width = (ofFront other behind).width ∧
      ∀ offset, ((ofFront first rest).toToken offset).SameButCase false
        ((ofFront other behind).toToken offset) := by
  have otherNotQuote : Byte.isQuote other = false := by
    rw [← Byte.isQuote_caseBlind, ← sameFirst, Byte.isQuote_caseBlind, notQuote]
  have sameLower : (ofFront first rest).lower = (ofFront other behind).lower := by
    rw [← ofFront_lower notQuote, ← ofFront_lower otherNotQuote, sameFirst, sameRest]
  simp only [lower, mk.injEq] at sameLower
  obtain ⟨sameKind, sameValue, sameWidth⟩ := sameLower
  refine ⟨sameWidth, ?_⟩
  intro offset
  exact {
    kind_eq := sameKind
    offset_eq := rfl
    length_eq := by
      rw [← Bytes.length_lower, toToken, sameValue, Bytes.length_lower]
      rfl
    isPlaceholder_eq := by
      simp only [Token.isPlaceholder, toToken]
      rw [sameKind, ← beq_placeholder_lower, sameValue, beq_placeholder_lower]
    keyword_eq := fun isKeyword => by
      have otherIsKeyword : (ofFront other behind).kind.isKeyword = true := sameKind ▸ isKeyword
      have lowered := lower_value_of_isKeyword isKeyword
      rw [sameValue, lower_value_of_isKeyword otherIsKeyword] at lowered
      exact lowered.symm
    lower_eq := fun _ => sameValue }

/-- Whatever comes first, the lexeme there keeps its kind and its width. -/
theorem sameButCase_ofFront (sameFirst : Byte.lower first = Byte.lower other)
    (sameRest : Bytes.lower rest = Bytes.lower behind) :
    (ofFront first rest).width = (ofFront other behind).width ∧
      ∀ offset, ((ofFront first rest).toToken offset).SameButCase (Byte.isQuote first)
        ((ofFront other behind).toToken offset) := by
  cases isQuote : Byte.isQuote first with
  | false => exact sameButCase_unquoted isQuote sameFirst sameRest
  | true =>
      have caseless := Byte.isCaseless_of_isQuote isQuote
      obtain rfl : other = first := by
        apply eq_of_beq
        rw [← Byte.beq_lower caseless, ← sameFirst, Byte.beq_lower caseless, BEq.rfl]
      rw [ofFront_of_isQuote isQuote, ofFront_of_isQuote isQuote]
      exact sameButCase_quoted isQuote sameRest

end Lexeme

/-! ## The stream of a text -/

theorem Bytes.length_eq_of_lower {left right : Bytes}
    (same : Bytes.lower left = Bytes.lower right) : left.length = right.length := by
  rw [← length_lower, same, length_lower]

theorem Bytes.exists_append_of_lower {before behind text : Bytes}
    (same : Bytes.lower (before ++ behind) = Bytes.lower text) :
    ∃ otherBefore otherBehind, text = otherBefore ++ otherBehind ∧
      Bytes.lower before = Bytes.lower otherBefore ∧
      Bytes.lower behind = Bytes.lower otherBehind := by
  rw [Bytes.lower_append] at same
  obtain ⟨otherBefore, otherBehind, split, sameBefore, sameBehind⟩ :=
    List.map_eq_append_iff.mp same.symm
  exact ⟨otherBefore, otherBehind, split, sameBefore.symm, sameBehind.symm⟩

/-- A text with the same lower-case form has a lexeme in the same place. -/
theorem Lexeme.Reads.sameButCase {lexeme : Lexeme} {span rest otherSpan otherRest : Bytes}
    (reads : lexeme.Reads span rest) (sameSpan : Bytes.lower span = Bytes.lower otherSpan)
    (sameRest : Bytes.lower rest = Bytes.lower otherRest) :
    ∃ other, Lexeme.Reads other otherSpan otherRest ∧
      ∀ offset, (lexeme.toToken offset).SameButCase (span.head?.any Byte.isQuote)
        (other.toToken offset) := by
  cases reads with
  | @front first tail _ notBlank exactly =>
      cases otherSpan with
      | nil => cases sameSpan
      | cons other otherTail =>
          obtain ⟨sameFirst, sameTail⟩ := List.cons.inj sameSpan
          have sameText : Bytes.lower (tail ++ rest) = Bytes.lower (otherTail ++ otherRest) := by
            rw [Bytes.lower_append, Bytes.lower_append, sameRest]
            exact congrArg (· ++ Bytes.lower otherRest) sameTail
          have otherNotBlank : Byte.isBlank other = false := by
            rw [← Byte.isBlank_caseBlind, ← sameFirst, Byte.isBlank_caseBlind, notBlank]
          obtain ⟨sameWidth, sameToken⟩ := sameButCase_ofFront sameFirst sameText
          have otherExactly : (ofFront other (otherTail ++ otherRest)).width =
              otherTail.length + 1 := by
            rw [← sameWidth, exactly, Bytes.length_eq_of_lower sameTail]
          exact ⟨_, .front otherNotBlank otherExactly, sameToken⟩

theorem Lexeme.Reads.isQuotedIn {lexeme : Lexeme} {span rest : Bytes}
    (reads : lexeme.Reads span rest) (gap : Bytes) :
    (lexeme.toToken gap.length).isQuotedIn (gap ++ (span ++ rest)) =
      span.head?.any Byte.isQuote := by
  simp only [Token.isQuotedIn, toToken, reads.getElem?_front gap]

/-- The entries hold the same tokens of the input, up to the case of letters,
and end in the same places. -/
structure Entry.SameButCase (input : Bytes) (left right : Entry) : Prop where
  token : left.token.SameButCase (left.token.isQuotedIn input) right.token
  stop_eq : left.stop = right.stop

theorem Entry.SameButCase.shift {input : Bytes} {left right : Entry}
    (same : left.SameButCase input right) (before : Bytes) :
    (left.shift before.length).SameButCase (before ++ input) (right.shift before.length) := by
  have sameQuote : (left.shift before.length).token.isQuotedIn (before ++ input) =
      left.token.isQuotedIn input := by
    simp only [Token.isQuotedIn, Entry.shift]
    rw [List.getElem?_append_right (Nat.le_add_left _ _), Nat.add_sub_cancel]
  refine ⟨?_, congrArg (· + before.length) same.stop_eq⟩
  rw [sameQuote]
  exact { same.token with offset_eq := congrArg (· + before.length) same.token.offset_eq }

theorem AllBlank.of_lower {gap other : Bytes} (blank : AllBlank gap)
    (same : Bytes.lower gap = Bytes.lower other) : AllBlank other := by
  intro byte member
  have inLower : Byte.lower byte ∈ Bytes.lower gap := by
    rw [same]
    exact List.mem_map_of_mem member
  obtain ⟨twin, twinMember, twinLower⟩ := List.mem_map.mp inLower
  rw [← Byte.isBlank_caseBlind, ← twinLower, Byte.isBlank_caseBlind]
  exact blank twin twinMember

/-- Texts with one lower-case form have the same entries, up to the case of letters. -/
theorem TokenStream.sameButCase_ofBytes (first : Bytes) {second : Bytes}
    (same : Bytes.lower first = Bytes.lower second) :
    List.Forall₂ (Entry.SameButCase first) (ofBytes first).entries (ofBytes second).entries := by
  induction first using front_induction generalizing second with
  | blank input allBlank =>
      have sameLength : input.length = second.length := by
        rw [← Bytes.length_lower, same, Bytes.length_lower]
      rw [ofBytes_of_allBlank allBlank, ofBytes_of_allBlank (allBlank.of_lower same), ← sameLength]
      refine .cons ⟨?_, rfl⟩ .nil
      exact ⟨rfl, rfl, rfl, rfl, fun _ => rfl, fun _ => rfl⟩
  | front gap span rest lexeme gapBlank reads ih =>
      obtain ⟨otherGap, behindGap, rfl, sameGap, sameBehind⟩ := Bytes.exists_append_of_lower same
      obtain ⟨otherSpan, otherRest, rfl, sameSpan, sameRest⟩ :=
        Bytes.exists_append_of_lower sameBehind
      obtain ⟨otherLexeme, otherReads, sameLexeme⟩ := reads.sameButCase sameSpan sameRest
      have gapLength := Bytes.length_eq_of_lower sameGap
      have spanLength := Bytes.length_eq_of_lower sameSpan
      rw [ofBytes_of_reads gapBlank reads,
        ofBytes_of_reads (gapBlank.of_lower sameGap) otherReads, ← gapLength, ← spanLength,
        entries_push, entries_push, entries_shift, entries_shift]
      refine .cons ⟨?_, rfl⟩ ?_
      · rw [reads.isQuotedIn gap]
        exact sameLexeme gap.length
      · rw [List.forall₂_map_left_iff, List.forall₂_map_right_iff]
        refine (ih sameRest).imp fun left right same => ?_
        have shifted := same.shift (gap ++ span)
        rw [List.length_append, List.append_assoc] at shifted
        exact shifted

theorem Entry.SameButCase.countP_isPlaceholder {input : Bytes} {left right : List Entry}
    (same : List.Forall₂ (Entry.SameButCase input) left right) :
    left.countP (·.token.isPlaceholder) = right.countP (·.token.isPlaceholder) := by
  induction same with
  | nil => rfl
  | cons head _ ih => rw [List.countP_cons, List.countP_cons, head.token.isPlaceholder_eq, ih]

theorem Lexer.placeholders_tokenize_entries (input : Bytes) (config : Config) :
    (start input config).tokenize.lexer.placeholders =
      (TokenStream.ofBytes input).entries.countP (·.token.isPlaceholder) := by
  rw [placeholders_tokenize, TokenStream.entries, List.countP_append]
  simp [Token.isPlaceholder, TokenStream.kind_final]

/-- Texts with one lower-case form, which are equally long, are tokenized alike
under the same settings: each token has its counterpart of the same kind in the
same place, with the same text up to the case of letters. -/
theorem tokenize_sameButCase (first second : Bytes) (config : Config)
    (same : Bytes.lower first = Bytes.lower second) :
    let left := (Lexer.start first config).tokenize
    let right := (Lexer.start second config).tokenize
    List.Forall₂ (fun token other => token.SameButCase (token.isQuotedIn first) other)
        left.answer right.answer ∧
      left.lexer.position = right.lexer.position ∧
      left.lexer.placeholders = right.lexer.placeholders := by
  intro left right
  have entries := TokenStream.sameButCase_ofBytes first same
  have advances : ∀ input, (Lexer.start input config).Advances input :=
    fun input => ⟨Lexer.standsIn_start input config, rfl⟩
  refine ⟨?_, ?_, ?_⟩
  · let isVisible := fun entry : Entry =>
      !(entry.token.kind.isSkippable && !config.allowComments)
    have visibleAlike : ∀ ⦃entry other : Entry⦄, entry.SameButCase first other →
        (isVisible entry = true ↔ isVisible other = true) := by
      intro entry other alike
      simp only [isVisible, alike.token.kind_eq]
    have visible := List.rel_filter visibleAlike entries
    simp only [left, right]
    rw [Lexer.answer_tokenize, Lexer.answer_tokenize, List.forall₂_map_left_iff,
      List.forall₂_map_right_iff]
    exact visible.imp fun _ _ alike => alike.token
  · simp only [left, right]
    rw [(advances first).tokenize.2.2, (advances second).tokenize.2.2,
      Bytes.length_eq_of_lower same]
  · simp only [left, right]
    rw [Lexer.placeholders_tokenize_entries, Lexer.placeholders_tokenize_entries,
      Entry.SameButCase.countP_isPlaceholder entries]

/-- Numbers, a bind variable and an escape that means something in one case only. -/
theorem tokenize_sameButCase_escape :
    let first := ascii ":A 0XfF 1e5 '\\N' /* B"
    let second := ascii ":a 0xFf 1E5 '\\n' /* b"
    first ≠ second ∧ Bytes.lower first = Bytes.lower second ∧
      List.Forall₂ (fun token other => token.SameButCase (token.isQuotedIn first) other)
        (Lexer.start first .default).tokenize.answer
        (Lexer.start second .default).tokenize.answer := by
  intro first second
  have different : first ≠ second := by decide
  have same : Bytes.lower first = Bytes.lower second := by decide
  exact ⟨different, same, (tokenize_sameButCase first second .default same).1⟩

end SqlLexer
