import Mathlib.Data.List.Forall2
import SqlLexer.Proofs.Literal
import SqlLexer.Proofs.SpanBytes

/-!
# Writing all strings anew

Every string of a text may be replaced by the literal for its value, of whatever
style it was and however it was spelled, and the tokens stay the same but for
their places.  Each literal ends where its string did, and the token before it
cannot tell the opening quotes apart.  Only a string with a quote right behind it
is excepted: where the two styles met, the literals would run into one.
-/

namespace SqlLexer

open TokenStream

namespace Literal

/-- What is written for a token that stands in the input as its span. -/
def respell (token : Token) (span : Bytes) : Bytes :=
  if token.kind == .string then encode token.value else span

/-- The input from a place on, with a literal in place of the span of each string
among the entries. -/
def rewriteFrom (input : Bytes) (start : Nat) : List Entry → Bytes
  | [] => input.drop start
  | entry :: entries =>
    input.extract start entry.token.offset ++
      (respell entry.token (input.extract entry.token.offset entry.stop) ++
        rewriteFrom input entry.stop entries)

/-- The input with all of its strings written as literals in single quotes. -/
def rewrite (input : Bytes) : Bytes :=
  rewriteFrom input 0 (ofBytes input).proper

theorem respell_of_isString {token : Token} (isString : token.kind = .string) (span : Bytes) :
    respell token span = encode token.value := by
  rw [respell, if_pos (beq_iff_eq.mpr isString)]

theorem respell_of_not_isString {token : Token} (notString : token.kind ≠ .string)
    (span : Bytes) : respell token span = span := by
  rw [respell, if_neg (by simpa using notString)]

theorem respell_respell (token other : Token) (sameKind : other.kind = token.kind)
    (sameValue : other.value = token.value) (span : Bytes) :
    respell other (respell token span) = respell token span := by
  by_cases isString : token.kind = .string
  · rw [respell_of_isString isString, respell_of_isString (sameKind.trans isString), sameValue]
  · have otherNotString : other.kind ≠ .string := by
      rw [sameKind]
      exact isString
    rw [respell_of_not_isString otherNotString]

theorem extract_shift (lead input : Bytes) (start stop : Nat) :
    (lead ++ input).extract (start + lead.length) (stop + lead.length) =
      input.extract start stop := by
  rw [List.extract_eq_take_drop, List.extract_eq_take_drop, Nat.add_sub_add_right,
    Nat.add_comm start, List.drop_length_add_append]

theorem rewriteFrom_shift (lead input : Bytes) (start : Nat) (entries : List Entry) :
    rewriteFrom (lead ++ input) (start + lead.length) (entries.map (·.shift lead.length)) =
      rewriteFrom input start entries := by
  induction entries generalizing start with
  | nil => rw [List.map_nil, rewriteFrom, rewriteFrom, Nat.add_comm, List.drop_length_add_append]
  | cons entry entries ih =>
      rw [List.map_cons, rewriteFrom, rewriteFrom, ← ih entry.stop]
      simp only [Entry.shift, extract_shift]
      rfl

theorem rewrite_of_allBlank {input : Bytes} (blank : AllBlank input) : rewrite input = input := by
  rw [rewrite, ofBytes_of_allBlank blank]
  rfl

theorem rewrite_of_reads {gap span rest : Bytes} {lexeme : Lexeme} (blank : AllBlank gap)
    (reads : lexeme.Reads span rest) :
    rewrite (gap ++ (span ++ rest)) =
      gap ++ (respell (lexeme.toToken gap.length) span ++ rewrite rest) := by
  have behind := rewriteFrom_shift (gap ++ span) rest 0 (ofBytes rest).proper
  rw [Nat.zero_add, List.length_append, List.append_assoc] at behind
  have inFront : (gap ++ (span ++ rest)).extract 0 gap.length = gap := by
    rw [List.extract_eq_take_drop, List.drop_zero, Nat.sub_zero, List.take_left]
  rw [rewrite, ofBytes_of_reads blank reads, push, rewriteFrom, rewrite, ← behind]
  congr 1
  congr 1
  exact congrArg _ (extract_append gap span rest)

end Literal

def Byte.opensString (byte : UInt8) : Bool :=
  byte == singleQuote || byte == doubleQuote

/-- No string has a byte right behind it that opens a string. -/
def StringsApart (input : Bytes) : Prop :=
  ∀ entry ∈ (ofBytes input).proper, entry.token.kind = .string →
    ¬input[entry.stop]?.any Byte.opensString = true
  deriving Decidable

namespace StringsApart

variable {gap span rest : Bytes} {lexeme : Lexeme}

theorem front (apart : StringsApart (gap ++ (span ++ rest))) (blank : AllBlank gap)
    (reads : lexeme.Reads span rest) (isString : lexeme.kind = .string) :
    ¬rest.head?.any Byte.opensString = true := by
  have here := apart { token := lexeme.toToken gap.length, stop := gap.length + span.length } (by
    rw [ofBytes_of_reads blank reads]
    exact List.mem_cons_self) isString
  rw [← List.append_assoc, ← List.length_append, List.getElem?_append_right (Nat.le_refl _),
    Nat.sub_self, ← List.head?_eq_getElem?] at here
  exact here

theorem behind (apart : StringsApart (gap ++ (span ++ rest))) (blank : AllBlank gap)
    (reads : lexeme.Reads span rest) : StringsApart rest := by
  intro entry member isString
  have later := apart (entry.shift (gap.length + span.length)) (by
    rw [ofBytes_of_reads blank reads]
    exact List.mem_cons_of_mem _ (List.mem_map_of_mem member)) isString
  rw [Entry.shift, ← List.append_assoc, ← List.length_append,
    List.getElem?_append_right (Nat.le_add_left _ _), Nat.add_sub_cancel] at later
  exact later

end StringsApart

/-! ## The text around a literal -/

namespace Lexeme.Reads

variable {lexeme : Lexeme} {span rest : Bytes}

theorem opensString_of_isString (reads : lexeme.Reads span rest)
    (isString : lexeme.kind = .string) : span.head?.any Byte.opensString = true := by
  have spells := reads.spells
  rw [isString] at spells
  rcases spells with ⟨body, rfl, _⟩ | ⟨body, rfl, _⟩ <;> rfl

theorem kind_of_singleQuote (reads : lexeme.Reads span rest)
    (isQuote : span.head? = some Byte.singleQuote) :
    lexeme.kind = .string ∨ lexeme.kind = .invalid := by
  cases reads with
  | @front first tail _ _ _ =>
      obtain rfl : first = Byte.singleQuote := Option.some.inj isQuote
      rw [ofFront_of_isQuote (by decide), quoted]
      dsimp only
      split
      · exact .inl rfl
      · exact .inr rfl

/-- Before a byte that opens a string, any other lexeme reads the same as before
a single quote. -/
theorem beforeSingleQuote {next : UInt8} {others : Bytes}
    (reads : lexeme.Reads span (next :: others)) (notString : lexeme.kind ≠ .string)
    (behind : Bytes) : lexeme.Reads span (Byte.singleQuote :: behind) := by
  have closed : ¬(lexeme.kind = .invalid ∧ span.head?.any Byte.opensText = true) :=
    fun cutOff => List.cons_ne_nil _ _ (reads.rest_eq_nil_of_cutOff cutOff)
  have complete : (lexeme.toToken 0).isOpenLine = false :=
    Bool.eq_false_iff.mpr fun isOpen => List.cons_ne_nil _ _ (reads.rest_eq_nil_of_openLine isOpen)
  refine reads.cut.beforeStop closed complete (by decide) ?_ behind
  rintro first isFirst ⟨rfl, _⟩
  rcases reads.kind_of_singleQuote isFirst with isString | invalid
  · exact notString isString
  · exact closed ⟨invalid, by rw [isFirst]; rfl⟩

end Lexeme.Reads

namespace Literal

theorem head?_rewrite (input : Bytes) :
    (rewrite input).head? = input.head? ∨
      input.head?.any Byte.opensString = true ∧
        (rewrite input).head? = some Byte.singleQuote := by
  rcases allBlank_or_reads input with blank | ⟨gap, span, rest, lexeme, rfl, blank, reads⟩
  · rw [rewrite_of_allBlank blank]
    exact .inl rfl
  rw [rewrite_of_reads blank reads]
  cases gap with
  | cons byte gap => exact .inl rfl
  | nil =>
      obtain ⟨first, tail, rfl⟩ := List.exists_cons_of_ne_nil reads.span_ne_nil
      by_cases isString : lexeme.kind = .string
      · refine .inr ⟨reads.opensString_of_isString isString, ?_⟩
        rw [respell_of_isString isString]
        rfl
      · rw [respell_of_not_isString isString]
        exact .inl rfl

end Literal

/-- A lexeme keeps its kind and its text where all strings are written anew. -/
theorem Lexeme.Reads.respelled {lexeme : Lexeme} {span rest : Bytes}
    (reads : lexeme.Reads span rest)
    (apart : lexeme.kind = .string → ¬rest.head?.any Byte.opensString = true) (offset : Nat) :
    ∃ other : Lexeme, other.kind = lexeme.kind ∧ other.value = lexeme.value ∧
      other.Reads (Literal.respell (lexeme.toToken offset) span) (Literal.rewrite rest) := by
  by_cases isString : lexeme.kind = .string
  · have single : (Literal.rewrite rest).head? ≠ some Byte.singleQuote := by
      rcases Literal.head?_rewrite rest with same | ⟨opens, _⟩
      · intro isQuote
        rw [← same, isQuote] at apart
        exact apart isString rfl
      · exact absurd opens (apart isString)
    rw [Literal.respell_of_isString isString]
    let written : Lexeme :=
      { kind := .string, value := lexeme.value, width := (Literal.encode lexeme.value).length }
    exact ⟨written, isString.symm, rfl, Literal.reads_encode lexeme.value single⟩
  · rw [Literal.respell_of_not_isString isString]
    refine ⟨lexeme, rfl, rfl, ?_⟩
    rcases Literal.head?_rewrite rest with same | ⟨opens, isQuote⟩
    · exact reads.of_head?_eq same
    · obtain ⟨behind, rewritten⟩ := List.head?_eq_some_iff.mp isQuote
      rw [rewritten]
      cases rest with
      | nil => cases opens
      | cons next others => exact reads.beforeSingleQuote isString behind

/-! ## The streams -/

/-- By how many bytes an entry grows where strings are written anew. -/
def Entry.growth (entry : Entry) : Int :=
  if entry.token.kind == .string then
    (Literal.encode entry.token.value).length - ((entry.stop : Int) - entry.token.offset)
  else 0

/-- By how many bytes the entries grow that end before a place, or at it. -/
def TokenStream.growthBefore (stream : TokenStream) (place : Nat) : Int :=
  (stream.proper.filter fun entry => entry.stop ≤ place).foldr
    (fun entry total => entry.growth + total) 0

structure Token.MovedBy (distance : Int) (token moved : Token) : Prop where
  kind_eq : moved.kind = token.kind
  value_eq : moved.value = token.value
  offset_eq : (moved.offset : Int) = token.offset + distance

theorem Entry.growth_shift (entry : Entry) (distance : Nat) :
    (entry.shift distance).growth = entry.growth := by
  simp only [growth, shift]
  congr 1
  omega

theorem Entry.growth_of_span (token : Token) (span : Bytes) :
    growth { token, stop := token.offset + span.length } =
      (Literal.respell token span).length - (span.length : Int) := by
  by_cases isString : token.kind = .string
  · rw [Literal.respell_of_isString isString, growth, if_pos (beq_iff_eq.mpr isString)]
    simp only
    omega
  · rw [Literal.respell_of_not_isString isString, growth, if_neg (by simpa using isString)]
    omega

namespace TokenStream

theorem growthBefore_push_shift_of_lt (stream : TokenStream) (token : Token)
    {distance place : Nat} (inFront : place < distance) :
    ((stream.shift distance).push { token, stop := distance }).growthBefore place = 0 := by
  have none : ((stream.shift distance).push { token, stop := distance }).proper.filter
      (fun entry => entry.stop ≤ place) = [] := by
    rw [List.filter_eq_nil_iff]
    intro entry member
    rw [decide_eq_true_eq, Nat.not_le]
    rcases List.mem_cons.mp member with rfl | later
    · exact inFront
    · obtain ⟨inner, _, rfl⟩ := List.mem_map.mp later
      exact Nat.lt_of_lt_of_le inFront (Nat.le_add_left distance inner.stop)
  rw [growthBefore, none]
  rfl

theorem growthBefore_push_shift (stream : TokenStream) (token : Token) (distance place : Nat) :
    ((stream.shift distance).push { token, stop := distance }).growthBefore (place + distance) =
      Entry.growth { token, stop := distance } + stream.growthBefore place := by
  have sameFilter : (fun entry : Entry => decide (entry.stop ≤ place + distance)) ∘
      (Entry.shift · distance) = fun entry => decide (entry.stop ≤ place) := by
    funext entry
    simp [Entry.shift]
  have ends : decide (distance ≤ place + distance) = true :=
    decide_eq_true (Nat.le_add_left distance place)
  simp only [growthBefore, push, shift, List.filter_cons, ends, if_true, List.foldr_cons,
    List.filter_map, List.foldr_map, sameFilter, Entry.growth_shift]

/-- Where all strings are written anew, every token is found again, moved by as much
as the text grows before it. -/
theorem movedBy_rewrite {input : Bytes} (apart : StringsApart input) :
    List.Forall₂
      (fun entry moved =>
        entry.token.MovedBy ((ofBytes input).growthBefore entry.token.offset) moved.token)
      (ofBytes input).entries (ofBytes (Literal.rewrite input)).entries := by
  induction input using front_induction with
  | blank input blank =>
      rw [Literal.rewrite_of_allBlank blank, ofBytes_of_allBlank blank]
      refine .cons ⟨rfl, rfl, ?_⟩ .nil
      rfl
  | front gap span rest lexeme blank reads ih =>
      obtain ⟨other, sameKind, sameValue, otherReads⟩ :=
        reads.respelled (apart.front blank reads) gap.length
      have growth := Entry.growth_of_span (lexeme.toToken gap.length) span
      rw [Literal.rewrite_of_reads blank reads, ofBytes_of_reads blank reads,
        ofBytes_of_reads blank otherReads, entries_push, entries_push, entries_shift, entries_shift]
      refine .cons ⟨sameKind, sameValue, ?_⟩ ?_
      · have inFront : gap.length < gap.length + span.length :=
          Nat.lt_add_of_pos_right (List.length_pos_iff.mpr reads.span_ne_nil)
        have none :=
          growthBefore_push_shift_of_lt (ofBytes rest) (lexeme.toToken gap.length) inFront
        simp only [Lexeme.toToken] at none ⊢
        rw [none]
        rfl
      · rw [List.forall₂_map_left_iff, List.forall₂_map_right_iff]
        refine (ih (apart.behind blank reads)).imp fun entry moved same => ?_
        refine ⟨same.kind_eq, same.value_eq, ?_⟩
        have offset := same.offset_eq
        simp only [Entry.shift, growthBefore_push_shift, Lexeme.toToken] at growth ⊢
        rw [growth]
        omega

end TokenStream

theorem Literal.rewrite_rewrite {input : Bytes} (apart : StringsApart input) :
    rewrite (rewrite input) = rewrite input := by
  induction input using front_induction with
  | blank input blank => rw [rewrite_of_allBlank blank, rewrite_of_allBlank blank]
  | front gap span rest lexeme blank reads ih =>
      obtain ⟨other, sameKind, sameValue, otherReads⟩ :=
        reads.respelled (apart.front blank reads) gap.length
      have sameAgain := respell_respell (lexeme.toToken gap.length) (other.toToken gap.length)
        sameKind sameValue span
      rw [rewrite_of_reads blank reads, rewrite_of_reads blank otherReads, sameAgain,
        ih (apart.behind blank reads)]

/-- Where two streams are related entry by entry, so are the tokens of their texts,
since the kind alone decides whether a token is shown. -/
theorem Lexer.forall₂_tokenize {first second : Bytes} {related : Token → Token → Prop}
    (sameKind : ∀ ⦃token other : Token⦄, related token other → token.kind = other.kind)
    (entries : List.Forall₂ (fun entry other => related entry.token other.token)
      (ofBytes first).entries (ofBytes second).entries)
    (config : Config) :
    List.Forall₂ related (start first config).tokenize.answer
      (start second config).tokenize.answer := by
  let isShown := fun entry : Entry => !(entry.token.kind.isSkippable && !config.allowComments)
  have shownAlike : ∀ ⦃entry other : Entry⦄, related entry.token other.token →
      (isShown entry = true ↔ isShown other = true) := by
    intro entry other alike
    simp only [isShown, sameKind alike]
  rw [answer_tokenize, answer_tokenize, List.forall₂_map_left_iff, List.forall₂_map_right_iff]
  exact List.rel_filter shownAlike entries

/-- Where no string has a quote of a string right behind it, all strings may be
written anew as literals in single quotes.  Under all settings the tokens have the
same kinds and texts in the same order, each moved by as much as the strings before
it have grown, and nothing is left to be written anew. -/
theorem tokenize_rewrite (input : Bytes) (apart : StringsApart input) :
    (∀ config, List.Forall₂
      (fun token moved => token.MovedBy ((ofBytes input).growthBefore token.offset) moved)
      (Lexer.start input config).tokenize.answer
      (Lexer.start (Literal.rewrite input) config).tokenize.answer) ∧
    Literal.rewrite (Literal.rewrite input) = Literal.rewrite input := by
  refine ⟨?_, Literal.rewrite_rewrite apart⟩
  intro config
  exact Lexer.forall₂_tokenize (fun _ _ same => same.kind_eq.symm) (movedBy_rewrite apart) config

/-- A string that grows by its quotes and its line feed, one that loses two escapes,
and one that begins right behind an identifier. -/
theorem tokenize_rewrite_both_styles :
    let input := ascii "\"it''s \"\"x\n\"/*'*/,'\\q\\%''' `\"`\"z\""
    let rewritten := ascii "'it\\'\\'s \\\"x\\n'/*'*/,'q%\\'' `\"`'z'"
    StringsApart input ∧ Literal.rewrite input = rewritten ∧
      Literal.rewrite rewritten = rewritten ∧
      (ofBytes input).growthBefore 17 = 3 ∧ (ofBytes input).growthBefore 27 = 1 ∧
      List.Forall₂
        (fun token moved => token.MovedBy ((ofBytes input).growthBefore token.offset) moved)
        (Lexer.start input .default).tokenize.answer
        (Lexer.start rewritten .default).tokenize.answer := by
  intro input rewritten
  have apart : StringsApart input := by decide +kernel
  have written : Literal.rewrite input = rewritten := by decide +kernel
  obtain ⟨moved, again⟩ := tokenize_rewrite input apart
  rw [written] at moved again
  exact ⟨apart, written, again, by decide +kernel, by decide +kernel, moved .default⟩

end SqlLexer
