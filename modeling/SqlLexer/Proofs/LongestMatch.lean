import Mathlib.Computability.Language
import Mathlib.Order.CompletePartialOrder
import SqlLexer.Proofs.Spelling

/-!
# The longest match of a grammar

A grammar is a language over bytes, built from single bytes by union,
concatenation and repetition.  Its longest match at the front of an input is the
longest of the first bytes that are a word of it.  Readers that take a run of
bytes, something behind a mark, or one such thing after the other find the
longest match of the language that is put together in the same way, as long as
no byte of the first part can begin the second one.
-/

namespace SqlLexer

open scoped Computability

namespace Grammar

/-- One byte of a class. -/
def oneOf (inClass : UInt8 → Bool) : Language UInt8 :=
  {word | ∃ byte, word = [byte] ∧ inClass byte = true}

/-- One byte of an interval. -/
def range (first last : UInt8) : Language UInt8 :=
  {word | ∃ byte, word = [byte] ∧ first ≤ byte ∧ byte ≤ last}

/-- One particular byte. -/
def only (byte : UInt8) : Language UInt8 :=
  {[byte]}

variable {inClass other : UInt8 → Bool} {word : Bytes}

theorem mem_oneOf : word ∈ oneOf inClass ↔ ∃ byte, word = [byte] ∧ inClass byte = true :=
  Iff.rfl

theorem only_eq_oneOf (byte : UInt8) : only byte = oneOf (· == byte) := by
  ext word
  rw [mem_oneOf]
  constructor
  · rintro rfl
    exact ⟨byte, rfl, beq_self_eq_true byte⟩
  · rintro ⟨_, rfl, same⟩
    rw [eq_of_beq same]
    rfl

theorem range_eq_oneOf (first last : UInt8) :
    range first last = oneOf (Byte.isBetween first last) := by
  ext word
  simp only [mem_oneOf, Byte.isBetween, Bool.and_eq_true, decide_eq_true_eq]
  rfl

theorem oneOf_add_oneOf (inClass other : UInt8 → Bool) :
    oneOf inClass + oneOf other = oneOf fun byte => inClass byte || other byte := by
  ext word
  simp only [Language.mem_add, mem_oneOf, Bool.or_eq_true, and_or_left, exists_or]

theorem only_add_only (first second : UInt8) :
    only first + only second = oneOf fun byte => byte == first || byte == second := by
  rw [only_eq_oneOf, only_eq_oneOf, oneOf_add_oneOf]

theorem oneOf_mono (weaker : ∀ byte, inClass byte = true → other byte = true) :
    oneOf inClass ≤ oneOf other := by
  rintro _ ⟨byte, rfl, inside⟩
  exact ⟨byte, rfl, weaker byte inside⟩

theorem mem_kstar_oneOf : word ∈ (oneOf inClass)∗ ↔ ∀ byte ∈ word, inClass byte = true := by
  rw [Language.mem_kstar]
  constructor
  · rintro ⟨parts, rfl, single⟩ byte member
    obtain ⟨part, listed, within⟩ := List.mem_flatten.mp member
    obtain ⟨_, rfl, inside⟩ := single part listed
    rw [List.mem_singleton.mp within]
    exact inside
  · intro inside
    refine ⟨word.map ([·]), (List.flatMap_singleton' word).symm, ?_⟩
    intro part listed
    obtain ⟨byte, member, rfl⟩ := List.mem_map.mp listed
    exact ⟨byte, rfl, inside byte member⟩

theorem not_any_head?_of_mem_kstar (apart : ∀ byte, inClass byte = true → ¬other byte = true)
    (member : word ∈ (oneOf inClass)∗) : ¬word.head?.any other = true := by
  cases word with
  | nil => exact Bool.false_ne_true
  | cons byte rest => exact apart byte (mem_kstar_oneOf.mp member byte List.mem_cons_self)

theorem not_any_head?_of_mem_headed {behind : Language UInt8}
    (apart : ∀ byte, inClass byte = true → ¬other byte = true)
    (member : word ∈ 1 + oneOf inClass * behind) : ¬word.head?.any other = true := by
  rcases member with isEmpty | headed
  · rw [(Language.mem_one word).mp isEmpty]
    exact Bool.false_ne_true
  · obtain ⟨_, ⟨byte, rfl, inside⟩, rest, _, rfl⟩ := Language.mem_mul.mp headed
    exact apart byte inside

end Grammar

open Grammar

/-- No longer part of the input, from its first byte on, is a word of the grammar. -/
structure IsLongest (grammar : Language UInt8) (input word : Bytes) : Prop where
  mem : word ∈ grammar
  isPrefix : word <+: input
  longest : ∀ other ∈ grammar, other <+: input → other.length ≤ word.length

namespace IsLongest

variable {grammar : Language UInt8} {input word : Bytes}

theorem one (input : Bytes) : IsLongest 1 input [] where
  mem := Language.nil_mem_one
  isPrefix := List.nil_prefix
  longest other isEmpty _ := by
    rw [(Language.mem_one other).mp isEmpty]

theorem run (inClass : UInt8 → Bool) (input : Bytes) :
    IsLongest (oneOf inClass)∗ input (input.takeWhile inClass) where
  mem := mem_kstar_oneOf.mpr fun byte member =>
    List.all_eq_true.mp List.all_takeWhile byte member
  isPrefix := List.takeWhile_prefix inClass
  longest other inGrammar starts := by
    obtain ⟨rest, rfl⟩ := starts
    rw [List.takeWhile_append_of_pos (mem_kstar_oneOf.mp inGrammar), List.length_append]
    exact Nat.le_add_right _ _

theorem cons {inClass : UInt8 → Bool} {first : UInt8} (inside : inClass first = true)
    (behind : IsLongest grammar input word) :
    IsLongest (oneOf inClass * grammar) (first :: input) (first :: word) where
  mem := Language.mem_mul.mpr ⟨[first], ⟨first, rfl, inside⟩, word, behind.mem, rfl⟩
  isPrefix := List.cons_prefix_cons.mpr ⟨rfl, behind.isPrefix⟩
  longest other inGrammar starts := by
    obtain ⟨_, ⟨byte, rfl, _⟩, others, isWord, rfl⟩ := Language.mem_mul.mp inGrammar
    have shorter := behind.longest others isWord (List.cons_prefix_cons.mp starts).2
    exact Nat.succ_le_succ shorter

theorem headed {read tail : Bytes → Bytes} {inClass : UInt8 → Bool}
    (behind : ∀ rest, IsLongest grammar rest (tail rest)) (atEnd : read [] = [])
    (atByte : ∀ byte rest, read (byte :: rest) =
      if inClass byte then byte :: tail rest else []) (input : Bytes) :
    IsLongest (1 + oneOf inClass * grammar) input (read input) := by
  have nothing (noMatch : ∀ other ∈ oneOf inClass * grammar, ¬other <+: input) :
      IsLongest (1 + oneOf inClass * grammar) input [] := by
    refine ⟨.inl Language.nil_mem_one, List.nil_prefix, ?_⟩
    rintro other (isEmpty | inGrammar) starts
    · exact (one input).longest other isEmpty starts
    · exact absurd starts (noMatch other inGrammar)
  cases input with
  | nil =>
      rw [atEnd]
      apply nothing
      intro other inGrammar starts
      obtain ⟨_, ⟨byte, rfl, _⟩, others, _, rfl⟩ := Language.mem_mul.mp inGrammar
      cases List.prefix_nil.mp starts
  | cons first rest =>
      rw [atByte]
      split
      · next inside =>
          have longer := (behind rest).cons inside
          refine ⟨.inr longer.mem, longer.isPrefix, ?_⟩
          rintro other (isEmpty | inGrammar) starts
          · rw [(Language.mem_one other).mp isEmpty]
            exact Nat.zero_le _
          · exact longer.longest other inGrammar starts
      · next outside =>
          apply nothing
          intro other inGrammar starts
          obtain ⟨_, ⟨byte, rfl, inside⟩, others, _, rfl⟩ := Language.mem_mul.mp inGrammar
          rw [(List.cons_prefix_cons.mp starts).1] at inside
          exact outside inside

/-- One reader after the other, the second on what the first leaves.  The words of
the first grammar consist of bytes with which no word of the second one begins. -/
theorem append {behind : Language UInt8} {first second : Bytes → Bytes} (inClass : UInt8 → Bool)
    (inside : grammar ≤ (oneOf inClass)∗)
    (outside : ∀ word ∈ behind, ¬word.head?.any inClass = true)
    (firstLongest : ∀ input, IsLongest grammar input (first input))
    (secondLongest : ∀ input, IsLongest behind input (second input)) (input : Bytes) :
    IsLongest (grammar * behind) input
      (first input ++ second (input.drop (first input).length)) := by
  have here := firstLongest input
  have later := secondLongest (input.drop (first input).length)
  refine ⟨Language.append_mem_mul here.mem later.mem,
    isPrefix_append here.isPrefix later.isPrefix, ?_⟩
  intro other inGrammar starts
  obtain ⟨word, isFirst, tail, isSecond, rfl⟩ := Language.mem_mul.mp inGrammar
  have wordStarts : word <+: input := (List.prefix_append word tail).trans starts
  have notLonger := here.longest word isFirst wordStarts
  obtain ⟨more, whole⟩ : word <+: first input :=
    List.prefix_of_prefix_length_le wordStarts here.isPrefix notLonger
  obtain ⟨rest, split⟩ := here.isPrefix
  have tailStarts : tail <+: more ++ rest := by
    rw [← List.prefix_append_right_inj word, ← List.append_assoc, whole, split]
    exact starts
  cases more with
  | nil =>
      have left : input.drop (first input).length = rest := by
        have dropped := congrArg (List.drop (first input).length) split
        rw [List.drop_left] at dropped
        exact dropped.symm
      rw [List.nil_append, ← left] at tailStarts
      have tailShorter := later.longest tail isSecond tailStarts
      rw [List.append_nil] at whole
      rw [whole, List.length_append, List.length_append]
      omega
  | cons byte more =>
      cases tail with
      | nil =>
          rw [List.append_nil, List.length_append]
          omega
      | cons head tail =>
          obtain ⟨rfl, _⟩ := List.cons_prefix_cons.mp tailStarts
          have isInside : inClass head = true :=
            mem_kstar_oneOf.mp (inside here.mem) head (by rw [← whole]; simp)
          exact absurd isInside (outside _ isSecond)

end IsLongest

end SqlLexer
