import Mathlib.Data.List.TakeWhile
import SqlLexer.Text.Trim

/-!
# The normal form of a text

A text is read without the white space at its ends and in lower case.  Here this is
said without the two sweeps that trimming makes: the text falls into white space, a
core whose ends are no white space, and white space again.  White space around a text
and the case of its letters leave the normal form as it is.
-/

namespace SqlLexer.Text

/-- These characters are all white space. -/
def AllWhite (characters : List Char) : Prop :=
  ∀ char ∈ characters, isWhiteSpace char = true

instance : DecidablePred AllWhite :=
  fun characters => decidable_of_iff (characters.all isWhiteSpace = true) List.all_eq_true

/-- The core of some characters: white space surrounds it, but stands at neither end of it. -/
structure IsCoreOf (core characters : List Char) : Prop where
  surrounded : ∃ before behind,
    characters = before ++ core ++ behind ∧ AllWhite before ∧ AllWhite behind
  front : ∀ char ∈ core.head?, isWhiteSpace char = false
  back : ∀ char ∈ core.getLast?, isWhiteSpace char = false

/-- The normal form of a text is its core in lower case. -/
def IsNormalForm (text form : String) : Prop :=
  ∃ core, IsCoreOf core text.toList ∧ form.toList = core.map Char.toLower

/-- The other text differs by white space around it and by the case of its letters. -/
def Respells (text other : String) : Prop :=
  ∃ before core behind, other.toList = before ++ core ++ behind ∧ AllWhite before ∧
    AllWhite behind ∧ core.map Char.toLower = text.toList.map Char.toLower

variable {before core behind characters : List Char}

theorem Respells.refl (text : String) : Respells text text := by
  have white : AllWhite [] := fun _ member => absurd member List.not_mem_nil
  exact ⟨[], text.toList, [], (List.append_nil _).symm, white, white, rfl⟩

/-! ## Trimming -/

theorem AllWhite.reverse (white : AllWhite characters) : AllWhite characters.reverse :=
  fun char member => white char (List.mem_reverse.mp member)

theorem dropWhile_isWhiteSpace_of_front (front : ∀ char ∈ core.head?, isWhiteSpace char = false) :
    core.dropWhile isWhiteSpace = core := by
  cases core with
  | nil => rfl
  | cons first core =>
      have notWhite : ¬isWhiteSpace first = true := by
        rw [front first rfl]
        exact Bool.false_ne_true
      exact List.dropWhile_cons_of_neg notWhite

theorem trim_append_of_allWhite (white : AllWhite before) (characters : List Char) :
    trim (before ++ characters) = trim characters := by
  rw [trim, trim, List.dropWhile_append_of_pos white]

theorem trim_append_allWhite (characters : List Char) (white : AllWhite behind) :
    trim (characters ++ behind) = trim characters := by
  rw [trim, trim, List.dropWhile_append]
  cases left : characters.dropWhile isWhiteSpace with
  | nil =>
      have none : behind.dropWhile isWhiteSpace = [] := List.dropWhile_eq_nil_iff.mpr white
      rw [none]
      rfl
  | cons first rest =>
      rw [List.isEmpty_cons, if_neg Bool.false_ne_true, List.reverse_append,
        List.dropWhile_append_of_pos white.reverse]

theorem IsCoreOf.trim_eq (isCore : IsCoreOf core characters) : trim characters = core := by
  obtain ⟨⟨before, behind, rfl, whiteBefore, whiteBehind⟩, front, back⟩ := isCore
  rw [List.append_assoc, trim_append_of_allWhite whiteBefore, trim_append_allWhite _ whiteBehind,
    trim, dropWhile_isWhiteSpace_of_front front, dropWhile_isWhiteSpace_of_front,
    List.reverse_reverse]
  rw [List.head?_reverse]
  exact back

theorem isWhiteSpace_head?_dropWhile (characters : List Char) :
    ∀ char ∈ (characters.dropWhile isWhiteSpace).head?, isWhiteSpace char = false := by
  intro char member
  have stopped := List.head?_dropWhile_not isWhiteSpace characters
  rw [Option.mem_def.mp member] at stopped
  exact stopped

theorem isCoreOf_trim (characters : List Char) : IsCoreOf (trim characters) characters := by
  let body := characters.dropWhile isWhiteSpace
  let behind := (body.reverse.takeWhile isWhiteSpace).reverse
  have split : body = trim characters ++ behind := by
    rw [trim, ← List.reverse_append, List.takeWhile_append_dropWhile, List.reverse_reverse]
  constructor
  · refine ⟨characters.takeWhile isWhiteSpace, behind, ?_, ?_, ?_⟩
    · rw [List.append_assoc, ← split, List.takeWhile_append_dropWhile]
    · exact List.all_eq_true.mp List.all_takeWhile
    · have white : AllWhite (body.reverse.takeWhile isWhiteSpace) :=
        List.all_eq_true.mp List.all_takeWhile
      exact white.reverse
  · intro char member
    have first : char ∈ body.head? := by
      rw [split, List.head?_append, Option.mem_def.mp member]
      rfl
    exact isWhiteSpace_head?_dropWhile characters char first
  · rw [trim, List.getLast?_reverse]
    exact isWhiteSpace_head?_dropWhile body.reverse

/-! ## Lower case -/

theorem isWhiteSpace_of_between {char : Char} (low : 0x21 ≤ char.toNat)
    (high : char.toNat ≤ 0x7E) : isWhiteSpace char = false := by
  simp only [isWhiteSpace, whiteSpaceRanges, List.any_cons, List.any_nil, Bool.or_false,
    Bool.or_eq_false_iff, Bool.and_eq_false_iff, decide_eq_false_iff_not]
  omega

theorem isWhiteSpace_toLower (char : Char) : isWhiteSpace char.toLower = isWhiteSpace char := by
  unfold Char.toLower
  split
  · next upper =>
    have low : 65 ≤ char.toNat := UInt32.le_iff_toNat_le.mp upper.1
    have high : char.toNat ≤ 90 := UInt32.le_iff_toNat_le.mp upper.2
    have shifted : (char.val + ('a'.val - 'A'.val)).toNat = char.toNat + 32 := by
      have small : char.val.toNat ≤ 90 := high
      have distance : ('a'.val - 'A'.val).toNat = 32 := by decide
      rw [UInt32.toNat_add, distance, Nat.mod_eq_of_lt (by omega)]
      rfl
    have printing : isWhiteSpace char = false := isWhiteSpace_of_between (by omega) (by omega)
    rw [printing]
    apply isWhiteSpace_of_between
    · change 0x21 ≤ (char.val + ('a'.val - 'A'.val)).toNat
      omega
    · change (char.val + ('a'.val - 'A'.val)).toNat ≤ 0x7E
      omega
  · rfl

theorem trim_map_toLower (characters : List Char) :
    trim (characters.map Char.toLower) = (trim characters).map Char.toLower := by
  have same : isWhiteSpace ∘ Char.toLower = isWhiteSpace := funext isWhiteSpace_toLower
  rw [trim, trim, List.dropWhile_map, same, ← List.map_reverse, List.dropWhile_map, same,
    List.map_reverse]

theorem isNormalForm_iff {text form : String} : IsNormalForm text form ↔ normalize text = form := by
  constructor
  · rintro ⟨core, isCore, lowered⟩
    rw [normalize, isCore.trim_eq, ← lowered, String.ofList_toList]
  · rintro rfl
    exact ⟨trim text.toList, isCoreOf_trim _, String.toList_ofList⟩

/-- White space around a text and the case of its letters do not matter. -/
theorem Respells.normalize_eq {text other : String} (respells : Respells text other) :
    normalize other = normalize text := by
  obtain ⟨before, core, behind, spelled, whiteBefore, whiteBehind, sameLetters⟩ := respells
  rw [normalize, normalize, spelled, List.append_assoc, trim_append_of_allWhite whiteBefore,
    trim_append_allWhite _ whiteBehind, ← trim_map_toLower, sameLetters, trim_map_toLower]

end SqlLexer.Text
