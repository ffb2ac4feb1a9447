import Mathlib.Data.List.Nodup
import SqlLexer.Proofs.CharacterBoundaries

/-!
# The table of reserved words

Two facts about the table are checked on the table itself: no spelling occurs in
it twice, and every spelling is a word in lower case.  From them it follows for
every word which keyword it spells, and that no entry hides another one.  The
checks look at the bytes in which a spelling is stored, because those need not be
decoded.
-/

namespace SqlLexer

namespace ReservedWord

/-- All spellings that are accepted: the reserved words and their aliases. -/
def spellings : List String :=
  all ++ aliases.map Prod.fst

/-- The bytes in which a text is stored. -/
def stored (text : String) : Bytes :=
  text.toUTF8.data.toList

/-- The letters with which a spelling may begin. -/
def initials : Bytes :=
  (List.range 26).map fun index => UInt8.ofNat (97 + index)

/-- A word in lower case. -/
def isSpelled (word : Bytes) : Bool :=
  word.head?.any initials.contains &&
    word.all fun byte => Byte.isWordByte byte && !Byte.isUpper byte

/-! ## The checks -/

theorem all_isSpelled : (spellings.map stored).all isSpelled = true := by
  decide +kernel

/-- Words are compared with those of the same first letter only, because a check of
all pairs takes too long. -/
theorem nodup_filter_initial :
    (initials.all fun initial =>
      decide ((spellings.map stored).filter fun word => word.head? == some initial).Nodup) =
        true := by
  decide +kernel

/-! ## Spellings as bytes -/

theorem utf8EncodeChar_of_ascii {char : Char}
    (small : ∀ byte ∈ String.utf8EncodeChar char, byte < 0x80) :
    String.utf8EncodeChar char = [char.toUInt8] := by
  have large {code : Nat} (bound : code < 256) (high : 0x80 ≤ code) :
      ¬UInt8.ofNat code < 0x80 := by
    rw [UInt8.lt_iff_toNat_lt, UInt8.toNat_ofNat_of_lt' bound]
    exact Nat.not_lt.mpr high
  unfold String.utf8EncodeChar at small ⊢
  dsimp only at small ⊢
  split at small
  · next isAscii =>
      rw [if_pos isAscii]
      rfl
  · repeat' split at small
    all_goals exact absurd (small _ List.mem_cons_self) (large (by omega) (by omega))

theorem ascii_eq_stored {text : String} (small : ∀ byte ∈ stored text, byte < 0x80) :
    ascii text = stored text := by
  have encoded : stored text = text.toList.flatMap String.utf8EncodeChar := by
    rw [stored, String.toUTF8, ← String.utf8Encode_toList, List.utf8Encode,
      List.toList_data_toByteArray]
  rw [encoded] at small ⊢
  rw [ascii]
  generalize text.toList = chars at small ⊢
  induction chars with
  | nil => rfl
  | cons char chars ih =>
      rw [List.flatMap_cons] at small ⊢
      have single := utf8EncodeChar_of_ascii fun byte member =>
        small byte (List.mem_append_left _ member)
      rw [single, List.map_cons, ih fun byte member => small byte (List.mem_append_right _ member)]
      rfl

theorem stored_injective {first second : String} (same : stored first = stored second) :
    first = second := by
  apply String.toByteArray_inj.mp
  exact ByteArray.ext (Array.toList_inj.mp same)

theorem isSpelled_stored {text : String} (listed : text ∈ spellings) :
    isSpelled (stored text) = true :=
  List.all_eq_true.mp all_isSpelled _ (List.mem_map_of_mem listed)

theorem isLetter_of_isSpelled {word : Bytes} (spelled : isSpelled word = true) :
    word.head?.any Byte.isLetter = true := by
  have letters : initials.all Byte.isLetter = true := by decide
  rw [isSpelled, Bool.and_eq_true] at spelled
  cases word with
  | nil => exact spelled.1
  | cons first rest =>
      exact List.all_eq_true.mp letters first (List.contains_iff_mem.mp spelled.1)

theorem isWordByte_of_isSpelled {word : Bytes} (spelled : isSpelled word = true) {byte : UInt8}
    (member : byte ∈ word) : Byte.isWordByte byte = true ∧ Byte.isUpper byte = false := by
  rw [isSpelled, Bool.and_eq_true, List.all_eq_true] at spelled
  have both := spelled.2 byte member
  rw [Bool.and_eq_true, Bool.not_eq_true'] at both
  exact both

theorem lower_of_isSpelled {word : Bytes} (spelled : isSpelled word = true) :
    Bytes.lower word = word := by
  refine (List.map_congr_left fun byte member => ?_).trans (List.map_id word)
  rw [Byte.lower, (isWordByte_of_isSpelled spelled member).2]
  rfl

theorem ascii_eq_stored_of_mem {text : String} (listed : text ∈ spellings) :
    ascii text = stored text := by
  apply ascii_eq_stored
  intro byte member
  have isWord := (isWordByte_of_isSpelled (isSpelled_stored listed) member).1
  exact UInt8.lt_iff_toNat_lt.mpr (Byte.ascii_of_isPlain (Byte.isPlain_of_isWordByte isWord))

theorem isSpelled_ascii {text : String} (listed : text ∈ spellings) :
    isSpelled (ascii text) = true := by
  rw [ascii_eq_stored_of_mem listed]
  exact isSpelled_stored listed

theorem ascii_inj {first second : String} (firstListed : first ∈ spellings)
    (secondListed : second ∈ spellings) (same : ascii first = ascii second) : first = second := by
  rw [ascii_eq_stored_of_mem firstListed, ascii_eq_stored_of_mem secondListed] at same
  exact stored_injective same

/-! ## No spelling occurs twice -/

theorem nodup_of_nodup_filter {α β : Type} [DecidableEq α] [BEq β] [LawfulBEq β] (label : α → β)
    (labels : List β) {items : List α} (labelled : ∀ item ∈ items, label item ∈ labels)
    (apart : ∀ name ∈ labels, (items.filter fun item => label item == name).Nodup) :
    items.Nodup := by
  rw [List.nodup_iff_count_le_one]
  intro item
  by_cases member : item ∈ items
  · have once := List.nodup_iff_count_le_one.mp (apart _ (labelled item member)) item
    rwa [List.count_filter (p := fun other => label other == label item)
      (beq_self_eq_true _)] at once
  · rw [List.count_eq_zero_of_not_mem member]
    exact Nat.zero_le 1

theorem nodup_spellings : spellings.Nodup := by
  apply List.Nodup.of_map stored
  apply nodup_of_nodup_filter List.head? (initials.map some)
  · intro word listed
    have spelled := List.all_eq_true.mp all_isSpelled word listed
    rw [isSpelled, Bool.and_eq_true] at spelled
    cases word with
    | nil => cases spelled.1
    | cons first rest => exact List.mem_map_of_mem (List.contains_iff_mem.mp spelled.1)
  · intro name listed
    obtain ⟨initial, member, rfl⟩ := List.mem_map.mp listed
    exact of_decide_eq_true (List.all_eq_true.mp nodup_filter_initial initial member)

end ReservedWord

/-! ## The keyword of a word -/

/-- In a list whose keys determine their values, looking up a key finds the value
beside it. -/
theorem lookup_eq_some_iff_mem {α β : Type} [BEq α] [LawfulBEq α] {entries : List (α × β)}
    (determined : ∀ key value other, (key, value) ∈ entries → (key, other) ∈ entries →
      other = value) (key : α) (value : β) :
    entries.lookup key = some value ↔ (key, value) ∈ entries := by
  have found {found : β} (isFound : entries.lookup key = some found) : (key, found) ∈ entries := by
    obtain ⟨before, behind, split, _⟩ := List.lookup_eq_some_iff.mp isFound
    rw [split]
    exact List.mem_append_right before List.mem_cons_self
  constructor
  · exact found
  · intro member
    have isSome : (entries.lookup key).isSome = true :=
      List.lookup_isSome_iff.mpr ⟨(key, value), member, beq_self_eq_true key⟩
    obtain ⟨other, isOther⟩ := Option.isSome_iff_exists.mp isSome
    rw [isOther, determined key value other member (found isOther)]

namespace Keyword

/-- A keyword is meant by its canonical spelling and by each of its aliases. -/
def Accepts (keyword : Keyword) (spelling : String) : Prop :=
  spelling = keyword.spelling ∨ (spelling, keyword.spelling) ∈ ReservedWord.aliases

theorem spelling_mem_all (keyword : Keyword) : keyword.spelling ∈ ReservedWord.all :=
  List.getElem_mem _

theorem exists_spelling_eq {text : String} (listed : text ∈ ReservedWord.all) :
    ∃ keyword : Keyword, keyword.spelling = text := by
  obtain ⟨index, inTable, rfl⟩ := List.mem_iff_getElem.mp listed
  exact ⟨⟨index, inTable⟩, rfl⟩

theorem eq_of_spelling_eq {keyword other : Keyword} (same : other.spelling = keyword.spelling) :
    other = keyword := by
  have nodup : ReservedWord.all.Nodup := ReservedWord.nodup_spellings.of_append_left
  have sameIndex : (other.index : Nat) = keyword.index := nodup.getElem_inj_iff.mp same
  cases keyword
  cases other
  exact congrArg Keyword.mk (Fin.ext sameIndex)

namespace Accepts

variable {keyword other : Keyword} {spelling synonym : String}

theorem mem_spellings (accepts : keyword.Accepts spelling) :
    spelling ∈ ReservedWord.spellings := by
  rcases accepts with rfl | isAlias
  · exact List.mem_append_left _ keyword.spelling_mem_all
  · exact List.mem_append_right _ (List.mem_map.mpr ⟨_, isAlias, rfl⟩)

theorem unique (accepts : keyword.Accepts spelling) (otherAccepts : other.Accepts spelling) :
    other = keyword := by
  have nodup := ReservedWord.nodup_spellings
  have apart {entry : String × String} (listed : entry ∈ ReservedWord.aliases) :
      entry.1 ∉ ReservedWord.all := fun isWord =>
    List.disjoint_of_nodup_append nodup isWord (List.mem_map_of_mem listed)
  rcases accepts with rfl | isAlias <;> rcases otherAccepts with same | isOtherAlias
  · exact eq_of_spelling_eq same.symm
  · exact absurd keyword.spelling_mem_all (apart isOtherAlias)
  · exact absurd (same ▸ other.spelling_mem_all) (apart isAlias)
  · have names : (ReservedWord.aliases.map Prod.fst).Nodup := nodup.of_append_right
    have sameEntry := List.inj_on_of_nodup_map names isAlias isOtherAlias rfl
    exact eq_of_spelling_eq (congrArg Prod.snd sameEntry).symm

/-- Not even the bytes of a spelling are those of another one. -/
theorem eq_of_ascii_eq (accepts : keyword.Accepts spelling) (otherAccepts : other.Accepts synonym)
    (same : ascii synonym = ascii spelling) : other = keyword := by
  cases ReservedWord.ascii_inj otherAccepts.mem_spellings accepts.mem_spellings same
  exact accepts.unique otherAccepts

end Accepts

theorem mem_canonicalEntries_iff {word : Bytes} {keyword : Keyword} :
    (word, keyword) ∈ canonicalEntries ↔ word = ascii keyword.spelling := by
  rw [canonicalEntries, List.mem_map]
  constructor
  · rintro ⟨_, _, same⟩
    cases same
    rfl
  · rintro rfl
    exact ⟨keyword, List.mem_map.mpr ⟨keyword.index, List.mem_finRange _, rfl⟩, rfl⟩

theorem spelling_ofSpelling {canonical : String} (listed : canonical ∈ ReservedWord.all) :
    (ofSpelling canonical listed).spelling = canonical :=
  List.getElem_idxOf _

theorem mem_aliases_iff {name : String} {keyword : Keyword} :
    (name, keyword) ∈ aliases ↔ (name, keyword.spelling) ∈ ReservedWord.aliases := by
  rw [aliases, List.mem_pmap]
  constructor
  · rintro ⟨⟨_, canonical⟩, listed, same⟩
    cases same
    rw [spelling_ofSpelling]
    exact listed
  · intro listed
    have same := eq_of_spelling_eq (spelling_ofSpelling (ReservedWord.canonical_mem_all _ listed))
    exact ⟨_, listed, congrArg (Prod.mk name) same⟩

theorem mem_entries_iff {word : Bytes} {keyword : Keyword} :
    (word, keyword) ∈ entries ↔ ∃ spelling, keyword.Accepts spelling ∧ word = ascii spelling := by
  rw [entries, List.mem_append, mem_canonicalEntries_iff, List.mem_map]
  constructor
  · rintro (rfl | ⟨⟨name, _⟩, isAlias, same⟩)
    · exact ⟨_, .inl rfl, rfl⟩
    · cases same
      exact ⟨name, .inr (mem_aliases_iff.mp isAlias), rfl⟩
  · rintro ⟨spelling, rfl | isAlias, rfl⟩
    · exact .inl rfl
    · exact .inr ⟨_, mem_aliases_iff.mpr isAlias, rfl⟩

/-- A keyword is found by the spellings that it accepts, and no entry of the table
hides another one. -/
theorem find?_eq_some_iff {word : Bytes} {keyword : Keyword} :
    find? word = some keyword ↔
      ∃ spelling, keyword.Accepts spelling ∧ word = ascii spelling := by
  have listed (word keyword) : (word, keyword) ∈ entries.reverse ↔
      ∃ spelling, keyword.Accepts spelling ∧ word = ascii spelling :=
    List.mem_reverse.trans mem_entries_iff
  refine (lookup_eq_some_iff_mem ?_ word keyword).trans (listed word keyword)
  intro word first second isFirst isSecond
  obtain ⟨spelling, accepts, rfl⟩ := (listed _ _).mp isFirst
  obtain ⟨synonym, otherAccepts, same⟩ := (listed _ _).mp isSecond
  exact accepts.eq_of_ascii_eq otherAccepts same.symm

end Keyword

end SqlLexer
