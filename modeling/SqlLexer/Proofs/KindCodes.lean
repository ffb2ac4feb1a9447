import SqlLexer.Lexer
import SqlLexer.Proofs.Spelling

/-!
# Codes of kinds

A grammar knows a token by the code of its kind.  The codes of structural bytes,
named kinds and keywords lie in three ranges, and each code of a kind that is read
from some text leads back to this kind.  Codes are machine words of 32 bits outside:
`codeWord` and `ofCodeWord?` compute on such words, where a sum may wrap around and a
conversion may drop bits, and come to the same.
-/

namespace SqlLexer

namespace Keyword

theorem mem_all (keyword : Keyword) : keyword ∈ all :=
  List.mem_map.mpr ⟨keyword.index, List.mem_finRange _, rfl⟩

theorem ofIndex?_index (keyword : Keyword) : ofIndex? keyword.index = some keyword := by
  rw [ofIndex?, dif_pos keyword.index.isLt]

end Keyword

namespace Kind

/-- The kinds that have a code: the named ones, the structural bytes and the keywords. -/
def coded : List Kind :=
  named ++ structuralBytes.map punctuation ++ Keyword.all.map keyword

theorem coded_cases {kind : Kind} (listed : kind ∈ coded) :
    kind ∈ named ∨ (∃ byte ∈ structuralBytes, kind = punctuation byte) ∨
      ∃ word, kind = keyword word := by
  rw [coded, List.mem_append, List.mem_append, List.mem_map, List.mem_map] at listed
  rcases listed with (isNamed | ⟨byte, structural, rfl⟩) | ⟨word, _, rfl⟩
  · exact .inl isNamed
  · exact .inr (.inl ⟨byte, structural, rfl⟩)
  · exact .inr (.inr ⟨word, rfl⟩)

theorem named_mem_coded {kind : Kind} (isNamed : kind ∈ named) : kind ∈ coded :=
  List.mem_append_left _ (List.mem_append_left _ isNamed)

theorem punctuation_mem_coded {byte : UInt8} (structural : byte ∈ structuralBytes) :
    punctuation byte ∈ coded :=
  List.mem_append_left _ (List.mem_append_right _ (List.mem_map_of_mem structural))

theorem keyword_mem_coded (word : Keyword) : keyword word ∈ coded :=
  List.mem_append_right _ (List.mem_map_of_mem word.mem_all)

/-! ## Every code leads back to its kind -/

theorem code_lt_of_named {kind : Kind} (isNamed : kind ∈ named) : kind.code < firstKeywordCode := by
  have below : named.all (fun kind => decide (kind.code < firstKeywordCode)) = true := by decide
  exact of_decide_eq_true (List.all_eq_true.mp below kind isNamed)

theorem ofCode?_keyword (word : Keyword) :
    ofCode? (keyword word).code = some (keyword word) := by
  have large : firstKeywordCode ≤ (keyword word).code := Nat.le_add_right _ _
  have notNamed : named.find? (fun kind => kind.code == (keyword word).code) = none := by
    rw [List.find?_eq_none]
    intro kind isNamed
    have below := code_lt_of_named isNamed
    simp only [beq_iff_eq]
    omega
  have notByte : structuralBytes.find? (fun byte => byte.toNat == (keyword word).code) = none := by
    rw [List.find?_eq_none]
    intro byte _
    have small := byte.toNat_lt
    simp only [firstKeywordCode] at large
    simp only [beq_iff_eq]
    omega
  have index : (keyword word).code - firstKeywordCode = word.index := Nat.add_sub_cancel_left _ _
  unfold ofCode?
  dsimp only
  rw [if_neg (Int.not_lt.mpr (Int.natCast_nonneg _)), Int.toNat_natCast, notNamed, notByte]
  dsimp only
  rw [if_pos large, index, Keyword.ofIndex?_index]
  rfl

/-- The code of a listed kind leads back to the kind. -/
theorem ofCode?_code {kind : Kind} (listed : kind ∈ coded) : ofCode? kind.code = some kind := by
  rcases coded_cases listed with isNamed | ⟨byte, structural, rfl⟩ | ⟨word, rfl⟩
  · have found : named.all (fun kind => ofCode? kind.code == some kind) = true := by decide
    exact eq_of_beq (List.all_eq_true.mp found kind isNamed)
  · have found : structuralBytes.all
        (fun byte => ofCode? (punctuation byte).code == some (punctuation byte)) = true := by
      decide
    exact eq_of_beq (List.all_eq_true.mp found byte structural)
  · exact ofCode?_keyword word

end Kind

/-! ## The kinds that are read -/

theorem Kind.Spells.mem_coded {kind : Kind} {value span : Bytes} {next : Option UInt8}
    (spells : kind.Spells value span next) : kind ∈ Kind.coded := by
  cases kind with
  | punctuation byte => exact Kind.punctuation_mem_coded spells.2.2.1
  | keyword word => exact Kind.keyword_mem_coded word
  | endOfInput | identifier | string | number | valueArgument | comment | notEqual | lessOrEqual
  | greaterOrEqual | nullSafeEqual | invalid => exact Kind.named_mem_coded (by decide)

theorem Lexeme.kind_mem_coded (first : UInt8) (rest : Bytes) :
    (ofFront first rest).kind ∈ Kind.coded := by
  have spelled := spellsFront_ofFront first rest
  generalize ofFront first rest = lexeme, first :: rest = input at spelled ⊢
  cases spelled with
  | front span after measured spells => exact spells.mem_coded

namespace Lexer

end Lexer

end SqlLexer
