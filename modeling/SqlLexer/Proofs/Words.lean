import SqlLexer.Proofs.KeywordTable
import SqlLexer.Proofs.Lowering

/-!
# Words and bind variables

A word runs as far as there are letters and digits, and the table of reserved
words decides what it is.  Every spelling of the table is itself such a word, in
whatever case it is written, so that each of them is read as a keyword of its own.
A bind variable runs in the same way behind its colon.
-/

namespace SqlLexer

namespace Lexeme

variable {ahead : Bytes}

theorem word_of_accepts {keyword : Keyword} {spelling : String}
    (accepts : keyword.Accepts spelling)
    (same : Bytes.lower (ahead.takeWhile Byte.isWordByte) = ascii spelling) :
    word ahead =
      { kind := .keyword keyword, value := ascii spelling, width := (ascii spelling).length } := by
  have found := Keyword.find?_eq_some_iff.mpr ⟨spelling, accepts, same⟩
  have measured : (ahead.takeWhile Byte.isWordByte).length = (ascii spelling).length := by
    rw [← same, Bytes.length_lower]
  unfold word
  dsimp only
  rw [found, same, measured]

theorem word_of_not_accepts
    (unknown : ∀ (keyword : Keyword) (spelling : String), keyword.Accepts spelling →
      Bytes.lower (ahead.takeWhile Byte.isWordByte) ≠ ascii spelling) :
    word ahead = verbatim .identifier (ahead.takeWhile Byte.isWordByte) := by
  unfold word
  dsimp only
  split
  · next keyword found =>
      obtain ⟨spelling, accepts, same⟩ := Keyword.find?_eq_some_iff.mp found
      exact absurd same (unknown keyword spelling accepts)
  · rfl

theorem ofFront_of_isLetter {first : UInt8} (letter : Byte.isLetter first = true)
    (rest : Bytes) : ofFront first rest = word (first :: rest) := by
  rw [ofFront, if_pos letter]

end Lexeme

theorem Byte.isBlank_of_isLetter {byte : UInt8} (letter : isLetter byte = true) :
    isBlank byte = false :=
  isBlank_of_isPlain (isPlain_of_isWordByte (by rw [isWordByte, letter, Bool.true_or]))

theorem Keyword.Accepts.isWord {keyword : Keyword} {spelling : String}
    (accepts : keyword.Accepts spelling) {written : Bytes}
    (same : Bytes.lower written = ascii spelling) :
    written.head?.any Byte.isLetter = true ∧ ∀ byte ∈ written, Byte.isWordByte byte = true := by
  have spelled := ReservedWord.isSpelled_ascii accepts.mem_spellings
  rw [← same] at spelled
  constructor
  · rw [← Bytes.any_head?_lower Byte.isLetter_caseBlind]
    exact ReservedWord.isLetter_of_isSpelled spelled
  · intro byte member
    rw [← Byte.isWordByte_caseBlind]
    exact (ReservedWord.isWordByte_of_isSpelled spelled (List.mem_map_of_mem member)).1

namespace Lexer

variable {lexer : Lexer} {gap ahead : Bytes}

theorem Faces.scans_word (faces : lexer.Faces gap ahead)
    (letter : ahead.head?.any Byte.isLetter = true) {kind : Kind} {text : Bytes}
    (isWord : Lexeme.word ahead = { kind, value := text, width := text.length })
    (uncounted : (kind == .valueArgument) = false) : lexer.Scans gap kind text := by
  cases ahead with
  | nil => cases letter
  | cons first rest =>
      have front := (Lexeme.ofFront_of_isLetter letter rest).trans isWord
      refine faces.scans (Byte.isBlank_of_isLetter letter) front ?_
      rw [uncounted, Bool.false_and]

theorem Faces.scans_keyword (faces : lexer.Faces gap ahead)
    (letter : ahead.head?.any Byte.isLetter = true) {keyword : Keyword} {spelling : String}
    (accepts : keyword.Accepts spelling)
    (same : Bytes.lower (ahead.takeWhile Byte.isWordByte) = ascii spelling) :
    lexer.Scans gap (.keyword keyword) (ascii spelling) :=
  faces.scans_word letter (Lexeme.word_of_accepts accepts same) rfl

/-- A spelling is scanned in any case, if nothing behind it makes the word longer. -/
theorem Faces.scans_written {written behind : Bytes}
    (faces : lexer.Faces gap (written ++ behind)) {keyword : Keyword} {spelling : String}
    (accepts : keyword.Accepts spelling)
    (sameLower : Bytes.lower written = Bytes.lower (ascii spelling))
    (ends : behind.head?.any Byte.isWordByte = false) :
    lexer.Scans gap (.keyword keyword) (ascii spelling) := by
  have same : Bytes.lower written = ascii spelling := by
    rw [sameLower]
    exact ReservedWord.lower_of_isSpelled (ReservedWord.isSpelled_ascii accepts.mem_spellings)
  obtain ⟨letter, inside⟩ := accepts.isWord same
  have starts : (written ++ behind).head?.any Byte.isLetter = true := by
    cases written with
    | nil => cases letter
    | cons first rest => exact letter
  have nothing : behind.takeWhile Byte.isWordByte = [] := by
    cases behind with
    | nil => rfl
    | cons next rest => exact List.takeWhile_cons_of_neg (ne_true_of_eq_false ends)
  have run : (written ++ behind).takeWhile Byte.isWordByte = written := by
    rw [List.takeWhile_append_of_pos inside, nothing, List.append_nil]
  exact faces.scans_keyword starts accepts (by rw [run, same])

theorem Faces.scans_bindVariable {rest : Bytes}
    (faces : lexer.Faces gap (':'.toUInt8 :: rest)) :
    (rest.takeWhile Byte.isBindByte ≠ [] →
      lexer.Scans gap .valueArgument (':'.toUInt8 :: rest.takeWhile Byte.isBindByte)) ∧
    (rest.takeWhile Byte.isBindByte = [] → lexer.Scans gap .invalid [':'.toUInt8]) := by
  have front : Lexeme.ofFront ':'.toUInt8 rest = Lexeme.bindVariable rest := rfl
  constructor
  · intro named
    have notEmpty := List.isEmpty_eq_false_iff.mpr named
    rw [Lexeme.bindVariable, notEmpty] at front
    exact faces.scans (by decide) front rfl
  · intro nameless
    rw [Lexeme.bindVariable, nameless] at front
    exact faces.scans (by decide) front rfl

end Lexer

/-- Where a letter comes next, a scan takes the longest run of letters and digits.
If a keyword accepts it in lower case, it is given as that keyword and in lower
case, and otherwise as an identifier as it stands.  No spelling is accepted by
two keywords, and every reserved word and every alias is accepted by one, which is
scanned wherever the spelling is written, in any case and with no letter or digit
behind it.  Where a colon comes next, a scan takes the longest run of letters,
digits and points with it, and without such a run the colon is no token. -/
theorem scan_words_and_bind_variables {lexer : Lexer} {gap ahead : Bytes}
    (faces : lexer.Faces gap ahead) :
    (ahead.head?.any Byte.isLetter = true →
      let word := ahead.takeWhile Byte.isWordByte
      (∀ (keyword : Keyword) (spelling : String), keyword.Accepts spelling →
        Bytes.lower word = ascii spelling →
          lexer.Scans gap (.keyword keyword) (Bytes.lower word)) ∧
      ((∀ (keyword : Keyword) (spelling : String), keyword.Accepts spelling →
        Bytes.lower word ≠ ascii spelling) → lexer.Scans gap .identifier word)) ∧
    (∀ (keyword other : Keyword) (spelling synonym : String), keyword.Accepts spelling →
      other.Accepts synonym → ascii synonym = ascii spelling → other = keyword) ∧
    (∀ spelling ∈ ReservedWord.all, ∃ keyword : Keyword, keyword.spelling = spelling) ∧
    (∀ entry ∈ ReservedWord.aliases,
      ∃ keyword : Keyword, keyword.spelling = entry.2 ∧ keyword.Accepts entry.1) ∧
    (∀ (keyword : Keyword) (spelling : String) (written behind : Bytes),
      keyword.Accepts spelling → Bytes.lower written = Bytes.lower (ascii spelling) →
        ahead = written ++ behind → behind.head?.any Byte.isWordByte = false →
          lexer.Scans gap (.keyword keyword) (ascii spelling)) ∧
    (∀ rest, ahead = ':'.toUInt8 :: rest →
      let name := rest.takeWhile Byte.isBindByte
      (name ≠ [] → lexer.Scans gap .valueArgument (':'.toUInt8 :: name)) ∧
      (name = [] → lexer.Scans gap .invalid [':'.toUInt8])) := by
  refine ⟨?_, ?_, fun _ listed => Keyword.exists_spelling_eq listed, ?_, ?_, ?_⟩
  · intro letter word
    constructor
    · intro keyword spelling accepts same
      rw [same]
      exact faces.scans_keyword letter accepts same
    · intro unknown
      exact faces.scans_word letter (Lexeme.word_of_not_accepts unknown) rfl
  · intro keyword other spelling synonym accepts otherAccepts same
    exact accepts.eq_of_ascii_eq otherAccepts same
  · intro entry listed
    obtain ⟨keyword, means⟩ :=
      Keyword.exists_spelling_eq (ReservedWord.canonical_mem_all entry listed)
    refine ⟨keyword, means, .inr ?_⟩
    rw [means]
    exact listed
  · rintro keyword spelling written behind accepts same rfl ends
    exact faces.scans_written accepts same ends
  · rintro rest rfl
    exact faces.scans_bindVariable

/-- An alias in mixed case behind a bind variable with points, and directly in front
of a bracket. -/
theorem scan_words_and_bind_variables_alias :
    let lexer := (Lexer.start (ascii ":a.b CP850_Chinese_CI(x") .default).after [.scan]
    lexer.Faces (ascii " ") (ascii "CP850_Chinese_CI(x") ∧
      ∃ keyword : Keyword, keyword.spelling = "cp850_general_ci" ∧
        lexer.Scans (ascii " ") (.keyword keyword) (ascii "cp850_chinese_ci") := by
  intro lexer
  have faces : lexer.Faces (ascii " ") (ascii "CP850_Chinese_CI(x") :=
    ⟨by decide, by decide, .of_all (by decide)⟩
  obtain ⟨_, _, _, aliases, written, _⟩ := scan_words_and_bind_variables faces
  have listed : ("cp850_chinese_ci", "cp850_general_ci") ∈ ReservedWord.aliases := by decide
  obtain ⟨keyword, means, accepts⟩ := aliases _ listed
  have scanned := written keyword _ (ascii "CP850_Chinese_CI") (ascii "(x") accepts (by decide)
    (by decide) (by decide)
  exact ⟨faces, keyword, means, scanned⟩

end SqlLexer
