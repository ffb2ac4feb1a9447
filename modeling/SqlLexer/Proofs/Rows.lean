import Mathlib.Data.List.Forall2
import SqlLexer.CommandLine

/-!
# Rows and lines

A row shows a token field by field, and a line shows a row in columns.  Both are said here
of what is shown, not of how it is made, and leave no choice.
-/

namespace SqlLexer.CommandLine

/-- The row shows the token.  If asked to, it shows a string as a literal for its text. -/
structure Row.Shows (requote : Bool) (token : Token) (row : Row) : Prop where
  kind : row.kind = token.kind.display
  code : row.code = token.kind.code
  offset : row.offset = token.offset
  text : (requote = true → token.kind ≠ .string) → row.value = Utf8.text token.value
  literal : requote = true → token.kind = .string →
    row.value = Utf8.text (Literal.encode token.value)

/-- Blanks that bring a text to a width.  A text that is as long already needs none. -/
def Fills (padding text : String) (width : Nat) : Prop :=
  (∀ char ∈ padding.toList, char = ' ') ∧
    padding.length + text.length = max width text.length

/-- The line shows the row in columns.  The offset and the code end theirs, the kind begins
its own, and the value comes last. -/
def Row.IsLine (row : Row) (line : String) : Prop :=
  ∃ beforeOffset afterKind beforeCode,
    Fills beforeOffset (toString row.offset) 6 ∧ Fills afterKind row.kind 16 ∧
    Fills beforeCode (toString row.code) 6 ∧
    line = beforeOffset ++ toString row.offset ++ " " ++ row.kind ++ afterKind ++ " " ++
      beforeCode ++ toString row.code ++ " " ++ row.value ++ "\n"

/-- The rows show the tokens of the text under these settings, each one in its turn. -/
def Lists (requote : Bool) (config : Config) (input : Bytes) (rows : List Row) : Prop :=
  List.Forall₂ (Row.Shows requote) (Lexer.start input config).tokenize.answer rows

/-- The output shows the rows, in JSON or in lines. -/
def Prints (libraries : Libraries) (json : Bool) (rows : List Row) (output : String) : Prop :=
  if json then output = libraries.writeJson rows ++ "\n"
  else ∃ lines, List.Forall₂ Row.IsLine rows lines ∧ output = String.join lines

/-- The rows differ in their values at most, and only for a string. -/
def Row.DiffersInString (first second : Row) : Prop :=
  second = { first with value := second.value } ∧
    (second.value ≠ first.value → first.kind = "STRING" ∧ first.code = Kind.string.code)

variable {requote other : Bool} {token : Token} {row first second : Row}

namespace Row

theorem shows_ofToken (requote : Bool) (token : Token) :
    (ofToken requote token).Shows requote token where
  kind := rfl
  code := rfl
  offset := rfl
  text plain := by
    have notAsked : ¬(requote && token.kind == .string) = true := by
      rw [Bool.and_eq_true, beq_iff_eq]
      exact fun asked => plain asked.1 asked.2
    exact if_neg notAsked
  literal asked isString := by
    have both : (requote && token.kind == .string) = true := by
      rw [asked, isString]
      rfl
    exact if_pos both

/-- Two rows that show the same token differ in a string at most. -/
theorem Shows.differsInString (shows : first.Shows requote token)
    (showsToo : second.Shows other token) : first.DiffersInString second := by
  refine ⟨?_, ?_⟩
  · obtain ⟨kind, code, offset, value⟩ := second
    have sameKind : kind = first.kind := showsToo.kind.trans shows.kind.symm
    have sameCode : code = first.code := showsToo.code.trans shows.code.symm
    have sameOffset : offset = first.offset := showsToo.offset.trans shows.offset.symm
    rw [sameKind, sameCode, sameOffset]
  · intro differs
    have isString : token.kind = .string := by
      by_contra notString
      have plain := shows.text fun _ => notString
      exact differs ((showsToo.text fun _ => notString).trans plain.symm)
    rw [shows.kind, shows.code, isString]
    exact ⟨rfl, rfl⟩

theorem Shows.unique (shows : first.Shows requote token) (showsToo : second.Shows requote token) :
    second = first := by
  have sameValue : second.value = first.value := by
    by_cases asked : requote = true ∧ token.kind = .string
    · exact (showsToo.literal asked.1 asked.2).trans (shows.literal asked.1 asked.2).symm
    · have plain : requote = true → token.kind ≠ .string :=
        fun isAsked isString => asked ⟨isAsked, isString⟩
      exact (showsToo.text plain).trans (shows.text plain).symm
  rw [(shows.differsInString showsToo).1, sameValue]

theorem shows_iff : row.Shows requote token ↔ ofToken requote token = row :=
  ⟨fun shows => shows.unique (shows_ofToken requote token),
    fun same => same ▸ shows_ofToken requote token⟩

end Row

theorem lists_iff {config : Config} {input : Bytes} {rows : List Row} :
    Lists requote config input rows ↔
      (Lexer.start input config).tokenize.answer.map (Row.ofToken requote) = rows := by
  have shows : Row.Shows requote = fun token row => Row.ofToken requote token = row :=
    funext fun _ => funext fun _ => propext Row.shows_iff
  rw [Lists, shows, ← List.forall₂_eq_eq_eq, List.forall₂_map_left_iff]

theorem fills_blanks (text : String) (width : Nat) :
    Fills (String.ofList (List.replicate (width - text.length) ' ')) text width := by
  constructor
  · intro char member
    rw [String.toList_ofList] at member
    exact List.eq_of_mem_replicate member
  · rw [String.length_ofList, List.length_replicate]
    omega

theorem Row.isLine_toLine (row : Row) : row.IsLine row.toLine := by
  refine ⟨_, _, _, fills_blanks _ _, fills_blanks _ _, fills_blanks _ _, ?_⟩
  simp only [toLine, alignRight, alignLeft, String.append_assoc]

theorem prints_listing (libraries : Libraries) (json : Bool) (rows : List Row) :
    Prints libraries json rows
      (if json then libraries.writeJson rows ++ "\n" else textListing rows) := by
  cases json with
  | true => rfl
  | false =>
      refine ⟨rows.map Row.toLine, ?_, rfl⟩
      rw [List.forall₂_map_right_iff, List.forall₂_same]
      exact fun row _ => row.isLine_toLine

end SqlLexer.CommandLine
