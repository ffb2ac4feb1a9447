import Mathlib.Data.Nat.Find
import Mathlib.Order.Bounds.Basic
import SqlLexer.Proofs.Separators

/-!
# Where a comment ends

A comment of one line ends with the first line feed behind its marks, and a block
comment with the first closing mark that shares no byte with the opening one.
Both are places of the text alone: whatever else stands in a comment does not
move its end.
-/

namespace SqlLexer

namespace Comment

/-- The places of the closing marks in a text that begins with an opening mark.
The star of the opening mark belongs to none of them. -/
def closings (text : Bytes) : Set Nat :=
  {place | 2 ≤ place ∧ ascii "*/" <+: text.drop place}

theorem throughLine_eq_take (input : Bytes) :
    throughLine input = input.take (input.idxOf Byte.lineFeed + 1) := by
  induction input with
  | nil => rfl
  | cons byte rest ih =>
      rw [throughLine, List.idxOf_cons]
      by_cases isEnd : (byte == Byte.lineFeed) = true
      · rw [if_pos isEnd, isEnd]
        rfl
      · rw [if_neg isEnd, ih, (Bool.not_eq_true _).mp isEnd]
        rfl

/-- A comment runs through its first closing mark. -/
theorem throughClose?_of_isLeast {input : Bytes} {place : Nat}
    (first : IsLeast {place | ascii "*/" <+: input.drop place} place) :
    throughClose? input = some (input.take (place + 2)) := by
  obtain ⟨behind, found⟩ := first.1
  have split : input.take place ++ (ascii "*/" ++ behind) = input := by
    rw [found, List.take_append_drop]
  have neverCloses : ¬ascii "*/" <:+: input.take place := by
    rintro ⟨before, after, inside⟩
    have earlier : ascii "*/" <+: input.drop before.length := by
      refine ⟨after ++ (ascii "*/" ++ behind), ?_⟩
      rw [← split, ← inside]
      simp
    have notEarlier : place ≤ before.length := first.2 earlier
    have measured := congrArg List.length inside
    have marks : (ascii "*/").length = 2 := rfl
    rw [List.length_append, List.length_append, List.length_take, marks] at measured
    omega
  have through := throughClose?_append neverCloses behind
  rw [split] at through
  rw [through, List.take_add, ← found]
  rfl

theorem mem_closings_iff {afterOpen : Bytes} {place : Nat} :
    place ∈ closings ('/'.toUInt8 :: '*'.toUInt8 :: afterOpen) ↔
      ∃ behind, place = behind + 2 ∧ ascii "*/" <+: afterOpen.drop behind := by
  constructor
  · rintro ⟨apart, found⟩
    obtain ⟨behind, rfl⟩ := Nat.exists_eq_add_of_le' apart
    exact ⟨behind, rfl, found⟩
  · rintro ⟨behind, rfl, found⟩
    exact ⟨Nat.le_add_left 2 behind, found⟩

theorem closings_eq_empty_iff {afterOpen : Bytes} :
    closings ('/'.toUInt8 :: '*'.toUInt8 :: afterOpen) = ∅ ↔ ¬ascii "*/" <:+: afterOpen := by
  rw [Set.eq_empty_iff_forall_notMem]
  constructor
  · rintro noClosing ⟨before, after, inside⟩
    have found : ascii "*/" <+: afterOpen.drop before.length := by
      rw [← inside, List.append_assoc, List.drop_left]
      exact ⟨after, rfl⟩
    exact noClosing _ (mem_closings_iff.mpr ⟨before.length, rfl, found⟩)
  · rintro neverCloses place member
    obtain ⟨behind, rfl, found⟩ := mem_closings_iff.mp member
    exact neverCloses (found.isInfix.trans (List.drop_suffix behind afterOpen).isInfix)

theorem exists_isLeast_closings {text : Bytes} (closes : (closings text).Nonempty) :
    ∃ place, IsLeast (closings text) place := by
  classical
  exact ⟨Nat.find closes, Nat.find_spec closes, fun _ member => Nat.find_min' closes member⟩

end Comment

open Comment

namespace Lexeme

theorem blockComment_of_isLeast {afterOpen : Bytes} {place : Nat}
    (first : IsLeast (closings ('/'.toUInt8 :: '*'.toUInt8 :: afterOpen)) place) :
    blockComment afterOpen =
      verbatim .comment (('/'.toUInt8 :: '*'.toUInt8 :: afterOpen).take (place + 2)) := by
  obtain ⟨behind, rfl, found⟩ := mem_closings_iff.mp first.1
  have firstBehind : IsLeast {place | ascii "*/" <+: afterOpen.drop place} behind := by
    refine ⟨found, fun other otherFound => ?_⟩
    have later := first.2 (mem_closings_iff.mpr ⟨other, rfl, otherFound⟩)
    omega
  exact blockComment_closed (throughClose?_of_isLeast firstBehind)

theorem blockComment_of_closings_eq_empty {afterOpen : Bytes}
    (neverCloses : closings ('/'.toUInt8 :: '*'.toUInt8 :: afterOpen) = ∅) :
    blockComment afterOpen = verbatim .invalid ('/'.toUInt8 :: '*'.toUInt8 :: afterOpen) :=
  blockComment_open ((throughClose?_eq_none_iff afterOpen).mpr
    (closings_eq_empty_iff.mp neverCloses))

theorem lineComment_eq (mark : UInt8) (notLineFeed : (mark == Byte.lineFeed) = false)
    (afterMarks : Bytes) :
    lineComment mark afterMarks =
      verbatim .comment ((mark :: mark :: afterMarks).take
        ((mark :: mark :: afterMarks).idxOf Byte.lineFeed + 1)) := by
  rw [lineComment, throughLine_eq_take, List.idxOf_cons, List.idxOf_cons, notLineFeed]
  rfl

end Lexeme

/-- Where a comment comes next, a scan takes it as it stands.  Two minus signs or
two slashes make it run through the first line feed, or to the end of the input
without one.  Behind the mark of a block comment it runs through the first closing
mark; without any the whole input is no token. -/
theorem scan_comment_extent {lexer : Lexer} {gap ahead : Bytes} (faces : lexer.Faces gap ahead) :
    (ascii "--" <+: ahead ∨ ascii "//" <+: ahead →
      lexer.Scans gap .comment (ahead.take (ahead.idxOf Byte.lineFeed + 1))) ∧
    (ascii "/*" <+: ahead →
      ((closings ahead).Nonempty →
        ∃ place, IsLeast (closings ahead) place ∧
          lexer.Scans gap .comment (ahead.take (place + 2))) ∧
      (closings ahead = ∅ → lexer.Scans gap .invalid ahead) ∧
      (lexer.scan.1.kind = .invalid ↔ closings ahead = ∅)) := by
  constructor
  · intro marks
    rcases marks with ⟨afterMarks, rfl⟩ | ⟨afterMarks, rfl⟩
    · have front : Lexeme.ofFront '-'.toUInt8 ('-'.toUInt8 :: afterMarks) = _ :=
        Lexeme.lineComment_eq '-'.toUInt8 (by decide) afterMarks
      exact faces.scans (by decide) front rfl
    · have front : Lexeme.ofFront '/'.toUInt8 ('/'.toUInt8 :: afterMarks) = _ :=
        Lexeme.lineComment_eq '/'.toUInt8 (by decide) afterMarks
      exact faces.scans (by decide) front rfl
  · rintro ⟨afterOpen, rfl⟩
    have closed {place : Nat} (first : IsLeast (closings (ascii "/*" ++ afterOpen)) place) :
        lexer.Scans gap .comment ((ascii "/*" ++ afterOpen).take (place + 2)) :=
      faces.scans (by decide) (Lexeme.blockComment_of_isLeast first) rfl
    have unclosed (neverCloses : closings (ascii "/*" ++ afterOpen) = ∅) :
        lexer.Scans gap .invalid (ascii "/*" ++ afterOpen) :=
      faces.scans (by decide) (Lexeme.blockComment_of_closings_eq_empty neverCloses) rfl
    refine ⟨?_, unclosed, ?_, ?_⟩
    · intro closes
      obtain ⟨place, first⟩ := exists_isLeast_closings closes
      exact ⟨place, first, closed first⟩
    · intro invalid
      by_contra closes
      obtain ⟨place, first⟩ := exists_isLeast_closings (Set.nonempty_iff_ne_empty.mpr closes)
      rw [closed first] at invalid
      cases invalid
    · intro neverCloses
      rw [unclosed neverCloses]

/-- The star of the opening mark closes nothing, a quote and a line comment hide
nothing, and the second of two stars closes. -/
theorem scan_comment_extent_overlapping :
    let lexer := (Lexer.start (ascii "1 /*/ '--**/*/") .default).after [.scan]
    let ahead := ascii "/*/ '--**/*/"
    lexer.Faces (ascii " ") ahead ∧ ascii "/*" <+: ahead ∧
      lexer.scan.1 = { kind := .comment, value := ascii "/*/ '--**/", offset := 2 } ∧
      IsLeast (closings ahead) 8 := by
  intro lexer ahead
  have faces : lexer.Faces (ascii " ") ahead :=
    ⟨by decide, by decide, .of_all (by decide)⟩
  have opens : ascii "/*" <+: ahead := by decide
  have scanned : lexer.scan.1 =
      { kind := .comment, value := ascii "/*/ '--**/", offset := 2 } := by decide
  have later : (closings ahead).Nonempty := ⟨10, by decide, by decide⟩
  obtain ⟨place, first, found⟩ := ((scan_comment_extent faces).2 opens).1 later
  have isPlace : place = 8 := by
    have notLater : place ≤ 10 := first.2 ⟨by decide, by decide⟩
    have taken : (ahead.take (place + 2)).length = 10 := by
      rw [found] at scanned
      exact congrArg (·.value.length) scanned
    have whole : ahead.length = 12 := by decide
    rw [List.length_take, whole] at taken
    omega
  rw [isPlace] at first
  exact ⟨faces, opens, scanned, first⟩

end SqlLexer
