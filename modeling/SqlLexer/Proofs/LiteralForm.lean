import Mathlib.Data.Set.List
import SqlLexer.Proofs.LongestMatch
import SqlLexer.Proofs.Literal

/-!
# The form of a written literal

Quoted text may spell a value in several ways, of which writing a literal chooses
one: nine bytes are escaped, each by its own marker, and every other byte stands
for itself.  The literals written so form a regular language, and reading a word
of it gives the only value that is written in this way.
-/

namespace SqlLexer

open Grammar
open scoped Computability

namespace Literal

/-- The bytes that no literal holds as they are. -/
def escapable : Bytes :=
  [0x00, 0x08, '\t'.toUInt8, '\n'.toUInt8, '\r'.toUInt8, 0x1A, '"'.toUInt8, '\''.toUInt8,
    '\\'.toUInt8]

/-- The bytes that stand for them behind a backslash. -/
def markers : Bytes :=
  ['0'.toUInt8, '\''.toUInt8, '"'.toUInt8, 'b'.toUInt8, 'n'.toUInt8, 'r'.toUInt8, 't'.toUInt8,
    'Z'.toUInt8, '\\'.toUInt8]

/-- A byte for itself, or a marker behind a backslash. -/
def unit : Language UInt8 :=
  oneOf (fun byte => !escapable.contains byte) + only '\\'.toUInt8 * oneOf markers.contains

/-- Units between two single quotes. -/
def form : Language UInt8 :=
  only '\''.toUInt8 * (unit∗ * only '\''.toUInt8)

theorem escapable_and_marker : ∀ pair ∈ Escape.pairs, pair.1 ∈ escapable ∧ pair.2 ∈ markers := by
  have listed : Escape.pairs.all
      (fun pair => escapable.contains pair.1 && markers.contains pair.2) = true := by decide
  simpa only [List.all_eq_true, Bool.and_eq_true, List.contains_iff_mem] using listed

theorem encode?_eq_none_iff {byte : UInt8} : Escape.encode? byte = none ↔ byte ∉ escapable := by
  constructor
  · intro plain isEscapable
    have covered : escapable.all (fun byte => (Escape.encode? byte).isSome) = true := by decide
    have encoded := List.all_eq_true.mp covered byte isEscapable
    rw [plain] at encoded
    cases encoded
  · intro notEscapable
    rw [Escape.encode?, Option.map_eq_none_iff, List.find?_eq_none]
    intro pair member same
    have isEscapable := (escapable_and_marker pair member).1
    rw [eq_of_beq same] at isEscapable
    exact notEscapable isEscapable

theorem encode?_meaning {marker : UInt8} (isMarker : marker ∈ markers) :
    Escape.encode? (Escape.meaning marker) = some marker := by
  have chosen : markers.all
      (fun marker => Escape.encode? (Escape.meaning marker) == some marker) = true := by decide
  exact eq_of_beq (List.all_eq_true.mp chosen marker isMarker)

theorem encodeByte_cases (byte : UInt8) :
    (byte ∉ escapable ∧ encodeByte byte = [byte]) ∨
      ∃ marker ∈ markers, encodeByte byte = ['\\'.toUInt8, marker] := by
  rw [encodeByte]
  split
  · next marker encoded =>
      obtain ⟨pair, found, rfl⟩ := Option.map_eq_some_iff.mp encoded
      have isMarker := (escapable_and_marker pair (List.mem_of_find?_eq_some found)).2
      exact .inr ⟨pair.2, isMarker, rfl⟩
  · next plain => exact .inl ⟨encode?_eq_none_iff.mp plain, rfl⟩

/-! ## The literals are the words of the form -/

/-- Each byte is written as a unit, and each unit is what one byte is written as. -/
theorem mem_unit_iff {word : Bytes} : word ∈ unit ↔ ∃ byte, encodeByte byte = word := by
  constructor
  · rintro (⟨byte, rfl, plain⟩ | escape)
    · have notEscapable : byte ∉ escapable := by simpa using plain
      refine ⟨byte, ?_⟩
      rw [encodeByte, encode?_eq_none_iff.mpr notEscapable]
    · obtain ⟨_, rfl, _, ⟨marker, rfl, isMarker⟩, rfl⟩ := Language.mem_mul.mp escape
      refine ⟨Escape.meaning marker, ?_⟩
      rw [encodeByte, encode?_meaning (List.contains_iff_mem.mp isMarker)]
      rfl
  · rintro ⟨byte, rfl⟩
    rcases encodeByte_cases byte with ⟨notEscapable, plain⟩ | ⟨marker, isMarker, escape⟩
    · rw [plain]
      exact .inl ⟨byte, rfl, by simpa using notEscapable⟩
    · rw [escape]
      have isOne : [marker] ∈ oneOf markers.contains :=
        ⟨marker, rfl, List.contains_iff_mem.mpr isMarker⟩
      exact .inr (Language.append_mem_mul (Set.mem_singleton _) isOne)

theorem mem_kstar_unit_iff {body : Bytes} :
    body ∈ unit∗ ↔ ∃ value : Bytes, body = value.flatMap encodeByte := by
  have written (parts : List Bytes) :
      (∀ part ∈ parts, part ∈ unit) ↔ ∃ value : Bytes, value.map encodeByte = parts := by
    simp only [mem_unit_iff]
    exact (Set.ext_iff.mp (Set.range_list_map encodeByte) parts).symm
  rw [Language.mem_kstar]
  constructor
  · rintro ⟨parts, rfl, units⟩
    obtain ⟨value, rfl⟩ := (written parts).mp units
    exact ⟨value, rfl⟩
  · rintro ⟨value, rfl⟩
    exact ⟨value.map encodeByte, rfl, (written _).mpr ⟨value, rfl⟩⟩

theorem mem_form_iff {literal : Bytes} : literal ∈ form ↔ ∃ value, literal = encode value := by
  constructor
  · intro inForm
    obtain ⟨_, rfl, _, closed, rfl⟩ := Language.mem_mul.mp inForm
    obtain ⟨body, units, _, rfl, rfl⟩ := Language.mem_mul.mp closed
    obtain ⟨value, rfl⟩ := mem_kstar_unit_iff.mp units
    exact ⟨value, rfl⟩
  · rintro ⟨value, rfl⟩
    have units : value.flatMap encodeByte ∈ unit∗ := mem_kstar_unit_iff.mpr ⟨value, rfl⟩
    exact Language.append_mem_mul (Set.mem_singleton _)
      (Language.append_mem_mul units (Set.mem_singleton _))

/-- Different values are written differently, because a literal is read back. -/
theorem encode_injective : Function.Injective encode := by
  intro value other same
  have sameStream := congrArg TokenStream.ofBytes same
  rw [ofBytes_encode, ofBytes_encode] at sameStream
  have sameEntry := (List.cons.inj (congrArg TokenStream.proper sameStream)).1
  exact congrArg (fun entry => entry.token.value) sameEntry

/-! ## What a literal cannot hold -/

theorem not_mem_encode {byte : UInt8} (isEscapable : byte ∈ escapable) (notMarker : byte ∉ markers)
    (value : Bytes) : byte ∉ encode value := by
  have notQuote : byte ≠ Byte.singleQuote := by
    rintro rfl
    exact notMarker (by decide)
  have notBackslash : byte ≠ '\\'.toUInt8 := by
    rintro rfl
    exact notMarker (by decide)
  have notWritten : byte ∉ value.flatMap encodeByte := by
    rw [List.mem_flatMap]
    rintro ⟨other, _, within⟩
    rcases encodeByte_cases other with ⟨notEscapable, plain⟩ | ⟨marker, isMarker, escape⟩
    · rw [plain, List.mem_singleton] at within
      exact notEscapable (within ▸ isEscapable)
    · rw [escape, List.mem_cons, List.mem_singleton] at within
      rcases within with rfl | rfl
      · exact notBackslash rfl
      · exact notMarker isMarker
  simp [encode, notQuote, notWritten]

/-- A byte that is escaped and differs from the backslash stands only behind a
backslash that itself is not escaped. -/
theorem exists_escape {byte : UInt8} (isEscapable : byte ∈ escapable)
    (notBackslash : byte ≠ '\\'.toUInt8) {value before behind : Bytes}
    (split : value.flatMap encodeByte = before ++ byte :: behind) :
    ∃ body ∈ unit∗, before = body ++ ['\\'.toUInt8] := by
  induction value generalizing before with
  | nil => simp at split
  | cons other value ih =>
      have continued {rest : Bytes} (later : value.flatMap encodeByte = rest ++ byte :: behind) :
          ∃ body ∈ unit∗, encodeByte other ++ rest = body ++ ['\\'.toUInt8] := by
        obtain ⟨body, units, rfl⟩ := ih later
        obtain ⟨earlier, rfl⟩ := mem_kstar_unit_iff.mp units
        refine ⟨encodeByte other ++ earlier.flatMap encodeByte, ?_, (List.append_assoc ..).symm⟩
        exact mem_kstar_unit_iff.mpr ⟨other :: earlier, List.flatMap_cons.symm⟩
      rw [List.flatMap_cons] at split
      rcases encodeByte_cases other with ⟨notEscapable, plain⟩ | ⟨marker, isMarker, escape⟩
      · rw [plain] at split continued
        cases before with
        | nil => exact absurd ((List.cons.inj split).1 ▸ isEscapable) notEscapable
        | cons first rest =>
            obtain ⟨rfl, later⟩ := List.cons.inj split
            exact continued later
      · rw [escape] at split continued
        match before, split with
        | [], split => exact absurd (List.cons.inj split).1.symm notBackslash
        | [_], split =>
            rw [← (List.cons.inj split).1]
            exact ⟨[], Language.nil_mem_kstar unit, rfl⟩
        | _ :: _ :: _, split =>
            obtain ⟨rfl, inner⟩ := List.cons.inj split
            obtain ⟨rfl, later⟩ := List.cons.inj inner
            exact continued later

end Literal

open Literal

/-- The literals that are written for values are the words of the form.  Each is
written for one value only, which is that of the single string token that is read
from it.  No control character that is escaped stands in it, and no quote does
between its own two without an escaping backslash. -/
theorem literal_form (literal : Bytes) :
    ((∃ value, literal = encode value) ↔ literal ∈ form) ∧
    (literal ∈ form →
      (∃ value, literal = encode value ∧ (∀ other, literal = encode other → other = value) ∧
        ∀ config, (Lexer.start literal config).tokenize.answer =
          [{ kind := .string, value, offset := 0 }, Token.bare .endOfInput literal.length]) ∧
      (∀ byte ∈ ([0x00, 0x08, '\t'.toUInt8, '\n'.toUInt8, '\r'.toUInt8, 0x1A] : Bytes),
        byte ∉ literal) ∧
      ∀ quote ∈ ['\''.toUInt8, '"'.toUInt8], ∀ before behind,
        literal = '\''.toUInt8 :: (before ++ quote :: (behind ++ ['\''.toUInt8])) →
          ∃ body ∈ unit∗, before = body ++ ['\\'.toUInt8]) := by
  refine ⟨mem_form_iff.symm, fun inForm => ?_⟩
  obtain ⟨value, rfl⟩ := mem_form_iff.mp inForm
  refine ⟨⟨value, rfl, fun other same => (encode_injective same).symm, ?_⟩, ?_, ?_⟩
  · intro config
    rw [Lexer.answer_tokenize, ofBytes_encode]
    rfl
  · intro byte control
    have controls : ([0x00, 0x08, '\t'.toUInt8, '\n'.toUInt8, '\r'.toUInt8, 0x1A] : Bytes).all
        (fun byte => escapable.contains byte && !markers.contains byte) = true := by decide
    have both := List.all_eq_true.mp controls byte control
    rw [Bool.and_eq_true, Bool.not_eq_true'] at both
    exact not_mem_encode (List.contains_iff_mem.mp both.1) (by simpa using both.2) value
  · intro quote isQuote before behind split
    have quotes : ['\''.toUInt8, '"'.toUInt8].all
        (fun quote => escapable.contains quote && quote != '\\'.toUInt8) = true := by decide
    have both := List.all_eq_true.mp quotes quote isQuote
    rw [Bool.and_eq_true, bne_iff_ne] at both
    have inside : value.flatMap encodeByte = before ++ quote :: behind := by
      have withClosing := (List.cons.inj split).2
      rw [← List.cons_append, ← List.append_assoc] at withClosing
      exact (List.append_inj' withClosing rfl).1
    exact exists_escape (List.contains_iff_mem.mp both.1) both.2 inside

/-- A run of backslashes in front of a quote and of a marker.  A doubled quote spells
the same byte as an escaped one, but is never written. -/
theorem literal_form_backslashes :
    let literal := ascii "'\\\\\\'\\n'"
    literal ∈ form ∧
      (∀ config, (Lexer.start literal config).tokenize.answer =
        [{ kind := .string, value := ascii "\\'\n", offset := 0 },
          Token.bare .endOfInput literal.length]) ∧
      (∃ body ∈ unit∗, ascii "\\\\\\" = body ++ ['\\'.toUInt8]) ∧ ascii "'it''s'" ∉ form := by
  intro literal
  have inForm : literal ∈ form := (literal_form literal).1.mp ⟨ascii "\\'\n", by decide⟩
  obtain ⟨⟨value, _, unique, tokens⟩, _, quotes⟩ := (literal_form literal).2 inForm
  have isValue : ascii "\\'\n" = value := unique _ (by decide)
  have escaping := quotes '\''.toUInt8 (by decide) (ascii "\\\\\\") (ascii "\\n") (by decide)
  have notInForm : ascii "'it''s'" ∉ form := by
    intro doubled
    obtain ⟨_, _, quotes⟩ := (literal_form _).2 doubled
    obtain ⟨body, _, same⟩ := quotes '\''.toUInt8 (by decide) (ascii "it") (ascii "'s") (by decide)
    have last := congrArg List.getLast? same
    rw [List.getLast?_concat] at last
    exact absurd last (by decide)
  rw [← isValue] at tokens
  exact ⟨inForm, tokens, escaping, notInForm⟩

end SqlLexer
