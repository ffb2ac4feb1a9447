import SqlLexer.Proofs.Pull
import SqlLexer.Proofs.Spelling
import SqlLexer.Proofs.TokenStream

/-!
# Tokens tile their input

A lexer always stands at a place of its input, with the bytes behind that place
unread.  A scan from there skips blanks and takes the span of one token, which
spells the token; it stops where the next scan begins.  No byte is therefore
lost between two tokens, and none is read twice.
-/

namespace SqlLexer

/-- A token read from the input between two positions: blanks, and behind them
the span of the token. -/
structure Token.Tiles (token : Token) (input : Bytes) (start stop : Nat) : Prop where
  start_le : start ≤ token.offset
  offset_lt : token.offset < stop
  stop_le : stop ≤ input.length
  gap : AllBlank (input.extract start token.offset)
  front : ∃ first, input[token.offset]? = some first ∧ Byte.isBlank first = false
  spells : token.kind.Spells token.value (input.extract token.offset stop) input[stop]?

namespace Lexer

/-- The unread bytes are those of the input from the position on. -/
def StandsIn (input : Bytes) (lexer : Lexer) : Prop :=
  ∃ read, input = read ++ lexer.cursor.rest ∧ lexer.position = read.length

theorem StandsIn.rest_eq {input : Bytes} {lexer : Lexer} (stands : lexer.StandsIn input) :
    lexer.cursor.rest = input.drop lexer.position := by
  obtain ⟨read, whole, reached⟩ := stands
  rw [reached, whole, List.drop_left]

theorem standsIn_scan {input : Bytes} {lexer : Lexer} (stands : lexer.StandsIn input) :
    lexer.scan.2.StandsIn input := by
  obtain ⟨read, whole, reached⟩ := stands
  cases running : lexer.isStopped with
  | true =>
      rw [scan_stopped running]
      exact ⟨read, whole, reached⟩
  | false =>
      rcases allBlank_or_reads lexer.cursor.rest with
        blank | ⟨gap, span, rest, lexeme, unread, gapBlank, reads⟩
      · rw [scan_of_allBlank running blank]
        refine ⟨input, (List.append_nil input).symm, ?_⟩
        rw [whole, List.length_append, ← reached]
        rfl
      · rw [scan_of_reads running unread gapBlank reads]
        refine ⟨read ++ gap ++ span, ?_, ?_⟩
        · rw [whole, unread]
          simp only [List.append_assoc]
        · simp only [List.length_append, ← reached]
          rfl

theorem invariant_standsIn (input : Bytes) : Invariant (StandsIn input) where
  scan _ stands := standsIn_scan stands
  handOut _ _ stands := stands
  forceEnd _ stands := stands
  setAllowComments _ _ stands := stands
  recordError _ _ stands := stands
  putResult _ _ stands := stands
  takeResult lexer expected stands := by
    obtain ⟨result, taken⟩ := lexer.takeResult_eq expected
    rw [taken]
    exact stands

theorem standsIn_start (input : Bytes) (config : Config) :
    (start input config).StandsIn input :=
  ⟨[], rfl, rfl⟩

theorem StandsIn.position_le {input : Bytes} {lexer : Lexer} (stands : lexer.StandsIn input) :
    lexer.position ≤ input.length := by
  obtain ⟨read, whole, reached⟩ := stands
  rw [whole, reached, List.length_append]
  exact Nat.le_add_right _ _

end Lexer

theorem Lexeme.Reads.spells {lexeme : Lexeme} {span rest : Bytes}
    (reads : lexeme.Reads span rest) :
    lexeme.kind.Spells lexeme.value span rest.head? := by
  cases reads with
  | @front first tail _ _ exactly =>
      have spellsFront := spellsFront_ofFront first (tail ++ rest)
      generalize ofFront first (tail ++ rest) = lexeme at exactly spellsFront
      generalize whole : first :: (tail ++ rest) = input at spellsFront
      cases spellsFront with
      | front span after measured spells =>
          have sameLength : (first :: tail).length = span.length := exactly.symm.trans measured
          obtain ⟨rfl, rfl⟩ : first :: tail = span ∧ rest = after :=
            List.append_inj whole sameLength
          exact spells

theorem extract_append (before middle behind : Bytes) :
    (before ++ (middle ++ behind)).extract before.length (before.length + middle.length) =
      middle := by
  rw [List.extract_eq_take_drop, List.drop_left, Nat.add_sub_cancel_left, List.take_left]

/-- The span of a lexeme, behind what was read and a gap, makes a tile. -/
theorem Lexeme.Reads.tiles {lexeme : Lexeme} {read gap span rest : Bytes}
    (reads : lexeme.Reads span rest) (blank : AllBlank gap) :
    (lexeme.toToken (read.length + gap.length)).Tiles
      (read ++ (gap ++ (span ++ rest))) read.length
      (read.length + gap.length + span.length) := by
  have taken := List.length_pos_iff.mpr reads.span_ne_nil
  have regrouped : read ++ (gap ++ (span ++ rest)) = (read ++ gap) ++ (span ++ rest) := by
    rw [List.append_assoc]
  have measured : (read ++ gap).length = read.length + gap.length := List.length_append
  refine ⟨Nat.le_add_right _ _, by simp only [toToken]; omega, ?_, ?_, ?_, ?_⟩
  · simp only [List.length_append]
    omega
  · simp only [toToken, extract_append]
    exact blank
  · simp only [toToken, regrouped, ← measured]
    rw [List.getElem?_append_right (Nat.le_refl _), Nat.sub_self]
    cases reads with
    | front notBlank _ => exact ⟨_, rfl, notBlank⟩
  · have spanned : (read ++ (gap ++ (span ++ rest))).extract (read.length + gap.length)
        (read.length + gap.length + span.length) = span := by
      rw [regrouped, ← measured, extract_append]
    have behind : (read ++ (gap ++ (span ++ rest)))[read.length + gap.length + span.length]? =
        rest.head? := by
      rw [regrouped, ← measured, ← List.append_assoc, ← List.length_append,
        List.getElem?_append_right (Nat.le_refl _), Nat.sub_self, List.head?_eq_getElem?]
    simp only [toToken, spanned, behind]
    exact reads.spells

namespace Lexer

variable {input : Bytes} {lexer : Lexer}

theorem scan_at {place : Nat} {first : UInt8} (stands : lexer.StandsIn input)
    (running : lexer.isStopped = false) (ahead : lexer.position ≤ place)
    (blank : AllBlank (input.extract lexer.position place))
    (front : input[place]? = some first) (notBlank : Byte.isBlank first = false) :
    lexer.scan =
      (let lexeme := Lexeme.ofFront first (input.drop (place + 1))
       let token := lexeme.toToken place
       let stop := place + lexeme.width
       (token,
        { lexer with
          cursor := { rest := input.drop stop, position := stop }
          placeholders := lexer.placeholders + if token.isPlaceholder then 1 else 0 })) := by
  obtain ⟨inside, found⟩ := List.getElem?_eq_some_iff.mp front
  have behind : input.drop place = first :: input.drop (place + 1) := by
    rw [List.drop_eq_getElem_cons inside, found]
  have distance : lexer.position + (place - lexer.position) = place := Nat.add_sub_cancel' ahead
  have unread : lexer.cursor.rest =
      input.extract lexer.position place ++ first :: input.drop (place + 1) := by
    have split := List.take_append_drop (place - lexer.position) (input.drop lexer.position)
    rw [List.drop_drop, distance, behind] at split
    rw [stands.rest_eq, List.extract_eq_take_drop, split]
  have arrived : lexer.cursor.position + (input.extract lexer.position place).length = place := by
    rw [List.extract_eq_take_drop, List.length_take, List.length_drop,
      Nat.min_eq_left (by omega)]
    exact distance
  have skipped := Cursor.skipBlanks_append unread blank
    (List.takeWhile_cons_of_neg (by simp [notBlank]))
  rw [arrived] at skipped
  rw [scan_front running (congrArg Cursor.rest skipped), skipped]
  simp only [Cursor.advance, ← behind, List.drop_drop]

theorem tiles_scan (stands : lexer.StandsIn input) (running : lexer.isStopped = false)
    (notEnd : lexer.scan.1.isEnd = false) :
    lexer.scan.1.Tiles input lexer.position lexer.scan.2.position := by
  obtain ⟨read, whole, reached⟩ := stands
  rcases allBlank_or_reads lexer.cursor.rest with
    blank | ⟨gap, span, rest, lexeme, unread, gapBlank, reads⟩
  · rw [scan_of_allBlank running blank] at notEnd
    cases notEnd
  · rw [scan_of_reads running unread gapBlank reads, whole, unread, reached]
    exact reads.tiles gapBlank

theorem allBlank_of_isEnd_scan (stands : lexer.StandsIn input)
    (running : lexer.isStopped = false) (isEnd : lexer.scan.1.isEnd = true) :
    AllBlank (input.drop lexer.position) ∧
      lexer.scan.1.offset = input.length ∧ lexer.scan.2.position = input.length := by
  obtain ⟨read, whole, reached⟩ := stands
  rcases allBlank_or_reads lexer.cursor.rest with
    blank | ⟨gap, span, rest, lexeme, unread, gapBlank, reads⟩
  · have measured : lexer.position + lexer.remaining = input.length := by
      rw [whole, List.length_append, reached]
      rfl
    rw [scan_of_allBlank running blank]
    refine ⟨?_, measured, measured⟩
    rw [whole, reached, List.drop_left]
    exact blank
  · rw [scan_of_reads running unread gapBlank reads] at isEnd
    simp [Token.isEnd, Lexeme.toToken, reads.kind_ne] at isEnd

end Lexer

/-- A scan that is not stopped tiles the input from the position on, in every
state that a session can reach.  At the end only blanks are left. -/
theorem scan_tiles_input (input : Bytes) (config : Config) (commands : List Command)
    (running : ((Lexer.start input config).after commands).isStopped = false) :
    let lexer := (Lexer.start input config).after commands
    (lexer.scan.1.isEnd = false →
        lexer.scan.1.Tiles input lexer.position lexer.scan.2.position) ∧
      (lexer.scan.1.isEnd = true →
        AllBlank (input.drop lexer.position) ∧
          lexer.scan.1.offset = input.length ∧ lexer.scan.2.position = input.length) := by
  intro lexer
  have stands : lexer.StandsIn input :=
    (Lexer.invariant_standsIn input).after commands (Lexer.standsIn_start input config)
  exact ⟨Lexer.tiles_scan stands running, Lexer.allBlank_of_isEnd_scan stands running⟩

/-- A literal with a doubled quote and an escape, behind a comment that was read. -/
theorem scan_tiles_input_behind_comment :
    let input := ascii "/* ' */ 'it''s \\n' <= 1"
    let commands : List Command := [.setAllowComments true, .scan, .recordError "near"]
    let lexer := (Lexer.start input .default).after commands
    lexer.isStopped = false ∧ lexer.scan.1.isEnd = false ∧
      lexer.scan.1 = { kind := .string, value := ascii "it's \n", offset := 8 } ∧
      lexer.scan.1.Tiles input lexer.position lexer.scan.2.position := by
  intro input commands lexer
  have running : lexer.isStopped = false := by decide
  have notEnd : lexer.scan.1.isEnd = false := by decide
  have tiles := (scan_tiles_input input .default commands running).1 notEnd
  exact ⟨running, notEnd, by decide, tiles⟩

end SqlLexer
