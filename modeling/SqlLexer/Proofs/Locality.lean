import SqlLexer.Proofs.TokenStream

/-!
# What a scan can see

A scan sees the bytes that it takes and the one behind them.  Text that is added
behind that byte changes no token before it, and a scan from any state gives the
same token, and leaves the same state, for all unread texts that agree so far.
-/

namespace SqlLexer

open TokenStream

/-- Of the text behind a lexeme only the first byte matters, or that there is none. -/
theorem Lexeme.Reads.of_head?_eq {lexeme : Lexeme} {span rest other : Bytes}
    (reads : lexeme.Reads span rest) (sameNext : other.head? = rest.head?) :
    lexeme.Reads span other := by
  cases rest with
  | nil =>
      rw [List.head?_eq_none_iff.mp sameNext]
      exact reads
  | cons next more =>
      obtain ⟨others, rfl⟩ := List.head?_eq_some_iff.mp sameNext
      exact reads.swap others

/-- An entry that ends before the text does is found at its index in every
longer text. -/
theorem TokenStream.getElem?_ofBytes_append {input : Bytes} {index : Nat} {entry : Entry}
    (found : (ofBytes input).proper[index]? = some entry) (inside : entry.stop < input.length)
    (more : Bytes) :
    (ofBytes (input ++ more)).proper[index]? = some entry := by
  induction input using front_induction generalizing index entry with
  | blank input blank =>
      rw [ofBytes_of_allBlank blank] at found
      cases found
  | front gap span rest lexeme blank reads ih =>
      have regrouped : gap ++ (span ++ rest) ++ more = gap ++ (span ++ (rest ++ more)) := by
        simp only [List.append_assoc]
      have unfolded (seen : rest.length ≠ 0) :
          ofBytes (gap ++ (span ++ (rest ++ more))) =
            ((ofBytes (rest ++ more)).shift (gap.length + span.length)).push
              { token := lexeme.toToken gap.length, stop := gap.length + span.length } := by
        have sameNext : (rest ++ more).head? = rest.head? := by
          cases rest with
          | nil => exact absurd rfl seen
          | cons next others => rfl
        exact ofBytes_of_reads blank (reads.of_head?_eq sameNext)
      rw [ofBytes_of_reads blank reads] at found
      rw [List.length_append, List.length_append] at inside
      rw [regrouped]
      cases index with
      | zero =>
          cases found
          rw [unfolded (by simp only at inside; omega)]
          rfl
      | succ index =>
          obtain ⟨inner, innerFound, rfl⟩ := Option.map_eq_some_iff.mp
            ((List.getElem?_map ..).symm.trans found)
          have innerInside : inner.stop < rest.length := by
            simp only [Entry.shift] at inside
            omega
          rw [unfolded (by omega)]
          exact (List.getElem?_map ..).trans
            (congrArg _ (ih innerFound innerInside))

theorem exists_append_of_take_eq {taken rest other : Bytes}
    (agree : other.take (taken.length + 1) = (taken ++ rest).take (taken.length + 1)) :
    ∃ behind, other = taken ++ behind ∧ behind.head? = rest.head? := by
  have front : other.take taken.length = taken := by
    have shorter := congrArg (List.take taken.length) agree
    rw [List.take_take, List.take_take, Nat.min_eq_left (Nat.le_succ _), List.take_left] at shorter
    exact shorter
  have next : other[taken.length]? = rest.head? := by
    have behind := congrArg (·[taken.length]?) agree
    simp only [List.getElem?_take_of_lt (Nat.lt_succ_self taken.length)] at behind
    rw [behind, List.getElem?_append_right (Nat.le_refl _), Nat.sub_self, List.head?_eq_getElem?]
  refine ⟨other.drop taken.length, ?_, ?_⟩
  · have split := List.take_append_drop taken.length other
    rw [front] at split
    exact split.symm
  · rw [List.head?_drop, next]

namespace Lexer

/-- The same lexer with other text ahead of it. -/
def withRest (lexer : Lexer) (rest : Bytes) : Lexer :=
  { lexer with cursor := { lexer.cursor with rest } }

/-- How many bytes the next scan takes, blanks included. -/
def scanWidth (lexer : Lexer) : Nat :=
  lexer.scan.2.position - lexer.position

theorem scan_withRest (lexer : Lexer) {other : Bytes}
    (agree : other.take (lexer.scanWidth + 1) = lexer.cursor.rest.take (lexer.scanWidth + 1)) :
    (lexer.withRest other).scan =
      (lexer.scan.1, lexer.scan.2.withRest (other.drop lexer.scanWidth)) := by
  cases running : lexer.isStopped with
  | true =>
      have stopped : (lexer.withRest other).isStopped = true := running
      have nothing : lexer.scanWidth = 0 := by
        rw [scanWidth, scan_stopped running, Nat.sub_self]
      rw [nothing, scan_stopped running, scan_stopped stopped]
      rfl
  | false =>
      have otherRunning : (lexer.withRest other).isStopped = false := running
      rcases allBlank_or_reads lexer.cursor.rest with
        blank | ⟨gap, span, rest, lexeme, unread, gapBlank, reads⟩
      · have scanned := scan_of_allBlank running blank
        have all : lexer.scanWidth = lexer.cursor.rest.length := by
          rw [scanWidth, scanned]
          exact Nat.add_sub_cancel_left _ _
        have same : other = lexer.cursor.rest := by
          have agreeToEnd : other.take (lexer.cursor.rest.length + 1) =
              (lexer.cursor.rest ++ []).take (lexer.cursor.rest.length + 1) := by
            rw [List.append_nil, ← all]
            exact agree
          obtain ⟨behind, whole, atEnd⟩ := exists_append_of_take_eq agreeToEnd
          rw [whole, List.head?_eq_none_iff.mp atEnd, List.append_nil]
        rw [same, all, List.drop_length]
        change lexer.scan = _
        rw [scanned]
        rfl
      · have scanned := scan_of_reads running unread gapBlank reads
        have width : lexer.scanWidth = (gap ++ span).length := by
          rw [scanWidth, scanned, List.length_append, Nat.add_assoc]
          exact Nat.add_sub_cancel_left _ _
        rw [width, unread, ← List.append_assoc] at agree
        obtain ⟨behind, rfl, sameNext⟩ := exists_append_of_take_eq agree
        have otherUnread : (lexer.withRest (gap ++ span ++ behind)).cursor.rest =
            gap ++ (span ++ behind) :=
          List.append_assoc gap span behind
        rw [scan_of_reads otherRunning otherUnread gapBlank (reads.of_head?_eq sameNext), scanned,
          width, List.drop_left]
        rfl

end Lexer

/-- One byte of lookahead.  Every token of a text that ends before the text does
is a token of every longer text, at the same index and with the same places; and
what a scan gives and leaves behind depends on no byte beyond the one that
follows what it takes. -/
theorem one_byte_lookahead :
    (∀ (input more : Bytes) (index : Nat) (entry : Entry),
      (ofBytes input).proper[index]? = some entry → entry.stop < input.length →
        (ofBytes (input ++ more)).proper[index]? = some entry) ∧
    ∀ (lexer : Lexer) (other : Bytes),
      other.take (lexer.scanWidth + 1) = lexer.cursor.rest.take (lexer.scanWidth + 1) →
        (lexer.withRest other).scan =
          (lexer.scan.1, lexer.scan.2.withRest (other.drop lexer.scanWidth)) :=
  ⟨fun _ more _ _ found inside => getElem?_ofBytes_append found inside more,
    fun lexer _ agree => lexer.scan_withRest agree⟩

/-- An exponent without digits is passed by one byte only, so that the number
stays; the operator at the end of the text has no byte behind it, and changes. -/
theorem one_byte_lookahead_exponent :
    let input := ascii "? 1e+ <="
    let more := ascii "> 2"
    let entry : Entry :=
      { token := { kind := .number, value := ascii "1e+", offset := 2 }, stop := 5 }
    (ofBytes input).proper[1]? = some entry ∧ entry.stop < input.length ∧
      (ofBytes (input ++ more)).proper[1]? = some entry ∧
      (ofBytes (input ++ more)).proper[2]? ≠ (ofBytes input).proper[2]? ∧
      (let lexer := (Lexer.start input .default).scan.2
       let other := ascii " 1e+ -- ;"
       other.take (lexer.scanWidth + 1) = lexer.cursor.rest.take (lexer.scanWidth + 1) ∧
         (lexer.withRest other).scan =
           (lexer.scan.1, lexer.scan.2.withRest (other.drop lexer.scanWidth))) := by
  intro input more entry
  have found : (ofBytes input).proper[1]? = some entry := by decide +kernel
  have inside : entry.stop < input.length := by decide
  have changed : (ofBytes (input ++ more)).proper[2]? ≠ (ofBytes input).proper[2]? := by
    decide +kernel
  refine ⟨found, inside, one_byte_lookahead.1 input more 1 entry found inside, changed, ?_⟩
  intro lexer other
  have agree : other.take (lexer.scanWidth + 1) =
      lexer.cursor.rest.take (lexer.scanWidth + 1) := by decide +kernel
  exact ⟨agree, one_byte_lookahead.2 lexer other agree⟩

end SqlLexer
