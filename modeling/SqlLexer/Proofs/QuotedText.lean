import SqlLexer.Proofs.Lookahead

/-!
# The grammar of quoted text

Text between quotes is a sequence of units, each with a meaning of one byte: a
byte for itself, a doubled quote, or a backslash with the byte behind it.
`Splits` says how an input falls into such units and what ends them.  Reading
finds a split of every input, and the only one there is.
-/

namespace SqlLexer.QuotedText

/-- A sequence of units, and the concatenation of their meanings. -/
inductive Units (quote : UInt8) : Bytes → Bytes → Prop where
  | nil : Units quote [] []
  | plain {byte : UInt8} {body value : Bytes} :
      byte ≠ quote → byte ≠ Byte.backslash →
      Units quote body value → Units quote (byte :: body) (byte :: value)
  | doubled {body value : Bytes} :
      Units quote body value → Units quote (quote :: quote :: body) (quote :: value)
  | escaped {body value : Bytes} (marker : UInt8) :
      Units quote body value →
      Units quote (Byte.backslash :: marker :: body) (Escape.meaning marker :: value)

/-- The units that follow an opening quote, and what ends them: the closing
quote, the end of the input, or a backslash with nothing behind it. -/
inductive Splits (quote : UInt8) : Bytes → QuotedText → Prop where
  | closed {body value rest : Bytes} :
      Units quote body value → ¬rest.head? = some quote →
      Splits quote (body ++ quote :: rest)
        { value, width := body.length + 1, closed := true }
  | unclosed {body value : Bytes} :
      Units quote body value →
      Splits quote body { value, width := body.length, closed := false }
  | loneEscape {body value : Bytes} :
      Units quote body value →
      Splits quote (body ++ [Byte.backslash])
        { value, width := body.length + 1, closed := false }

namespace Splits

variable {quote : UInt8} {input : Bytes} {text : QuotedText}

private theorem unit (spelling : Bytes) {meaning : UInt8}
    (prolong : ∀ body value, Units quote body value →
      Units quote (spelling ++ body) (meaning :: value))
    (splits : Splits quote input text) :
    Splits quote (spelling ++ input) (text.prepend meaning spelling.length) := by
  have longer : ∀ size : Nat, spelling.length + (size + 1) = spelling.length + size + 1 :=
    fun size => (Nat.add_assoc _ _ _).symm
  cases splits with
  | closed units single =>
      have extended := Splits.closed (prolong _ _ units) single
      rw [List.length_append] at extended
      simpa only [prepend, longer, List.append_assoc] using extended
  | unclosed units =>
      have extended := Splits.unclosed (prolong _ _ units)
      rw [List.length_append] at extended
      exact extended
  | loneEscape units =>
      have extended := Splits.loneEscape (prolong _ _ units)
      rw [List.length_append] at extended
      simpa only [prepend, longer, List.append_assoc] using extended

theorem plain {byte : UInt8} (notQuote : byte ≠ quote) (notEscape : byte ≠ Byte.backslash)
    (splits : Splits quote input text) :
    Splits quote (byte :: input) (text.prepend byte 1) :=
  splits.unit [byte] fun _ _ units => .plain notQuote notEscape units

theorem doubled (splits : Splits quote input text) :
    Splits quote (quote :: quote :: input) (text.prepend quote 2) :=
  splits.unit [quote, quote] fun _ _ units => .doubled units

theorem escaped (marker : UInt8) (splits : Splits quote input text) :
    Splits quote (Byte.backslash :: marker :: input)
      (text.prepend (Escape.meaning marker) 2) :=
  splits.unit [Byte.backslash, marker] fun _ _ units => .escaped marker units

end Splits

/-- Reading splits its input, whatever that is. -/
theorem splits_read (quote : UInt8) (input : Bytes) :
    Splits quote input (read quote input) := by
  fun_induction read quote input with
  | case1 => exact .unclosed .nil
  | case2 byte isQuote =>
      cases eq_of_beq isQuote
      exact @Splits.closed quote [] [] [] .nil (by simp)
  | case3 byte notQuote isEscape =>
      cases eq_of_beq isEscape
      exact @Splits.loneEscape quote [] [] .nil
  | case4 byte notQuote notEscape =>
      exact .unclosed (.plain (by simpa using notQuote) (by simpa using notEscape) .nil)
  | case5 byte next rest isQuote isDoubled ih =>
      cases eq_of_beq isQuote
      cases eq_of_beq isDoubled
      exact ih.doubled
  | case6 byte next rest isQuote notDoubled =>
      cases eq_of_beq isQuote
      exact @Splits.closed quote [] [] (next :: rest) .nil (by simpa using notDoubled)
  | case7 byte next rest notQuote isEscape ih =>
      cases eq_of_beq isEscape
      exact ih.escaped next
  | case8 byte next rest notQuote notEscape ih =>
      exact ih.plain (by simpa using notQuote) (by simpa using notEscape)

private theorem prepend_append (byte : UInt8) (spelled width : Nat) (value : Bytes)
    (text : QuotedText) :
    prepend byte spelled
        { value := value ++ text.value, width := width + text.width, closed := text.closed } =
      { value := byte :: value ++ text.value
        width := width + spelled + text.width
        closed := text.closed } := by
  simp only [prepend, List.cons_append]
  congr 1
  omega

theorem read_units_append {quote : UInt8} {body value : Bytes}
    (notEscape : quote ≠ Byte.backslash) (units : Units quote body value) (rest : Bytes) :
    read quote (body ++ rest) =
      { value := value ++ (read quote rest).value
        width := body.length + (read quote rest).width
        closed := (read quote rest).closed } := by
  induction units with
  | nil => simp
  | plain notQuote notBackslash units ih =>
      rw [List.cons_append, read_plain (by simpa using notQuote) (by simpa using notBackslash),
        ih, prepend_append]
      rfl
  | doubled units ih =>
      rw [List.cons_append, List.cons_append, read_doubled, ih, prepend_append]
      rfl
  | escaped marker units ih =>
      have different : (Byte.backslash == quote) = false := by
        simpa using notEscape.symm
      rw [List.cons_append, List.cons_append, read_escaped different, ih, prepend_append]
      rfl

/-- A split is what reading finds, so there is at most one. -/
theorem read_of_splits {quote : UInt8} {input : Bytes} {text : QuotedText}
    (notEscape : quote ≠ Byte.backslash) (splits : Splits quote input text) :
    read quote input = text := by
  cases splits with
  | closed units single =>
      rw [read_units_append notEscape units, read_closing single, List.append_nil]
  | unclosed units =>
      have through := read_units_append notEscape units []
      rw [List.append_nil] at through
      rw [through]
      simp [read]
  | loneEscape units =>
      rw [read_units_append notEscape units]
      simp [read, notEscape.symm]

end SqlLexer.QuotedText
