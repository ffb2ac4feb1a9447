import SqlLexer.Bundled
import SqlLexer.Proofs.HandedOut
import SqlLexer.Proofs.KindCodes
import SqlLexer.Proofs.Rows

/-!
# The verdict of a run

A run of the program lists all tokens and then looks for the first invalid one among
them, while strict tokenizing stops at it.  Both find the same one, because comments
alone are withheld and a comment is never invalid.  So the exit code and the report
depend on the text, but on nothing that is said about how it is to be shown.
-/

namespace SqlLexer

open TokenStream

/-! ## The first invalid token under any settings -/

theorem Token.isInvalid_of_isSkippable {token : Token}
    (skippable : token.kind.isSkippable = true) : token.isInvalid = false := by
  rw [Kind.isSkippable, beq_iff_eq] at skippable
  rw [isInvalid, skippable]
  rfl

namespace Lexer

theorem answer_tokenize_filter (input : Bytes) (config : Config) :
    (start input config).tokenize.answer =
      ((ofBytes input).entries.map Entry.token).filter fun token =>
        !(token.kind.isSkippable && !config.allowComments) := by
  rw [answer_tokenize, List.filter_map]
  rfl

/-- No invalid token is withheld. -/
theorem find?_isInvalid_tokenize (input : Bytes) (config : Config) :
    (start input config).tokenize.answer.find? Token.isInvalid =
      ((ofBytes input).entries.map Entry.token).find? Token.isInvalid := by
  have shown (token : Token) :
      (!(token.kind.isSkippable && !config.allowComments) && token.isInvalid) =
        token.isInvalid := by
    cases skippable : token.kind.isSkippable with
    | true => rw [Token.isInvalid_of_isSkippable skippable, Bool.and_false]
    | false => rw [Bool.false_and, Bool.not_false, Bool.true_and]
  rw [answer_tokenize_filter, List.find?_filter]
  simp only [Bool.decide_and, Bool.decide_eq_true, shown]

/-- Strict tokenizing stops at the first invalid token of the listing, whatever the
settings of either. -/
theorem answer_tokenizeStrict_start (input : Bytes) (config other : Config) :
    (start input config).tokenizeStrict.answer =
      match (start input other).tokenize.answer.find? Token.isInvalid with
      | some token => .error (invalidTokenError token)
      | none => .ok (start input config).tokenize.answer := by
  have shown : (start input config).shownTokens = (start input config).tokenize.answer :=
    (answer_tokenize_shown _).symm
  have strict := answer_tokenizeStrict (start input config)
  rw [shown, find?_isInvalid_tokenize, ← find?_isInvalid_tokenize input other] at strict
  exact strict

theorem kind_getLast?_tokenize (input : Bytes) (config : Config) :
    (start input config).tokenize.answer.getLast?.map Token.kind = some .endOfInput := by
  have shown : [(ofBytes input).final.token].filter (fun token =>
      !(token.kind.isSkippable && !config.allowComments)) = [(ofBytes input).final.token] := by
    rw [List.filter_singleton, kind_final]
    rfl
  rw [answer_tokenize_filter, entries, List.map_append, List.filter_append, List.map_singleton,
    shown, List.getLast?_concat, Option.map_some, kind_final]

end Lexer

theorem TokenStream.kind_mem_coded_of_mem {input : Bytes} {entry : Entry}
    (member : entry ∈ (ofBytes input).entries) : entry.token.kind ∈ Kind.coded := by
  rcases List.mem_append.mp member with isProper | isFinal
  · cases isReadIn_of_mem isProper with
    | reads reads =>
        cases reads with
        | front _ _ => exact Lexeme.kind_mem_coded _ _
  · rw [List.mem_singleton.mp isFinal, kind_final]
    exact Kind.named_mem_coded (by decide)

/-- A token of a text has the code of a listed kind only if it is of this kind. -/
theorem TokenStream.code_eq_iff {input : Bytes} {token : Token} {kind : Kind}
    (member : token ∈ (ofBytes input).entries.map Entry.token) (listed : kind ∈ Kind.coded) :
    token.code = kind.code ↔ token.kind = kind := by
  obtain ⟨entry, entryMember, rfl⟩ := List.mem_map.mp member
  constructor
  · intro same
    have found := Kind.ofCode?_code (kind_mem_coded_of_mem entryMember)
    rw [← Token.code, same, Kind.ofCode?_code listed] at found
    exact (Option.some.inj found).symm
  · intro same
    rw [Token.code, same]

namespace CommandLine

/-- The outcome repeats the answer of strict tokenizing: it fails where that does, and
reports the same message and position. -/
def Outcome.Repeats (outcome : Outcome) (libraries : Libraries) :
    Except Error (List Token) → Prop
  | .ok _ => outcome.exitCode = 0 ∧ outcome.standardError libraries = ""
  | .error error => ∃ message position, error = .lexical message position ∧
      outcome.exitCode = 1 ∧
      outcome.standardError libraries = s!"Error: {message} at position {position}\n"

/-! ## Rows under other settings -/

variable {requote other : Bool} {config otherConfig closed allowing : Config} {input : Bytes}
  {rows otherRows fewer more : List Row}

/-- Where the same comments are shown, the rows differ in strings at most. -/
theorem Lists.differsInString (lists : Lists requote config input rows)
    (listsToo : Lists other otherConfig input otherRows)
    (same : otherConfig.allowComments = config.allowComments) :
    List.Forall₂ Row.DiffersInString rows otherRows := by
  cases lists_iff.mp lists
  cases lists_iff.mp listsToo
  rw [Lexer.answer_tokenize_filter, Lexer.answer_tokenize_filter, same,
    List.forall₂_map_left_iff, List.forall₂_map_right_iff, List.forall₂_same]
  intro token _
  exact (Row.shows_ofToken requote token).differsInString (Row.shows_ofToken other token)

/-- Not allowing comments takes their rows away, and no others. -/
theorem Lists.withoutComments (lists : Lists requote closed input fewer)
    (listsToo : Lists requote allowing input more)
    (isClosed : closed.allowComments = false) (allows : allowing.allowComments = true) :
    fewer = more.filter fun row => row.code != Kind.comment.code := by
  have isCoded : Kind.comment ∈ Kind.coded := Kind.named_mem_coded (by decide)
  have all : (Lexer.start input allowing).tokenize.answer =
      (ofBytes input).entries.map Entry.token := by
    rw [Lexer.answer_tokenize_filter, List.filter_eq_self]
    intro token _
    rw [allows, Bool.not_true, Bool.and_false, Bool.not_false]
  have others : (Lexer.start input closed).tokenize.answer =
      ((ofBytes input).entries.map Entry.token).filter fun token =>
        token.code != Kind.comment.code := by
    rw [Lexer.answer_tokenize_filter]
    apply List.filter_congr
    intro token member
    have sameCode := TokenStream.code_eq_iff member isCoded
    rw [isClosed, Bool.not_false, Bool.and_true, Kind.isSkippable, Bool.eq_iff_iff]
    simp only [Bool.not_eq_true', beq_eq_false_iff_ne, bne_iff_ne, ne_eq, sameCode]
  rw [← lists_iff.mp lists, ← lists_iff.mp listsToo, all, others]
  have ofRows := List.filter_map (f := Row.ofToken requote)
    (p := fun row => row.code != Kind.comment.code) (l := (ofBytes input).entries.map Entry.token)
  exact ofRows.symm

theorem Lists.kind_of_code (lists : Lists requote config input rows) {row : Row}
    (member : row ∈ rows) (isComment : row.code = Kind.comment.code) :
    row.kind = "COMMENTS" := by
  rw [← lists_iff.mp lists] at member
  obtain ⟨token, tokenMember, rfl⟩ := List.mem_map.mp member
  rw [Lexer.answer_tokenize_filter] at tokenMember
  have isComment := (TokenStream.code_eq_iff (List.mem_filter.mp tokenMember).1
    (Kind.named_mem_coded (by decide))).mp isComment
  rw [Row.ofToken, isComment]
  rfl

theorem Lists.kind_getLast? (lists : Lists requote config input rows) :
    rows.getLast?.map Row.kind = some "EOF" := by
  have last := congrArg (Option.map Kind.display) (Lexer.kind_getLast?_tokenize input config)
  rw [Option.map_map] at last
  rw [← lists_iff.mp lists, List.getLast?_map, Option.map_map]
  exact last

/-! ## What decides the verdict -/

variable {libraries : Libraries} {arguments : List String} {options : Options}
  {surroundings : Surroundings}

theorem Failure.message_invalidToken {token : Token} {message : String} {position : Nat}
    (isError : Lexer.invalidTokenError token = .lexical message position) :
    (invalidToken token).message = message ++ " at position " ++ toString position := by
  cases isError
  have closing : "' at position " = "'" ++ " at position " := by decide
  change "invalid token '" ++ token.text ++ "' at position " ++ toString (token.offset + 1) =
    "invalid token '" ++ token.text ++ "'" ++ " at position " ++ toString (token.offset + 1)
  rw [closing, ← String.append_assoc]

theorem exists_of_bind_eq_ok {ε α β : Type} {first : Except ε α} {next : α → Except ε β}
    {result : β} (succeeded : first >>= next = .ok result) :
    ∃ value, first = .ok value ∧ next value = .ok result := by
  cases first with
  | error fault => cases succeeded
  | ok value => exact ⟨value, rfl, succeeded⟩

theorem allowComments_of_settings {format : Config.DocumentFormat}
    (loaded : settings format options surroundings = .ok config)
    (asked : options.allowComments = true) : config.allowComments = true := by
  rw [settings] at loaded
  split at loaded
  all_goals
    obtain ⟨base, _, overridden⟩ := exists_of_bind_eq_ok loaded
    obtain ⟨overriding, _, flagged⟩ := exists_of_bind_eq_ok overridden
    cases flagged
    exact Bool.or_eq_true_iff.mpr (.inl asked)

/-- A listing shows the rows of all tokens. -/
theorem exists_rows_list
    (loaded : settings libraries.documentFormat options surroundings = .ok config)
    (given : statement options surroundings = .ok input) :
    ∃ rows, Lists options.requote config input rows ∧
      Prints libraries options.json rows (list libraries options surroundings).output := by
  refine ⟨_, lists_iff.mpr rfl, ?_⟩
  simp only [list, loaded, given]
  exact prints_listing libraries options.json _

theorem failure_list
    (loaded : settings libraries.documentFormat options surroundings = .ok config)
    (given : statement options surroundings = .ok input) :
    (list libraries options surroundings).failure =
      ((Lexer.start input config).tokenize.answer.find? Token.isInvalid).map .invalidToken := by
  simp only [list, loaded, given]

theorem repeats_list
    (loaded : settings libraries.documentFormat options surroundings = .ok config)
    (given : statement options surroundings = .ok input) (other : Config) :
    (list libraries options surroundings).Repeats libraries
      (Lexer.start input other).tokenizeStrict.answer := by
  have failure := failure_list loaded given
  rw [Lexer.answer_tokenizeStrict_start _ other config]
  cases found : (Lexer.start input config).tokenize.answer.find? Token.isInvalid with
  | none =>
      rw [found, Option.map_none] at failure
      refine ⟨?_, ?_⟩
      · rw [Outcome.exitCode, failure]
        rfl
      · rw [Outcome.standardError, failure]
  | some token =>
      rw [found, Option.map_some] at failure
      refine ⟨_, _, rfl, ?_, ?_⟩
      · rw [Outcome.exitCode, failure]
        rfl
      · rw [Outcome.standardError, failure]
        simp only [Failure.causes, libraries.report_alone, Failure.message_invalidToken rfl]
        rfl

/-- What strict tokenizing answers leaves no choice. -/
theorem Outcome.Repeats.unique {first second : Outcome} {answer : Except Error (List Token)}
    (repeats : first.Repeats libraries answer) (again : second.Repeats libraries answer) :
    first.exitCode = second.exitCode ∧
      first.standardError libraries = second.standardError libraries := by
  cases answer with
  | ok tokens => exact ⟨repeats.1.trans again.1.symm, repeats.2.trans again.2.symm⟩
  | error error =>
      obtain ⟨message, position, rfl, exitCode, report⟩ := repeats
      obtain ⟨_, _, same, otherExitCode, otherReport⟩ := again
      cases same
      exact ⟨exitCode.trans otherExitCode.symm, report.trans otherReport.symm⟩

theorem run_of_accepted (accepted : libraries.readArguments arguments = .ok options)
    (surroundings : Surroundings) :
    run libraries arguments surroundings = .ok (list libraries options surroundings) := by
  rw [run, accepted]
  rfl

/-- A run with usable arguments and settings prints a row for each token, through the
end, and repeats what strict tokenizing answers under any settings: it exits with 1
exactly if that fails, and reports its message and position.  Another run on the same
text, however the text is given and shown, has the same exit code and report.  Where both
show the same comments, their rows differ in the values of strings at most, and where
only the other one shows comments, it has the rows of these besides. -/
theorem run_repeats_strict (libraries : Libraries) {arguments : List String} {input : Bytes}
    (accepted : libraries.readArguments arguments = .ok options)
    (loaded : settings libraries.documentFormat options surroundings = .ok config)
    (given : statement options surroundings = .ok input) :
    ∃ outcome rows, run libraries arguments surroundings = .ok outcome ∧
      Lists options.requote config input rows ∧
      Prints libraries options.json rows outcome.output ∧
      rows.getLast?.map Row.kind = some "EOF" ∧
      (∀ other : Config,
        outcome.Repeats libraries (Lexer.start input other).tokenizeStrict.answer) ∧
      (options.allowComments = true → config.allowComments = true) ∧
      ∀ otherArguments otherOptions otherSurroundings otherConfig,
        libraries.readArguments otherArguments = .ok otherOptions →
        settings libraries.documentFormat otherOptions otherSurroundings = .ok otherConfig →
        statement otherOptions otherSurroundings = .ok input →
          ∃ other otherRows, run libraries otherArguments otherSurroundings = .ok other ∧
            other.exitCode = outcome.exitCode ∧
            other.standardError libraries = outcome.standardError libraries ∧
            Lists otherOptions.requote otherConfig input otherRows ∧
            Prints libraries otherOptions.json otherRows other.output ∧
            (otherConfig.allowComments = config.allowComments →
              List.Forall₂ Row.DiffersInString rows otherRows) ∧
            (otherOptions.requote = options.requote → config.allowComments = false →
              otherConfig.allowComments = true →
                rows = otherRows.filter (fun row => row.code != Kind.comment.code) ∧
                  ∀ row ∈ otherRows, row.code = Kind.comment.code → row.kind = "COMMENTS") := by
  have repeats := repeats_list loaded given
  obtain ⟨rows, lists, prints⟩ := exists_rows_list loaded given
  refine ⟨list libraries options surroundings, rows, run_of_accepted accepted surroundings, lists,
    prints, lists.kind_getLast?, repeats, allowComments_of_settings loaded, ?_⟩
  intro otherArguments otherOptions otherSurroundings otherConfig accepted loaded given
  obtain ⟨sameCode, sameReport⟩ := (repeats_list loaded given config).unique (repeats config)
  obtain ⟨otherRows, listsToo, printsToo⟩ := exists_rows_list loaded given
  refine ⟨list libraries otherOptions otherSurroundings, otherRows,
    run_of_accepted accepted otherSurroundings, sameCode, sameReport, listsToo, printsToo,
    lists.differsInString listsToo, ?_⟩
  intro sameRequote isClosed allows
  have listsAlike : Lists options.requote otherConfig input otherRows := sameRequote ▸ listsToo
  exact ⟨lists.withoutComments listsAlike isClosed allows, fun _ => listsToo.kind_of_code⟩

/-- A text as an argument without any flag, and on standard input with every flag and
with tracing. -/
theorem run_repeats_strict_piped :
    let text := "'it''s' /* c */ 08"
    let plain : Surroundings :=
      { environment := fun _ => none
        file := fun _ => .error "absent"
        standardInput := .error "closed" }
    let piped : Surroundings :=
      { environment := fun name => if name = Config.traceTokensVariable then some "on" else none
        file := fun _ => .error "absent"
        standardInput := .ok (ascii text) }
    let flags := ["--requote", "--allow-comments"]
    let report := "Error: invalid token '08' at position 17\n"
    (∃ options, Libraries.bundled.readArguments [text] = .ok options ∧
        settings Libraries.bundled.documentFormat options plain = .ok .default ∧
        statement options plain = .ok (ascii text)) ∧
      (∃ options, Libraries.bundled.readArguments flags = .ok options ∧
        settings Libraries.bundled.documentFormat options piped =
          .ok { allowComments := true, traceTokens := true } ∧
        statement options piped = .ok (ascii text)) ∧
      ∃ outcome other, run .bundled [text] plain = .ok outcome ∧
        run .bundled flags piped = .ok other ∧
        outcome.output =
          "     0 STRING            57348 it's\n" ++
          "    16 LEX_ERROR         57346 08\n" ++
          "    18 EOF                   0 \n" ∧
        other.output =
          "     0 STRING            57348 'it\\'s'\n" ++
          "     8 COMMENTS          57351 /* c */\n" ++
          "    16 LEX_ERROR         57346 08\n" ++
          "    18 EOF                   0 \n" ∧
        outcome.exitCode = 1 ∧ outcome.standardError .bundled = report ∧
        other.exitCode = 1 ∧ other.standardError .bundled = report := by
  intro text plain piped flags report
  let options : Options := { Options.empty with statement := some text }
  let flagged : Options := { Options.empty with allowComments := true, requote := true }
  have accepted : Libraries.bundled.readArguments [text] = .ok options := by decide +kernel
  have loaded : settings Libraries.bundled.documentFormat options plain = .ok .default := by rfl
  have given : statement options plain = .ok (ascii text) := by decide +kernel
  have otherAccepted : Libraries.bundled.readArguments flags = .ok flagged := by decide +kernel
  have otherLoaded : settings Libraries.bundled.documentFormat flagged piped =
      .ok { allowComments := true, traceTokens := true } := by rfl
  have otherGiven : statement flagged piped = .ok (ascii text) := rfl
  have strict : (Lexer.start (ascii text) .default).tokenizeStrict.answer =
      .error (.lexical "invalid token '08'" 17) := by decide +kernel
  obtain ⟨outcome, rows, ran, _, _, _, repeats, _, twoRuns⟩ :=
    run_repeats_strict .bundled accepted loaded given
  obtain ⟨other, otherRows, otherRan, sameCode, sameReport, _⟩ :=
    twoRuns _ _ _ _ otherAccepted otherLoaded otherGiven
  have repeated := repeats .default
  rw [strict] at repeated
  obtain ⟨_, _, isError, exitCode, reported⟩ := repeated
  cases isError
  have isListing := ran.symm.trans (run_of_accepted accepted plain)
  have otherIsListing := otherRan.symm.trans (run_of_accepted otherAccepted piped)
  refine ⟨⟨options, accepted, loaded, given⟩, ⟨flagged, otherAccepted, otherLoaded, otherGiven⟩,
    outcome, other, ran, otherRan, ?_, ?_, exitCode, reported, sameCode.trans exitCode,
    sameReport.trans reported⟩
  · rw [Except.ok.inj isListing]
    decide +kernel
  · rw [Except.ok.inj otherIsListing]
    decide +kernel

end CommandLine

end SqlLexer
