import SqlLexer.Proofs.NormalForm
import SqlLexer.Proofs.Verdict

/-!
# Settings in layers

A flag, a variable of the environment and a file may each tell how a switch is set.
A `Layer` is what one of these sources tells, apart from how it is read.  The settings
in force are the layers one over the other, above the default.  A source that cannot
be read is an error, whatever lies over it.
-/

namespace SqlLexer

namespace Config

/-- The words for a switch that is on, or off. -/
def switchWords (isOn : Bool) : List String :=
  if isOn then ["1", "true", "yes", "on"] else ["0", "false", "no", "off"]

/-- The value sets a switch: it is one of the words for it, apart from white space around
it and from letter case. -/
def Sets (value : String) (isOn : Bool) : Prop :=
  ∃ word ∈ switchWords isOn, Text.IsNormalForm value word

/-- What a variable with this value, if it has one, tells of its switch. -/
def VariableTells (value : Option String) : Option Bool → Prop
  | none => value = none
  | some isOn => ∃ text, value = some text ∧ Sets text isOn

/-- A variable has a value, here in normal form, but one that sets no switch. -/
def VariableFails (value : Option String) (form : String) : Prop :=
  ∃ text, value = some text ∧ Text.IsNormalForm text form ∧ ∀ isOn, ¬Sets text isOn

namespace Layer

/-- The environment tells this. -/
structure IsIn (layer : Layer) (environment : Environment) : Prop where
  allowComments : VariableTells (environment allowCommentsVariable) layer.allowComments
  traceTokens : VariableTells (environment traceTokensVariable) layer.traceTokens

/-- A file tells this in some format, given what reading it came to. -/
def IsWrittenIn (layer : Layer) (format : DocumentFormat) (content : Except String Bytes) : Prop :=
  ∃ bytes characters, content = .ok bytes ∧ Utf8.decode? bytes = some characters ∧
    format.read (String.ofList characters) = .ok layer

theorem onto_onto (layer : Layer) (config : Config) :
    layer.onto (layer.onto config) = layer.onto config := by
  obtain ⟨allowComments, traceTokens⟩ := layer
  cases allowComments <;> cases traceTokens <;> rfl

end Layer

/-! ## One variable -/

theorem switchOfWord?_eq_some_iff {word : String} {isOn : Bool} :
    switchOfWord? word = some isOn ↔ word ∈ switchWords isOn := by
  have apart : ∀ word ∈ switchWords false, word ∉ switchWords true := by decide
  have words : switchOfWord? word =
      if word ∈ switchWords true then some true
      else if word ∈ switchWords false then some false else none := by
    simp only [switchOfWord?, switchWords, List.contains_iff_mem, if_true, Bool.false_eq_true,
      if_false]
  by_cases isTrue : word ∈ switchWords true
  · have notFalse : word ∉ switchWords false := fun isFalse => apart word isFalse isTrue
    cases isOn <;> simp [words, isTrue, notFalse]
  · cases isOn <;> simp [words, isTrue]

theorem sets_iff {value : String} {isOn : Bool} :
    Sets value isOn ↔ switchOfWord? (Text.normalize value) = some isOn := by
  rw [switchOfWord?_eq_some_iff]
  constructor
  · rintro ⟨word, member, normal⟩
    rw [Text.isNormalForm_iff.mp normal]
    exact member
  · intro member
    exact ⟨_, member, Text.isNormalForm_iff.mpr rfl⟩

variable {environment other : Environment} {name form : String} {told : Option Bool}

theorem switchInVariable_of_tells (tells : VariableTells (environment name) told)
    (otherwise : Bool) :
    switchInVariable environment name otherwise = .ok (told.getD otherwise) := by
  rw [switchInVariable]
  cases told with
  | none =>
      have absent : environment name = none := tells
      rw [absent]
      rfl
  | some isOn =>
      obtain ⟨value, present, sets⟩ := tells
      simp only [present, sets_iff.mp sets]
      rfl

theorem switchInVariable_of_fails (fails : VariableFails (environment name) form)
    (otherwise : Bool) :
    switchInVariable environment name otherwise =
      .error { variableName := name, value := form } := by
  obtain ⟨value, present, normal, setsNone⟩ := fails
  have isForm := Text.isNormalForm_iff.mp normal
  have noSwitch : switchOfWord? form = none := by
    rw [← isForm]
    exact Option.eq_none_iff_forall_ne_some.mpr fun isOn found => setsNone isOn (sets_iff.mpr found)
  simp only [switchInVariable, present, isForm, noSwitch]

theorem tells_or_fails (value : Option String) :
    (∃ told, VariableTells value told) ∨ ∃ form, VariableFails value form := by
  cases value with
  | none => exact .inl ⟨none, rfl⟩
  | some text =>
      by_cases sets : ∃ isOn, Sets text isOn
      · obtain ⟨isOn, sets⟩ := sets
        exact .inl ⟨some isOn, text, rfl, sets⟩
      · exact .inr ⟨_, text, rfl, Text.isNormalForm_iff.mpr rfl, fun isOn here => sets ⟨isOn, here⟩⟩

theorem VariableTells.not_fails {value : Option String} (tells : VariableTells value told) :
    ¬VariableFails value form := by
  rintro ⟨text, present, _, setsNone⟩
  cases told with
  | none =>
      have absent : value = none := tells
      rw [present] at absent
      cases absent
  | some isOn =>
      obtain ⟨_, presentToo, sets⟩ := tells
      cases present.symm.trans presentToo
      exact setsNone isOn sets

theorem exists_tells_iff {value : Option String} :
    (∃ told, VariableTells value told) ↔ ∀ text, value = some text → ∃ isOn, Sets text isOn := by
  constructor
  · rintro ⟨told, tells⟩ text rfl
    cases told with
    | none => cases tells
    | some isOn =>
        obtain ⟨_, present, sets⟩ := tells
        cases present
        exact ⟨isOn, sets⟩
  · intro sets
    rcases tells_or_fails value with tells | ⟨form, text, present, _, setsNone⟩
    · exact tells
    · obtain ⟨isOn, here⟩ := sets text present
      exact absurd here (setsNone isOn)

/-- The spelling of a value makes no difference, not even to the error. -/
theorem switchInVariable_respells
    (respelled : Option.Rel Text.Respells (environment name) (other name)) (otherwise : Bool) :
    switchInVariable other name otherwise = switchInVariable environment name otherwise := by
  rw [switchInVariable, switchInVariable]
  generalize environment name = value, other name = otherValue at respelled
  cases respelled with
  | none => rfl
  | some respells => simp only [respells.normalize_eq]

/-! ## The environment -/

/-- The variables that count. -/
def switchVariables : List String :=
  [allowCommentsVariable, traceTokensVariable]

/-- How the failure of a variable is reported. -/
def variableError (name form : String) : Error :=
  .configuration s!"{name} expects a boolean, got '{form}'"

/-- The environment fails in this variable, the first of the two that fails. -/
def FailsFirst (environment : Environment) (name form : String) : Prop :=
  VariableFails (environment name) form ∧
    (name = allowCommentsVariable ∨
      name = traceTokensVariable ∧
        ∀ form, ¬VariableFails (environment allowCommentsVariable) form)

variable {layer : Layer}

theorem override_of_isIn (isIn : layer.IsIn environment) (config : Config) :
    config.override environment = .ok (layer.onto config) := by
  rw [override, switchInVariable_of_tells isIn.allowComments,
    switchInVariable_of_tells isIn.traceTokens]
  rfl

theorem override_of_failsFirst (fails : FailsFirst environment name form) (config : Config) :
    config.override environment = .error (variableError name form) := by
  obtain ⟨failsHere, rfl | ⟨rfl, notBefore⟩⟩ := fails
  · rw [override, switchInVariable_of_fails failsHere]
    rfl
  · rcases tells_or_fails (environment allowCommentsVariable) with ⟨told, tells⟩ | ⟨form, fails⟩
    · rw [override, switchInVariable_of_tells tells, switchInVariable_of_fails failsHere]
      rfl
    · exact absurd fails (notBefore form)

/-- The environment tells something of each switch, or one of the variables is the first to fail. -/
theorem isIn_or_failsFirst (environment : Environment) :
    (∃ layer : Layer, layer.IsIn environment) ∨ ∃ name form, FailsFirst environment name form := by
  rcases tells_or_fails (environment allowCommentsVariable) with ⟨allowed, allows⟩ | ⟨form, fails⟩
  · rcases tells_or_fails (environment traceTokensVariable) with ⟨traced, traces⟩ | ⟨form, fails⟩
    · exact .inl ⟨⟨allowed, traced⟩, allows, traces⟩
    · exact .inr ⟨_, form, fails, .inr ⟨rfl, fun _ => allows.not_fails⟩⟩
  · exact .inr ⟨_, form, fails, .inl rfl⟩

theorem override_eq_ok_iff {config result : Config} :
    config.override environment = .ok result ↔
      ∃ layer : Layer, layer.IsIn environment ∧ result = layer.onto config := by
  constructor
  · intro succeeded
    rcases isIn_or_failsFirst environment with ⟨layer, isIn⟩ | ⟨name, form, fails⟩
    · rw [override_of_isIn isIn] at succeeded
      exact ⟨layer, isIn, (Except.ok.inj succeeded).symm⟩
    · rw [override_of_failsFirst fails] at succeeded
      cases succeeded
  · rintro ⟨layer, isIn, rfl⟩
    exact override_of_isIn isIn config

theorem override_eq_error_iff {config : Config} {error : Error} :
    config.override environment = .error error ↔
      ∃ name form, FailsFirst environment name form ∧ error = variableError name form := by
  constructor
  · intro failed
    rcases isIn_or_failsFirst environment with ⟨layer, isIn⟩ | ⟨name, form, fails⟩
    · rw [override_of_isIn isIn] at failed
      cases failed
    · rw [override_of_failsFirst fails] at failed
      exact ⟨name, form, fails, (Except.error.inj failed).symm⟩
  · rintro ⟨name, form, fails, rfl⟩
    exact override_of_failsFirst fails config

theorem exists_override_iff {config : Config} :
    (∃ result, config.override environment = .ok result) ↔
      ∀ name ∈ switchVariables, ∀ text, environment name = some text → ∃ isOn, Sets text isOn := by
  constructor
  · rintro ⟨result, succeeded⟩ name member
    obtain ⟨layer, isIn, _⟩ := override_eq_ok_iff.mp succeeded
    rcases List.mem_pair.mp member with rfl | rfl
    · exact exists_tells_iff.mp ⟨_, isIn.allowComments⟩
    · exact exists_tells_iff.mp ⟨_, isIn.traceTokens⟩
  · intro sets
    obtain ⟨allowed, allows⟩ := exists_tells_iff.mpr (sets _ (List.mem_pair.mpr (.inl rfl)))
    obtain ⟨traced, traces⟩ := exists_tells_iff.mpr (sets _ (List.mem_pair.mpr (.inr rfl)))
    have isIn : Layer.IsIn ⟨allowed, traced⟩ environment := ⟨allows, traces⟩
    exact ⟨_, override_of_isIn isIn config⟩

theorem override_override {config result : Config}
    (succeeded : config.override environment = .ok result) :
    result.override environment = .ok result := by
  obtain ⟨layer, isIn, rfl⟩ := override_eq_ok_iff.mp succeeded
  rw [override_of_isIn isIn, Layer.onto_onto]

theorem override_respells (config : Config)
    (respelled : ∀ name ∈ switchVariables,
      Option.Rel Text.Respells (environment name) (other name)) :
    config.override other = config.override environment := by
  rw [override, override,
    switchInVariable_respells (respelled _ (List.mem_pair.mpr (.inl rfl))),
    switchInVariable_respells (respelled _ (List.mem_pair.mpr (.inr rfl)))]

theorem override_congr (config : Config)
    (same : ∀ name ∈ switchVariables, other name = environment name) :
    config.override other = config.override environment := by
  apply override_respells
  intro name member
  rw [same name member]
  cases environment name with
  | none => exact .none
  | some text => exact .some (Text.Respells.refl text)

/-! ## The file -/

variable {format : DocumentFormat} {content : Except String Bytes}

theorem ofFile_of_isWrittenIn (isWritten : layer.IsWrittenIn format content) :
    ofFile format content = .ok (layer.onto .default) := by
  obtain ⟨bytes, characters, rfl, decoded, read⟩ := isWritten
  simp only [ofFile, decoded, ofDocument, read]

theorem exists_isWrittenIn_of_ofFile {config : Config} (read : ofFile format content = .ok config) :
    ∃ layer : Layer, layer.IsWrittenIn format content := by
  rw [ofFile.eq_def] at read
  split at read
  · cases read
  · next bytes =>
    split at read
    · next characters decoded =>
      rw [ofDocument.eq_def] at read
      split at read
      · next layer told => exact ⟨layer, bytes, characters, rfl, decoded, told⟩
      · cases read
    · cases read

end Config

namespace CommandLine

open Config

/-! ## All layers -/

/-- What the flags tell. -/
def Options.layer (options : Options) : Layer :=
  { allowComments := if options.allowComments then some true else none
    traceTokens := none }

/-- What the file with the settings tells, which is nothing if there is none. -/
def FileTells (format : DocumentFormat) (options : Options) (surroundings : Surroundings)
    (layer : Layer) : Prop :=
  match options.configPath with
  | none => layer = .silent
  | some path => layer.IsWrittenIn format (surroundings.file path)

/-- A run that shows nothing but a report that begins with this message. -/
structure Outcome.FailsWith (outcome : Outcome) (libraries : Libraries) (message : String) :
    Prop where
  exitCode : outcome.exitCode = 1
  output : outcome.output = ""
  report : ∃ behind, outcome.standardError libraries = "Error: " ++ message ++ behind
  log : outcome.log = []

variable {format : DocumentFormat} {libraries : Libraries} {options : Options}
  {surroundings : Surroundings} {inFile inEnvironment : Layer}

theorem layer_onto (options : Options) (config : Config) :
    options.layer.onto config =
      { config with allowComments := options.allowComments || config.allowComments } := by
  rw [Options.layer]
  cases options.allowComments <;> rfl

/-- A file that tells something is read, and what is left to read is the environment. -/
theorem settings_of_fileTells (tells : FileTells format options surroundings inFile) :
    settings format options surroundings =
      (((inFile.onto .default).override surroundings.environment).mapError .settings).map
        options.layer.onto := by
  let overridden := ((inFile.onto .default).override surroundings.environment).mapError
    Failure.settings
  have flagged : settings format options surroundings = overridden >>= fun config =>
      .ok { config with allowComments := options.allowComments || config.allowComments } := by
    rw [FileTells] at tells
    rw [settings]
    split at tells
    · next absent =>
      subst tells
      rw [absent]
      rfl
    · next path given =>
      simp only [given, ofFile_of_isWrittenIn tells]
      rfl
  rw [flagged]
  change _ = overridden.map _
  cases overridden with
  | error failure => rfl
  | ok config => exact congrArg Except.ok (layer_onto options config).symm

/-- A file that tells nothing readable fails, and the environment is not asked. -/
theorem settings_of_not_fileTells
    (fails : ∀ layer, ¬FileTells format options surroundings layer) :
    ∃ path cause, options.configPath = some path ∧
      settings format options surroundings = .error (.settingsFile path cause) := by
  simp only [FileTells] at fails
  cases given : options.configPath with
  | none =>
      rw [given] at fails
      exact absurd rfl (fails .silent)
  | some path =>
      rw [given] at fails
      cases read : Config.ofFile format (surroundings.file path) with
      | error cause =>
          refine ⟨path, cause, rfl, ?_⟩
          rw [settings, given]
          simp only [read]
          rfl
      | ok config =>
          obtain ⟨layer, isWritten⟩ := exists_isWrittenIn_of_ofFile read
          exact absurd isWritten (fails layer)

theorem settings_of_layers (tells : FileTells format options surroundings inFile)
    (isIn : inEnvironment.IsIn surroundings.environment) :
    settings format options surroundings =
      .ok (options.layer.onto (inEnvironment.onto (inFile.onto .default))) := by
  rw [settings_of_fileTells tells, override_of_isIn isIn]
  rfl

theorem settings_of_failsFirst {name form : String}
    (tells : FileTells format options surroundings inFile)
    (fails : FailsFirst surroundings.environment name form) :
    settings format options surroundings = .error (.settings (variableError name form)) := by
  rw [settings_of_fileTells tells, override_of_failsFirst fails]
  rfl

theorem standardError_list {failure : Failure}
    (failed : settings libraries.documentFormat options surroundings = .error failure) :
    (list libraries options surroundings).standardError libraries =
      s!"Error: {libraries.report failure.message failure.causes}\n" := by
  rw [list, failed]
  rfl

theorem failsWith_list {failure : Failure}
    (failed : settings libraries.documentFormat options surroundings = .error failure) :
    (list libraries options surroundings).FailsWith libraries failure.message := by
  obtain ⟨behind, begins⟩ := libraries.report_begins failure.message failure.causes
  have reported := standardError_list failed
  rw [begins] at reported
  refine ⟨?_, ?_, ⟨behind ++ "\n", reported.trans ?_⟩, ?_⟩
  · rw [list, failed]
    rfl
  · rw [list, failed]
  · simp only [← String.append_assoc]
    rfl
  · rw [list, failed]

theorem standardError_list_of_variableError {name form : String}
    (failed : settings libraries.documentFormat options surroundings =
      .error (.settings (variableError name form))) :
    (list libraries options surroundings).standardError libraries =
      s!"Error: {(variableError name form).message}\n" := by
  have alone : (Failure.settings (variableError name form)).causes = [] := rfl
  rw [standardError_list failed, alone, libraries.report_alone]
  rfl

/-- The environment overrides settings exactly if both variables are either absent or set
their switch, and then what it tells lies over these settings, for good.  Otherwise the first
variable to fail is reported with its value in normal form.  No other variable counts, nor
does the spelling of a value.  Whatever the format of documents is, a run lists the tokens
under the flags over the environment over the file over the default; it reports a file or a
variable that cannot be read, whatever the flags are. -/
theorem settings_in_layers (config : Config) (environment : Environment) :
    ((∃ result, config.override environment = .ok result) ↔
        ∀ name ∈ switchVariables, ∀ text, environment name = some text → ∃ isOn, Sets text isOn) ∧
      (∀ result, config.override environment = .ok result ↔
        ∃ layer : Layer, layer.IsIn environment ∧ result = layer.onto config) ∧
      (∀ result, config.override environment = .ok result →
        result.override environment = .ok result) ∧
      (∀ error, config.override environment = .error error ↔
        ∃ name form, FailsFirst environment name form ∧ error = variableError name form) ∧
      (∀ other : Environment, (∀ name ∈ switchVariables, other name = environment name) →
        config.override other = config.override environment) ∧
      (∀ other : Environment,
        (∀ name ∈ switchVariables, Option.Rel Text.Respells (environment name) (other name)) →
          config.override other = config.override environment) ∧
      ∀ (libraries : Libraries) arguments options surroundings,
        libraries.readArguments arguments = .ok options →
        let format := libraries.documentFormat
        ∃ outcome, run libraries arguments surroundings = .ok outcome ∧
          (∀ inFile inEnvironment : Layer, FileTells format options surroundings inFile →
            inEnvironment.IsIn surroundings.environment →
              let effective := options.layer.onto (inEnvironment.onto (inFile.onto .default))
              settings format options surroundings = .ok effective ∧
                ∀ input, statement options surroundings = .ok input →
                  ∃ rows, Lists options.requote effective input rows ∧
                    Prints libraries options.json rows outcome.output) ∧
          ((∀ inFile, ¬FileTells format options surroundings inFile) →
            ∃ path, options.configPath = some path ∧
              outcome.FailsWith libraries s!"cannot load config {path}") ∧
          ∀ inFile name form, FileTells format options surroundings inFile →
            FailsFirst surroundings.environment name form →
              outcome.FailsWith libraries (variableError name form).message ∧
                outcome.standardError libraries =
                  s!"Error: {(variableError name form).message}\n" := by
  refine ⟨exists_override_iff, fun _ => override_eq_ok_iff, fun _ => override_override,
    fun _ => override_eq_error_iff, fun _ => override_congr config,
    fun _ => override_respells config, ?_⟩
  intro libraries arguments options surroundings accepted format
  refine ⟨list libraries options surroundings, run_of_accepted accepted surroundings, ?_, ?_, ?_⟩
  · intro inFile inEnvironment tells isIn
    have loaded := settings_of_layers tells isIn
    exact ⟨loaded, fun _ given => exists_rows_list loaded given⟩
  · intro fails
    obtain ⟨path, cause, given, failed⟩ := settings_of_not_fileTells fails
    exact ⟨path, given, failsWith_list failed⟩
  · intro inFile name form tells fails
    have failed := settings_of_failsFirst tells fails
    exact ⟨failsWith_list failed, standardError_list_of_variableError failed⟩

/-- A padded value in capitals, a value that sets no switch, and runs with the flag under
usable sources, a bad file and a bad variable. -/
theorem settings_in_layers_flagged :
    let environmentWith (comments tracing : String) : Environment := fun name =>
      if name = allowCommentsVariable then some comments
      else if name = traceTokensVariable then some tracing else none
    let surroundings (content : String) (environment : Environment) : Surroundings :=
      { environment, file := fun _ => .ok (ascii content), standardInput := .ok [] }
    let arguments := ["--allow-comments", "--config", "lexer.toml", "1 /* c */"]
    let plain := environmentWith "off" "yes"
    let respelled := environmentWith "OFF " "\u00a0YES\u3000"
    let bad := environmentWith "off" "\tMar\u212a "
    let inForce : Config := { allowComments := true, traceTokens := true }
    let fault : Error :=
      .configuration "SHARDSQL_TRACE_TOKENS expects a boolean, got 'mar\u212a'"
    let told : Layer := { allowComments := some false, traceTokens := some true }
    (told.IsIn plain ∧ FailsFirst bad traceTokensVariable "mar\u212a" ∧
        (∀ name ∈ switchVariables, Option.Rel Text.Respells (plain name) (respelled name)) ∧
        ∃ options, Libraries.bundled.readArguments arguments = .ok options) ∧
      Config.default.override plain = .ok { allowComments := false, traceTokens := true } ∧
      Config.default.override respelled = Config.default.override plain ∧
      Config.default.override bad = .error fault ∧
      (∃ outcome rows,
        run .bundled arguments (surroundings "trace_tokens = false" plain) = .ok outcome ∧
          Lists false inForce (Utf8.ofString "1 /* c */") rows ∧
          Prints .bundled false rows outcome.output) ∧
      (∃ outcome,
        run .bundled arguments (surroundings "allow_comments = 1" plain) = .ok outcome ∧
          outcome.FailsWith .bundled "cannot load config lexer.toml") ∧
      ∃ outcome, run .bundled arguments (surroundings "" bad) = .ok outcome ∧
        outcome.exitCode = 1 ∧
        outcome.standardError .bundled = s!"Error: {fault.message}\n" := by
  intro environmentWith surroundings arguments plain respelled bad inForce fault told
  let options : Options :=
    { Options.empty with
      statement := some "1 /* c */", configPath := some "lexer.toml", allowComments := true }
  let format := Libraries.bundled.documentFormat
  have accepted : Libraries.bundled.readArguments arguments = .ok options := by decide +kernel
  have off : Sets "off" false := sets_iff.mpr (by decide +kernel)
  have isIn : told.IsIn plain :=
    ⟨⟨_, rfl, off⟩, ⟨_, rfl, sets_iff.mpr (by decide +kernel)⟩⟩
  have respells : ∀ name ∈ switchVariables,
      Option.Rel Text.Respells (plain name) (respelled name) := by
    intro name member
    rcases List.mem_pair.mp member with rfl | rfl
    · exact .some ⟨[], ['O', 'F', 'F'], [' '], rfl, by decide, by decide, rfl⟩
    · exact .some ⟨['\u00a0'], ['Y', 'E', 'S'], ['\u3000'], rfl, by decide, by decide, rfl⟩
  have allowsOff : VariableTells (bad allowCommentsVariable) (some false) := ⟨_, rfl, off⟩
  have fails : FailsFirst bad traceTokensVariable "mar\u212a" := by
    refine ⟨⟨_, rfl, Text.isNormalForm_iff.mpr (by decide +kernel), ?_⟩,
      .inr ⟨rfl, fun _ => allowsOff.not_fails⟩⟩
    intro isOn
    rw [sets_iff]
    cases isOn <;> decide +kernel
  obtain ⟨_, succeeds, _, _, _, spellings, runs⟩ := settings_in_layers .default plain
  obtain ⟨_, _, _, errs, _⟩ := settings_in_layers .default bad
  have isFault : variableError traceTokensVariable "mar\u212a" = fault := by decide +kernel
  refine ⟨⟨isIn, fails, respells, options, accepted⟩, (succeeds _).mpr ⟨_, isIn, rfl⟩,
    spellings _ respells, (errs _).mpr ⟨_, _, fails, isFault.symm⟩, ?_, ?_, ?_⟩
  · let inFile : Layer := { allowComments := none, traceTokens := some false }
    have isWritten : inFile.IsWrittenIn format (.ok (ascii "trace_tokens = false")) :=
      ⟨_, "trace_tokens = false".toList, rfl, by decide +kernel, by decide +kernel⟩
    obtain ⟨outcome, ran, lists, _⟩ :=
      runs .bundled _ _ (surroundings "trace_tokens = false" plain) accepted
    obtain ⟨_, shows⟩ := lists inFile told isWritten isIn
    obtain ⟨rows, listed, printed⟩ := shows _ rfl
    exact ⟨outcome, rows, ran, listed, printed⟩
  · let content := ascii "allow_comments = 1"
    have unreadable : (Config.ofFile format (.ok content)).toOption = none := by decide +kernel
    obtain ⟨outcome, ran, _, reports, _⟩ :=
      runs .bundled _ _ (surroundings "allow_comments = 1" plain) accepted
    obtain ⟨path, given, reported⟩ := reports fun layer isWritten => by
      rw [ofFile_of_isWrittenIn isWritten] at unreadable
      cases unreadable
    cases given
    exact ⟨outcome, ran, reported⟩
  · have isWritten : Layer.silent.IsWrittenIn format (.ok (ascii "")) :=
      ⟨_, [], rfl, by decide +kernel, by decide +kernel⟩
    obtain ⟨outcome, ran, _, _, reports⟩ :=
      runs .bundled _ _ (surroundings "" bad) accepted
    obtain ⟨failsWith, reported⟩ := reports .silent _ _ isWritten fails
    rw [isFault] at reported
    exact ⟨outcome, ran, failsWith.exitCode, reported⟩

end CommandLine

end SqlLexer
