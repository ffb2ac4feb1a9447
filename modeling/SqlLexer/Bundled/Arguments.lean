import SqlLexer.CommandLine.Libraries

/-!
# Reading arguments

Arguments are read from left to right, and the first fault ends the reading.  Asking for help or
for the version also ends it, so a fault that comes later goes unnoticed.
-/

namespace SqlLexer.CommandLine

def version : String := "0.1.0"

/-- Why the arguments cannot be used. -/
inductive UsageFault where
  | unknownOption (argument : String)
  | missingValue (argument : String)
  | emptyValue (argument : String)
  | repeated (argument : String)
  | unexpectedValue (argument : String)
  | extraStatement (argument : String)
  deriving DecidableEq, Repr

namespace UsageFault

def message : UsageFault → String
  | unknownOption argument => s!"unknown option '{argument}'"
  | missingValue argument => s!"option '{argument}' needs a value"
  | emptyValue argument => s!"option '{argument}' needs a value that is not empty"
  | repeated argument => s!"option '{argument}' is given twice"
  | unexpectedValue argument => s!"option '{argument}' takes no value"
  | extraStatement argument => s!"unexpected argument '{argument}'"

end UsageFault

/-- Why the reading ends before the last argument. -/
inductive Stop where
  | help
  | version
  | fault (cause : UsageFault)
  deriving DecidableEq, Repr

namespace Stop

def usage : String :=
  "Usage: shardsql [OPTIONS] [SQL]\n\nOptions:\n" ++
    "  -c, --config <CONFIG>\n      --allow-comments\n      --json\n      --requote\n" ++
    "      --log-level <LEVEL>\n  -h, --help\n  -V, --version\n"

def notice : Stop → Notice
  | help => { exitCode := 0, output := usage, standardError := "" }
  | version =>
    { exitCode := 0, output := s!"shardsql {CommandLine.version}\n", standardError := "" }
  | fault cause =>
    { exitCode := 2, output := "", standardError := s!"error: {cause.message}\n" }

end Stop

/-- The options that take a value. -/
inductive ValueOption where
  | config
  | logLevel
  deriving DecidableEq, Repr

/-- The options that are given or not. -/
inductive Flag where
  | allowComments
  | json
  | requote
  deriving DecidableEq, Repr

/-- What an option name of two dashes stands for. -/
inductive LongName where
  | takesValue (option : ValueOption)
  | flag (flag : Flag)
  | stop (stop : Stop)
  deriving DecidableEq, Repr

/-- The long options by name; names cannot be shortened. -/
def longNames : List (String × LongName) :=
  [("config", .takesValue .config), ("log-level", .takesValue .logLevel),
    ("allow-comments", .flag .allowComments), ("json", .flag .json), ("requote", .flag .requote),
    ("help", .stop .help), ("version", .stop .version)]

/-- The shape of one argument, taken by itself. -/
inductive Shape where
  /-- Everything after this is taken as it is. -/
  | separator
  /-- A long option, with the value after an equals sign. -/
  | long (name : String) (value : Option String)
  /-- A short option, with the text that follows its letter. -/
  | short (letter : Char) (following : String)
  /-- Anything that does not start with a dash, and the single dash. -/
  | plain
  deriving DecidableEq, Repr

namespace Shape

/-- Reads the shape off the characters of an argument. -/
def ofArgument (argument : String) : Shape :=
  match argument.toList with
  | ['-', '-'] => separator
  | '-' :: '-' :: text =>
    let value :=
      match text.dropWhile (· != '=') with
      | [] => none
      | _ :: value => some (String.ofList value)
    long (String.ofList (text.takeWhile (· != '='))) value
  | '-' :: letter :: following => short letter (String.ofList following)
  | _ => plain

end Shape

namespace Options

/-- Sets the value of an option.  The path of the settings may not be empty. -/
def setValue (options : Options) (argument : String) (option : ValueOption) (value : String) :
    Except Stop Options :=
  match option with
  | .config =>
    if options.configPath.isSome then .error (.fault (.repeated argument))
    else if value.isEmpty then .error (.fault (.emptyValue argument))
    else .ok { options with configPath := some value }
  | .logLevel =>
    if options.logLevel.isSome then .error (.fault (.repeated argument))
    else .ok { options with logLevel := some value }

def setFlag (options : Options) (argument : String) (flag : Flag) : Except Stop Options :=
  let isSet :=
    match flag with
    | .allowComments => options.allowComments
    | .json => options.json
    | .requote => options.requote
  if isSet then .error (.fault (.repeated argument))
  else
    match flag with
    | .allowComments => .ok { options with allowComments := true }
    | .json => .ok { options with json := true }
    | .requote => .ok { options with requote := true }

/-- Takes an argument as the SQL text, of which there is only one. -/
def setStatement (options : Options) (argument : String) : Except Stop Options :=
  if options.statement.isSome then .error (.fault (.extraStatement argument))
  else .ok { options with statement := some argument }

/-- Reads the arguments after those that made `options`. -/
def readFrom (options : Options) : List String → Except Stop Options
  | [] => .ok options
  | argument :: arguments =>
    let withNextValue (option : ValueOption) : Except Stop Options :=
      match arguments with
      | [] => .error (.fault (.missingValue argument))
      | value :: others =>
        if Shape.ofArgument value = .plain then do
          readFrom (← options.setValue argument option value) others
        else .error (.fault (.missingValue argument))
    match Shape.ofArgument argument with
    | .plain => do readFrom (← options.setStatement argument) arguments
    | .separator => arguments.foldlM setStatement options
    | .short 'V' _ => .error .version
    | .short 'h' _ => .error .help
    | .short 'c' "" => withNextValue .config
    | .short 'c' following => do
      let value := if following.startsWith "=" then (following.drop 1).toString else following
      readFrom (← options.setValue argument .config value) arguments
    | .short _ _ => .error (.fault (.unknownOption argument))
    | .long name value =>
      match longNames.lookup name, value with
      | none, _ => .error (.fault (.unknownOption argument))
      | some (.takesValue option), none => withNextValue option
      | some (.takesValue option), some value => do
        readFrom (← options.setValue argument option value) arguments
      | some (.flag flag), none => do readFrom (← options.setFlag argument flag) arguments
      | some (.stop stop), none => .error stop
      | some _, some _ => .error (.fault (.unexpectedValue argument))

/-- The options that the arguments describe. -/
def ofArguments (arguments : List String) : Except Stop Options :=
  readFrom .empty arguments

end Options

end SqlLexer.CommandLine
