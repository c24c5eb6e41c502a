import SqlTree.CommandLine.Arguments
import SqlTree.Config.Basic
import SqlTree.Expression.Codec
import SqlTree.Registry

/-!
# Running a command

`run` is the command line as a function of its arguments and its surroundings: it says what is
written to standard output, the exit code, and the message of a failure.  A command is an `Action`:
it can fail after it has printed something, and what it has printed stays.
-/

namespace SqlTree.CommandLine

/-! ### Surroundings -/

/-- What a file name leads to. -/
inductive FileContent where
  /-- Nothing, or nothing that can be reached. -/
  | missing
  /-- Something that is not a regular file. -/
  | irregular
  /-- A regular file and its bytes; `none` if they cannot be read. -/
  | regular (bytes : Option ByteArray)

/-- What a command finds when it is run. -/
structure Surroundings where
  /-- The bytes of standard input; `none` if they cannot be read. -/
  standardInput : Option ByteArray
  /-- The value of the variable that names the configuration file, if it is set. -/
  configVariable : Option String
  /-- The name of the user's configuration file, if there is a place for it. -/
  userConfig : Option String
  /-- The files. -/
  file : String → FileContent

/-- The configuration file that is used if no other is named and it exists. -/
def localConfig : String := "sqlweave.toml"

/-- The text of a file that has to be readable as UTF-8. -/
def FileContent.text? : FileContent → Option String
  | regular (some bytes) => String.fromUTF8? bytes
  | _ => none

/-- Whether a name leads to a regular file. -/
def FileContent.isRegular : FileContent → Bool
  | regular _ => true
  | _ => false

/-! ### Failures -/

/-- Why a command fails. -/
inductive Failure where
  /-- The configuration cannot be read or understood. -/
  | configuration
  /-- Standard input cannot be read. -/
  | standardInput
  /-- A file cannot be read. -/
  | file (name : String)
  /-- The input is not the document of an expression. -/
  | malformedInput
  /-- A parameter has no equals sign. -/
  | parameterWithoutValue (parameter : String)
  /-- A parameter has no name. -/
  | parameterWithoutName (parameter : String)
  /-- The dialect cannot look up its catalogue. -/
  | noCatalogue (dialect : String)
  /-- The statement cannot be compiled. -/
  | statement (e : Error)
  deriving DecidableEq

/-- The wording of a failure. -/
def Failure.message : Failure → String
  | configuration => "Failed to load configuration"
  | standardInput => "Failed to read stdin"
  | file name => "Failed to read " ++ name
  | malformedInput => "Input is not a valid expression tree"
  | parameterWithoutValue parameter =>
    "parameter " ++ apostrophed parameter ++ " is not name=value"
  | parameterWithoutName parameter => "parameter " ++ apostrophed parameter ++ " has no name"
  | noCatalogue dialect => "dialect " ++ apostrophed dialect ++ " has no schema queries"
  | statement e => e.message

/-- What running a command comes to. -/
structure Outcome where
  /-- The exit code. -/
  code : Nat
  /-- What is written to standard output. -/
  stdout : String
  /-- The failure, if the command fails. -/
  failure : Option Failure := none

/-! ### Reading -/

/-- The names of the configuration files that are looked for when none is given. -/
def Surroundings.configPlaces (s : Surroundings) : List String :=
  localConfig :: s.userConfig.toList

/-- The configuration: of the given file, which has to exist, else of the first place with a regular
file, else the default. -/
def loadConfig (s : Surroundings) (explicit : Option String) : Except Failure Config :=
  match explicit <|> s.configPlaces.find? fun name => (s.file name).isRegular with
  | none => .ok {}
  | some name =>
    match (s.file name).text?.bind Config.ofText? with
    | some config => .ok config
    | none => .error .configuration

/-- The text of standard input, under the name `-`, or of a file. -/
def readInput (s : Surroundings) (name : String) : Except Failure String :=
  if name = "-" then
    match s.standardInput.bind String.fromUTF8? with
    | some text => .ok text
    | none => .error .standardInput
  else
    match (s.file name).text? with
    | some text => .ok text
    | none => .error (.file name)

/-- The expression that a text describes. -/
def readExpression (text : String) : Except Failure Expression :=
  match Expression.decodeText? text with
  | some e => .ok e
  | none => .error .malformedInput

/-- The value that a text stands for: a JSON document if it is one, else the text itself. -/
def valueOfText (text : String) : Value :=
  match Json.ofFreeText? text with
  | some j => Value.ofJson j
  | none => .string text

/-- The name and the value of a parameter, around its first equals sign. -/
def readParameter (parameter : String) : Except Failure (String × Value) :=
  let cs := parameter.toList
  match cs.dropWhile (· != '=') with
  | [] => .error (.parameterWithoutValue parameter)
  | _ :: value =>
    let name := Text.trim (cs.takeWhile (· != '='))
    if name = [] then .error (.parameterWithoutName parameter)
    else .ok (String.ofList name, valueOfText (String.ofList value))

/-- A template with parameters bound in order, so that the last one of a name counts. -/
def bindAll (t : Template) : List String → Except Failure Template
  | [] => .ok t
  | parameter :: rest => do
    let (name, value) ← readParameter parameter
    bindAll (t.bind name value) rest

/-! ### Writing -/

/-- The arguments of a statement, numbered from one on. -/
def argumentLines (n : Nat) : List Value → String
  | [] => ""
  | v :: rest => "  " ++ toString n ++ " = " ++ v.display ++ "\n" ++ argumentLines (n + 1) rest

/-- A compiled statement as a document or as plain text. -/
def report (json : Bool) (c : Compiled) : String :=
  if json then c.toJson.pretty ++ "\n"
  else
    "SQL:\n" ++ c.sql ++ "\n" ++
      if c.arguments.isEmpty then "" else "\nArguments:\n" ++ argumentLines 1 c.arguments

/-- A text filled up with spaces to a width. -/
def column (width : Nat) (s : String) : String :=
  s ++ String.ofList (List.replicate (width - s.length) ' ')

/-- A line about a dialect, with a mark on the one that is used by default. -/
def dialectLine (isDefault : Bool) (key : String) (d : Dialect) : String :=
  (if isDefault then "*" else " ") ++ " " ++ column 10 key ++ " placeholder " ++
    column 4 d.token ++ " limit " ++ d.limitStyle.name ++ "\n"

/-! ### Commands -/

/-- What a command does: it prints text, and it may fail.  What is printed before a failure stays
printed. -/
abbrev Action := ExceptT Failure (StateM String)

/-- Prints a text. -/
def print (text : String) : Action Unit := modify (· ++ text)

/-- Does what may fail without printing anything. -/
def attempt {α : Type} (x : Except Failure α) : Action α := ExceptT.mk (pure x)

/-- An error of the compiler as a failure of the command. -/
def lift {α : Type} : Except Error α → Except Failure α
  | .ok a => .ok a
  | .error e => .error (.statement e)

/-- Prints a line about each dialect, after it has been looked up. -/
def printDialects (config : Config) : List String → Action Unit
  | [] => pure ()
  | key :: rest => do
    let d ← attempt (lift ((Registry.builtIn .pretty).dialect key))
    print (dialectLine (key == config.dialect) key d)
    printDialects config rest

/-- Carries out a command. -/
def execute (s : Surroundings) (config : Config) : Command → Action Unit
  | .compile input dialect compact json => do
    let layout := if compact then .compact else config.layout
    let text ← attempt (readInput s input)
    let e ← attempt (readExpression text)
    let compiled ← attempt
      (lift ((Registry.builtIn layout).compile (dialect.getD config.dialect) e))
    print (report json compiled)
  | .template sql parameters dialect json => do
    let t ← attempt (bindAll { sql := sql } parameters)
    let compiled ← attempt
      (lift ((Registry.builtIn .pretty).compile (dialect.getD config.dialect) (.text t)))
    print (report json compiled)
  | .dialects => do
    print "Dialects:\n"
    printDialects config (Registry.builtIn .pretty).keys
  | .type dialect native => do
    let d ← attempt (lift ((Registry.builtIn .pretty).dialect dialect))
    print (native ++ " → " ++ (d.nativeType native).name ++ "\n")
  | .schema dialect item name => do
    let d ← attempt (lift ((Registry.builtIn .pretty).dialect dialect))
    match d.catalogue item name with
    | some compiled => print (report false compiled)
    | none => throw (.noCatalogue d.name)

/-- The answer to a request for the version. -/
def versionText : String := "sqlweave 0.3.0\n"

/-- The answer to a request for help. -/
def helpText : String :=
  "Usage: sqlweave [--config PATH] [-v] COMMAND\n\n" ++
  "  compile INPUT [-d KEY] [--compact] [--json]\n" ++
  "  template SQL [-p NAME=VALUE]... [-d KEY] [--json]\n" ++
  "  dialects\n" ++
  "  type DIALECT NATIVE\n" ++
  "  schema DIALECT KIND NAME\n"

/-- The configuration file of a request.  The variable is looked at wherever the option is absent,
and must not be empty there. -/
def configFile? (s : Surroundings) (before after : Option String) : Option (Option String) :=
  if s.configVariable = some "" ∧ (before = none ∨ after = none) then none
  else some (after <|> before <|> s.configVariable)

/-- Loads the configuration and carries out a command. -/
def perform (s : Surroundings) (explicit : Option String) (command : Command) : Action Unit := do
  let config ← attempt (loadConfig s explicit)
  execute s config command

/-- What an action comes to, from whether it fails and what it has printed. -/
def Outcome.ofResult : Except Failure Unit × String → Outcome
  | (.ok (), stdout) => ⟨0, stdout, none⟩
  | (.error failure, stdout) => ⟨1, stdout, some failure⟩

/-- What a request comes to. -/
def answer (s : Surroundings) : Option Request → Outcome
  | none => ⟨2, "", none⟩
  | some .version => ⟨0, versionText, none⟩
  | some .help => ⟨0, helpText, none⟩
  | some (.run before after command) =>
    match configFile? s before after with
    | none => ⟨2, "", none⟩
    | some explicit => .ofResult ((perform s explicit command).run.run "")

/-- Runs the command line. -/
def run (s : Surroundings) (arguments : List String) : Outcome :=
  answer s (Request.ofArguments? arguments)

end SqlTree.CommandLine
