import SqlTree.CommandLine.Run

/-!
# The program

`main` gathers what a command may read, runs the command and prints what comes of it.
-/

namespace SqlTree.CommandLine

/-- What a file name leads to in the file system. -/
def lookUp (name : String) : IO FileContent := do
  try
    return .regular (some (← IO.FS.readBinFile name))
  catch
    | .noFileOrDirectory .. => return .missing
    | .permissionDenied .. => return .regular none
    | _ => return .irregular

/-- The bytes of standard input, up to its end. -/
def readStandardInput : IO (Option ByteArray) := do
  try
    return some (← (← IO.getStdin).readBinToEnd)
  catch _ => return none

/-- The name of the user's configuration file, if there is a place for it: below the configuration
directory, when that is absolute, or else below the home directory. -/
def userConfigFile (configHome home : Option String) : Option String :=
  let directory := (configHome.filter fun s => s.toList.head? == some '/') <|>
    (home.filter fun s => !s.isEmpty).map fun s => s ++ "/.config"
  directory.map fun s => s ++ "/sqlweave/config.toml"

/-- The files that a request may read, apart from those looked for by default. -/
def requestedFiles : Option Request → List String
  | some (.run before after (.compile input ..)) => before.toList ++ after.toList ++ [input]
  | some (.run before after _) => before.toList ++ after.toList
  | _ => []

/-- Whether a request reads standard input. -/
def readsStandardInput : Option Request → Bool
  | some (.run _ _ (.compile "-" ..)) => true
  | _ => false

/-- What a command finds when it is run with some arguments. -/
def surroundings (arguments : List String) : IO Surroundings := do
  let configVariable ← IO.getEnv "SQLWEAVE_CONFIG"
  let userConfig := userConfigFile (← IO.getEnv "XDG_CONFIG_HOME") (← IO.getEnv "HOME")
  let request := Request.ofArguments? arguments
  let names := localConfig :: userConfig.toList ++ configVariable.toList ++ requestedFiles request
  let files ← names.mapM fun name => do return (name, ← lookUp name)
  return {
    standardInput := ← if readsStandardInput request then readStandardInput else pure none
    configVariable
    userConfig
    file := fun name => (files.lookup name).getD .missing }

/-- Runs the command line: prints what it writes, or the failure, and returns the exit code. -/
def program (arguments : List String) : IO UInt32 := do
  let outcome := run (← surroundings arguments) arguments
  IO.print outcome.stdout
  match outcome.failure with
  | some failure => IO.eprintln ("Error: " ++ failure.message)
  | none => if outcome.code = 2 then IO.eprint helpText
  return UInt32.ofNat outcome.code

end SqlTree.CommandLine

/-- The command line. -/
def main (arguments : List String) : IO UInt32 := SqlTree.CommandLine.program arguments
