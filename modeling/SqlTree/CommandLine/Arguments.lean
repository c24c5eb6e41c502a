import SqlTree.Dialect.Basic

/-!
# The arguments of the command line

`Request.ofArguments?` reads the arguments: options before and after the name of a command, the
options and operands of the command, and requests for help or for the version.  The arguments are
taken from the left, letter by letter where one holds several options, and the first that decides
the outcome counts: a request for help or for the version, or an argument that fits nowhere.
-/

namespace SqlTree.CommandLine

/-! ### Options -/

/-- An option of a command. -/
structure Switch where
  /-- The name after two hyphens. -/
  long : String
  /-- The letter after one hyphen, if there is one. -/
  short : Option Char := none
  /-- Whether the option takes a value. -/
  takesValue : Bool := false
  /-- Whether the option may be given more than once. -/
  repeatable : Bool := false
  /-- Whether the option may have the empty value. -/
  allowsEmpty : Bool := true
  deriving DecidableEq, Repr

/-- An argument after it has been recognised. -/
inductive Item where
  /-- An operand. -/
  | operand (s : String)
  /-- An option and its value, if it takes one. -/
  | option (long : String) (value : Option String)
  deriving DecidableEq, Repr

/-- What follows the last complete option of an argument. -/
inductive Ending where
  /-- Nothing. -/
  | complete
  /-- An option that takes the next argument as its value. -/
  | pending (s : Switch)
  /-- Something that is no option. -/
  | unknown
  deriving DecidableEq, Repr

/-- What an argument that looks like an option comes to. -/
structure Recognised where
  /-- The complete options from the left. -/
  items : List Item := []
  /-- What follows them. -/
  ending : Ending := .complete
  deriving DecidableEq, Repr

/-- An option by its long name. -/
def longSwitch? (switches : List Switch) (name : String) : Option Switch :=
  switches.find? fun s => s.long == name

/-- An option by its letter. -/
def shortSwitch? (switches : List Switch) (letter : Char) : Option Switch :=
  switches.find? fun s => s.short == some letter

/-- An argument after two hyphens: a name, and a value after an equals sign. -/
def recogniseLong (switches : List Switch) (cs : List Char) : Recognised :=
  let name := String.ofList (cs.takeWhile (· != '='))
  match longSwitch? switches name, cs.dropWhile (· != '=') with
  | none, _ => { ending := .unknown }
  | some s, [] =>
    if s.takesValue then { ending := .pending s } else { items := [.option s.long none] }
  | some s, _ :: value =>
    if s.takesValue then { items := [.option s.long (some (String.ofList value))] }
    else { ending := .unknown }

/-- An argument after one hyphen: letters of options, the last of which may take the rest as its
value, with or without an equals sign in front.  The letters in front of an unknown one count. -/
def recogniseShort (switches : List Switch) (done : List Item) : List Char → Recognised
  | [] => { items := done }
  | letter :: rest =>
    match shortSwitch? switches letter with
    | none => { items := done, ending := .unknown }
    | some s =>
      if s.takesValue then
        match rest with
        | [] => { items := done, ending := .pending s }
        | '=' :: value => { items := done ++ [.option s.long (some (String.ofList value))] }
        | value => { items := done ++ [.option s.long (some (String.ofList value))] }
      else recogniseShort switches (done ++ [.option s.long none]) rest

/-- Whether an argument is taken as an option. -/
def looksLikeOption : List Char → Bool
  | '-' :: _ :: _ => true
  | _ => false

/-- Recognises an argument that looks like an option. -/
def recognise (switches : List Switch) : List Char → Recognised
  | '-' :: '-' :: cs => recogniseLong switches cs
  | '-' :: cs => recogniseShort switches [] cs
  | _ => { ending := .unknown }

/-! ### Outcomes -/

/-- The command that is asked for. -/
inductive Command where
  /-- Compiles a document from a file or from standard input. -/
  | compile (input : String) (dialect : Option String) (compact json : Bool)
  /-- Compiles a template. -/
  | template (sql : String) (parameters : List String) (dialect : Option String) (json : Bool)
  /-- Lists the built-in dialects. -/
  | dialects
  /-- Maps a type name to its canonical type. -/
  | type (dialect native : String)
  /-- Shows a query of the catalogue. -/
  | schema (dialect : String) (item : CatalogueItem) (name : String)
  deriving DecidableEq, Repr

/-- What the arguments ask for. -/
inductive Request where
  /-- A command, with the configuration file that is named before or after it. -/
  | run (configBefore configAfter : Option String) (command : Command)
  /-- The version. -/
  | version
  /-- An explanation. -/
  | help
  deriving DecidableEq, Repr

/-- Why the arguments are not read to their end. -/
inductive Stop where
  /-- A request that leaves the other arguments unread. -/
  | answer (r : Request)
  /-- An argument that fits nowhere. -/
  | misuse
  deriving DecidableEq, Repr

/-! ### Reading -/

/-- What may stand in the place of an operand. -/
inductive Slot where
  /-- Any text. -/
  | text
  /-- The name of a kind of catalogue query. -/
  | catalogueItem
  deriving DecidableEq, Repr

/-- Whether a text may stand in a place. -/
def Slot.accepts : Slot → String → Bool
  | text, _ => true
  | catalogueItem, s => (CatalogueItem.ofName? s).isSome

/-- The arguments that a command takes. -/
structure Form where
  /-- Its options. -/
  switches : List Switch
  /-- The places of its operands, all of which have to be filled. -/
  slots : List Slot := []
  deriving DecidableEq, Repr

/-- The operands among the arguments. -/
def operands (items : List Item) : List String :=
  items.filterMap fun item => match item with
    | .operand s => some s
    | .option _ _ => none

/-- The values that an option is given. -/
def optionValues (long : String) (items : List Item) : List String :=
  items.filterMap fun item => match item with
    | .option other value => if other = long then value else none
    | .operand _ => none

/-- Whether an option is given. -/
def isGiven (long : String) (items : List Item) : Bool :=
  items.any fun item => match item with
    | .option other _ => other == long
    | .operand _ => false

/-- The configuration file that is named, if one is. -/
def configName? (items : List Item) : Option String := (optionValues "config" items).head?

/-- The request that an option makes at once, if it does. -/
def immediate? : Item → Option Request
  | .option "help" _ => some .help
  | .option "version" _ => some .version
  | _ => none

/-- Whether an argument may follow those before it.  An operand has to fit the next place.  An
option must not be repeated, unless it may be, nor be empty, unless it may be. -/
def Form.allows (form : Form) (before : List Item) : Item → Bool
  | .operand s =>
    match form.slots[(operands before).length]? with
    | some slot => slot.accepts s
    | none => false
  | .option long value =>
    match longSwitch? form.switches long with
    | some s => (s.repeatable || !isGiven long before) && (s.allowsEmpty || value != some "")
    | none => false

/-- The arguments with more of them, taken one after another. -/
def Form.take (form : Form) (before : List Item) : List Item → Except Stop (List Item)
  | [] => .ok before
  | item :: rest =>
    match immediate? item with
    | some r => .error (.answer r)
    | none => if form.allows before item then form.take (before ++ [item]) rest else .error .misuse

/-- Reads arguments up to the end, or up to the first operand if the form has places for none: what
they are, and those that are left.  After `--` every argument is an operand. -/
def Form.read (form : Form) (before : List Item) :
    List String → Except Stop (List Item × List String)
  | [] => .ok (before, [])
  | argument :: rest =>
    if argument = "--" then
      (form.take before (rest.map .operand)).map fun taken => (taken, [])
    else if looksLikeOption argument.toList then do
      let recognised := recognise form.switches argument.toList
      let taken ← form.take before recognised.items
      match recognised.ending, rest with
      | .complete, rest => form.read taken rest
      | .pending s, value :: rest =>
        if looksLikeOption value.toList then .error .misuse
        else do form.read (← form.take taken [.option s.long (some value)]) rest
      | _, _ => .error .misuse
    else if form.slots.isEmpty then .ok (before, argument :: rest)
    else do form.read (← form.take before [.operand argument]) rest

/-! ### Commands -/

/-- The options that may stand before and after the name of a command. -/
def globalSwitches : List Switch := [
  { long := "config", takesValue := true, allowsEmpty := false },
  { long := "verbose", short := some 'v' },
  { long := "help", short := some 'h' }]

/-- The arguments before the name of a command. -/
def topForm : Form := { switches := globalSwitches ++ [{ long := "version", short := some 'V' }] }

/-- The option that names a dialect. -/
def dialectSwitch : Switch := { long := "dialect", short := some 'd', takesValue := true }

/-- The option that asks for a document. -/
def jsonSwitch : Switch := { long := "json" }

/-- The arguments of a command, if there is a command of that name. -/
def commandForm? : String → Option Form
  | "compile" => some {
    switches := globalSwitches ++ [dialectSwitch, { long := "compact" }, jsonSwitch]
    slots := [.text] }
  | "template" => some {
    switches := globalSwitches ++
      [{ long := "param", short := some 'p', takesValue := true, repeatable := true },
        dialectSwitch, jsonSwitch]
    slots := [.text] }
  | "dialects" => some { switches := globalSwitches }
  | "type" => some { switches := globalSwitches, slots := [.text, .text] }
  | "schema" => some { switches := globalSwitches, slots := [.text, .catalogueItem, .text] }
  | _ => none

/-- The command of a name with its arguments, if all places are filled. -/
def command? (name : String) (items : List Item) : Option Command :=
  let dialect := (optionValues "dialect" items).head?
  match name, operands items with
  | "compile", [input] =>
    some (.compile input dialect (isGiven "compact" items) (isGiven "json" items))
  | "template", [sql] =>
    some (.template sql (optionValues "param" items) dialect (isGiven "json" items))
  | "dialects", [] => some .dialects
  | "type", [dialect, native] => some (.type dialect native)
  | "schema", [dialect, item, name] =>
    (CatalogueItem.ofName? item).map fun item => .schema dialect item name
  | _, _ => none

/-- The name that asks for an explanation of the commands, or of the one whose name follows. -/
def helpName : String := "help"

/-- Whether an explanation may be asked for with these arguments. -/
def isHelpTopic : List String → Bool
  | [] => true
  | [name] => name == helpName || (commandForm? name).isSome
  | _ => false

/-- What the arguments ask for, or what stops their reading. -/
def readRequest (arguments : List String) : Except Stop Request := do
  let (before, rest) ← topForm.read [] arguments
  match rest with
  | [] => .error .misuse
  | name :: rest =>
    if name = helpName then
      if isHelpTopic rest then return .help else .error .misuse
    else
      match commandForm? name with
      | none => .error .misuse
      | some form =>
        let (items, surplus) ← form.read [] rest
        match surplus, command? name items with
        | [], some command => return .run (configName? before) (configName? items) command
        | _, _ => .error .misuse

/-- What the arguments ask for; `none` when they fit no use. -/
def Request.ofArguments? (arguments : List String) : Option Request :=
  match readRequest arguments with
  | .ok r => some r
  | .error (.answer r) => some r
  | .error .misuse => none

end SqlTree.CommandLine
