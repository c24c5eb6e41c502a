import SqlTree.Expression.Operator

/-!
# Errors

Every error is a cause, and `Error.message` is its wording.
-/

namespace SqlTree

/-- Where a node was met that cannot be written. -/
inductive Position where
  /-- As the whole statement. -/
  | topLevel
  /-- As a part of a statement. -/
  | nested
  deriving DecidableEq, Repr

/-- Something that a statement needs and does not have, or has too often. -/
inductive ArgumentFault where
  /-- The statement is the empty expression. -/
  | emptyExpression
  /-- A table has neither a name nor an alias. -/
  | unnamedTable
  /-- A `FROM` clause has no tables. -/
  | sourceWithoutTables
  /-- The groups of a sequence of conditions are not properly nested. -/
  | unbalancedGroups
  /-- The number of the last row of a page does not fit sixty-four bits. -/
  | rowWindowOverflow (offset count : UInt64)
  /-- A statement that changes a table does not name it. -/
  | unnamedStatementTable
  /-- An `INSERT` statement has no values. -/
  | insertWithoutValues (table : String)
  /-- An `UPDATE` statement sets no columns. -/
  | updateWithoutColumns (table : String)
  /-- A template is blank. -/
  | emptyTemplate
  /-- A procedure call does not name the procedure. -/
  | unnamedProcedure
  /-- A procedure has more than one result. -/
  | severalResults (procedure : String)
  /-- A parameter that needs a session variable has no name. -/
  | unnamedVariable (direction : Direction) (procedure : String)
  deriving DecidableEq, Repr

/-- What is wrong with a placeholder of a template. -/
inductive TemplateFault where
  /-- Its brace is never closed. -/
  | neverClosed
  /-- Its name is blank. -/
  | unnamed
  deriving DecidableEq, Repr

/-- The two kinds of thing that a registry holds. -/
inductive Registered where
  | dialect | compiler
  deriving DecidableEq, Repr

/-- Why a registration is refused. -/
inductive RegistrationFault where
  /-- The key is blank. -/
  | blankKey (what : Registered)
  /-- The key is taken. -/
  | takenKey (what : Registered) (key : String)
  deriving DecidableEq, Repr

/-- Why a statement is not compiled or a registry not built. -/
inductive Error where
  /-- Something is missing or there too often. -/
  | invalidArgument (fault : ArgumentFault)
  /-- A node stands where it cannot be written. -/
  | unsupportedExpression (kind : NodeKind) (position : Position)
  /-- A placeholder of a template has no declared parameter. -/
  | unknownParameter (name : String)
  /-- A placeholder of a template is malformed; the offset of its brace counts bytes. -/
  | malformedTemplate (offset : Nat) (fault : TemplateFault)
  /-- Nothing is registered under a key. -/
  | notFound (what : Registered) (key : String)
  /-- A registration is refused. -/
  | configuration (fault : RegistrationFault)
  deriving DecidableEq, Repr

/-! ### Wording -/

/-- The words for a position. -/
def Position.message : Position → String
  | topLevel => "at top level"
  | nested => "inside a statement"

/-- A name between accents. -/
def accented (s : String) : String := "`" ++ s ++ "`"

/-- A name between apostrophes. -/
def apostrophed (s : String) : String := "'" ++ s ++ "'"

/-- The words for something missing or there too often. -/
def ArgumentFault.message : ArgumentFault → String
  | emptyExpression => "compile expression is empty"
  | unnamedTable => "table has neither name nor alias"
  | sourceWithoutTables => "FROM clause has no tables"
  | unbalancedGroups => "unbalanced parentheses in condition sequence"
  | rowWindowOverflow offset count =>
    "row window " ++ toString offset.toNat ++ " + " ++ toString count.toNat ++ " overflows"
  | unnamedStatementTable => "statement table name is empty"
  | insertWithoutValues table => "insert into " ++ accented table ++ " has no values"
  | updateWithoutColumns table => "update of " ++ accented table ++ " sets no columns"
  | emptyTemplate => "template SQL is empty"
  | unnamedProcedure => "procedure name is empty"
  | severalResults procedure =>
    "procedure " ++ accented procedure ++ " designates more than one return parameter"
  | unnamedVariable direction procedure =>
    direction.name ++ " parameter of procedure " ++ accented procedure ++ " has no name"

/-- The words for a fault of a placeholder. -/
def TemplateFault.message : TemplateFault → String
  | neverClosed => "placeholder is never closed"
  | unnamed => "placeholder has no name"

/-- The word for a kind of thing that a registry holds. -/
def Registered.name : Registered → String
  | dialect => "dialect"
  | compiler => "compiler"

/-- The words for a refused registration. -/
def RegistrationFault.message : RegistrationFault → String
  | blankKey what => what.name ++ " key is empty"
  | takenKey what key => what.name ++ " " ++ apostrophed key ++ " is already registered"

/-- The wording of an error. -/
def Error.message : Error → String
  | invalidArgument fault => "Invalid argument: " ++ fault.message
  | unsupportedExpression kind position =>
    "Unsupported expression " ++ accented kind.name ++ " " ++ position.message
  | unknownParameter name => "Unknown parameter: " ++ apostrophed name
  | malformedTemplate offset fault =>
    "Malformed template at offset " ++ toString offset ++ ": " ++ fault.message
  | notFound what key => "No " ++ what.name ++ " registered for " ++ apostrophed key
  | configuration fault => "Configuration error: " ++ fault.message

end SqlTree
