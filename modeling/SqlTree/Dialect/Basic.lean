import SqlTree.Compiled
import SqlTree.Dialect.NativeType

/-!
# Dialects

A `Dialect` is pure policy: how placeholders look, how identifiers are quoted, how rows are limited,
how procedures are called, how type names are understood and how the catalogue is queried.  Whatever
differs between backends is asked of it.
-/

namespace SqlTree

/-- How a bound value is written. -/
inductive PlaceholderMode where
  /-- The same token for every value. -/
  | positional
  /-- The token and a name. -/
  | named
  /-- The token and a number, counted from one. -/
  | indexed
  deriving DecidableEq, Repr

/-- The name of a placeholder mode. -/
def PlaceholderMode.name : PlaceholderMode → String
  | positional => "Positional"
  | named => "Named"
  | indexed => "Indexed"

/-- How the page of a query is written. -/
inductive LimitStyle where
  /-- `LIMIT offset,count`. -/
  | offsetComma
  /-- `LIMIT count OFFSET offset`. -/
  | limitOffset
  /-- No limit; the rows are numbered in a derived table and chosen by number. -/
  | rowNumber
  deriving DecidableEq, Repr

namespace LimitStyle

/-- The name of a style. -/
def name : LimitStyle → String
  | offsetComma => "OffsetComma"
  | limitOffset => "LimitOffset"
  | rowNumber => "RowNumber"

/-- The style of a name. -/
def ofName? : String → Option LimitStyle := byName? name [offsetComma, limitOffset, rowNumber]

end LimitStyle

/-- How a procedure call passes values back. -/
inductive ProcedureStyle where
  /-- Through session variables that a last statement selects. -/
  | sessionVariables
  /-- By the backend itself. -/
  | nativeCall
  deriving DecidableEq, Repr

namespace ProcedureStyle

/-- The name of a style. -/
def name : ProcedureStyle → String
  | sessionVariables => "SessionVariables"
  | nativeCall => "NativeCall"

/-- The style of a name. -/
def ofName? : String → Option ProcedureStyle := byName? name [sessionVariables, nativeCall]

end ProcedureStyle

/-- What can be looked up in the catalogue of a backend. -/
inductive CatalogueItem where
  /-- A table or view. -/
  | table
  /-- The columns of a table. -/
  | columns
  /-- A procedure or function. -/
  | function
  /-- The parameters of a procedure. -/
  | parameters
  deriving DecidableEq, Repr

namespace CatalogueItem

/-- The name of an item. -/
def name : CatalogueItem → String
  | table => "table"
  | columns => "columns"
  | function => "function"
  | parameters => "parameters"

/-- The item of a name. -/
def ofName? : String → Option CatalogueItem := byName? name [table, columns, function, parameters]

end CatalogueItem

/-- An identifier between quotes; a quote inside it is written twice. -/
def quoteWith (mark : Char) (identifier : String) : String :=
  String.ofList
    (mark :: identifier.toList.flatMap (fun c => if c = mark then [mark, mark] else [c]) ++ [mark])

/-- The policy of a backend. -/
structure Dialect where
  /-- The name of the dialect. -/
  name : String
  /-- Whether placeholders can carry names. -/
  named : Bool := false
  /-- Whether placeholders can carry numbers. -/
  indexed : Bool := false
  /-- The text that every placeholder starts with. -/
  token : String := "?"
  /-- Quotes an identifier. -/
  quote : String → String := quoteWith '"'
  /-- The type of a type name that the backend reports. -/
  nativeType : String → CanonicalType := standardType
  /-- How pages are written. -/
  limitStyle : LimitStyle := .offsetComma
  /-- How procedures are called. -/
  procedureStyle : ProcedureStyle := .sessionVariables
  /-- The text that ends a statement. -/
  terminator : String := ";"
  /-- The query that looks an item of a given name up in the catalogue. -/
  catalogue : CatalogueItem → String → Option Compiled := fun _ _ => none

namespace Dialect

/-- How bound values are written: by name if that is possible, else by number if that is. -/
def mode (d : Dialect) : PlaceholderMode :=
  if d.named then .named else if d.indexed then .indexed else .positional

/-- The placeholder of a value and the number of placeholders after it, when there are `index` so
far.  A value without a name is called `p` and its number where names are used. -/
def placeholder (d : Dialect) (index : Nat) (name : Option String) : String × Nat :=
  match d.mode with
  | .positional => (d.token, index)
  | .named => (d.token ++ name.getD ("p" ++ toString (index + 1)), index + 1)
  | .indexed => (d.token ++ toString (index + 1), index + 1)

end Dialect

end SqlTree
