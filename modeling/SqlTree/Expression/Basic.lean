import SqlTree.Expression.Operator
import SqlTree.Value.Basic

/-!
# Statement trees

An `Expression` is a statement or a part of one.  Conditions are flat sequences: operands alternate
with the connectors `AND` and `OR`, and the raw texts `(` and `)` as items of a sequence open and
close a group.  `Conditions.balanced` says that the groups of a sequence are properly nested.
-/

namespace SqlTree

/-- A table and the alias under which a statement refers to it. -/
structure Table where
  /-- The name of the table. -/
  name : String
  /-- The alias, if there is one. -/
  label : Option String := none
  deriving DecidableEq, Repr, Inhabited

/-- A named value with a direction. -/
structure Parameter where
  /-- The name. -/
  name : String
  /-- How the value is passed. -/
  direction : Direction := .input
  /-- The value. -/
  value : Value := .null
  deriving Inhabited

/-- Raw SQL with placeholders that stand in braces. -/
structure Template where
  /-- The text. -/
  sql : String
  /-- The declared parameters, by the name that a placeholder uses. -/
  parameters : Dictionary Parameter := .empty

/-- A call of a stored procedure. -/
structure Procedure where
  /-- The name of the procedure. -/
  name : String
  /-- The parameters in the order of their declaration. -/
  parameters : List Parameter := []
  deriving Inhabited

mutual

/-- A statement or a part of one. -/
inductive Expression where
  /-- A `SELECT` statement, as a part in parentheses. -/
  | query (q : Query)
  /-- An `INSERT` statement. -/
  | insert (i : Insert)
  /-- An `UPDATE` statement. -/
  | update (u : Update)
  /-- A `DELETE` statement. -/
  | delete (d : Delete)
  /-- A template. -/
  | text (t : Template)
  /-- A call of a stored procedure. -/
  | procedure (p : Procedure)
  /-- A table. -/
  | table (t : Table)
  /-- A column, with or without a qualifier. -/
  | column (name : String)
  /-- A value, bound to a placeholder unless it is null. -/
  | value (v : Value)
  /-- A parameter. -/
  | parameter (p : Parameter)
  /-- A reference to an output variable of a call. -/
  | output (name : String)
  /-- A condition. -/
  | condition (c : Condition)
  /-- A sequence of conditions. -/
  | conditions (items : List Expression)
  /-- An aggregate function and its argument. -/
  | aggregate (function : AggregateFunction) (argument : Expression)
  /-- A list of fields. -/
  | select (fields : List Field)
  /-- A `FROM` clause. -/
  | source (s : Source)
  /-- A join. -/
  | join (j : Join)
  /-- A `WHERE` clause. -/
  | filter (items : List Expression)
  /-- A `GROUP BY` clause. -/
  | groupBy (fields : List Expression)
  /-- A `HAVING` clause. -/
  | having (items : List Expression)
  /-- An `ORDER BY` clause. -/
  | orderBy (fields : List OrderField)
  /-- A field. -/
  | field (f : Field)
  /-- The keyword `NULL`. -/
  | null
  /-- Raw SQL. -/
  | sql (raw : String)
  /-- An operator. -/
  | operator (op : Operator)
  /-- The empty expression. -/
  | zero

/-- A `SELECT` statement. -/
structure Query where
  /-- Whether equal rows are returned once. -/
  distinct : Bool := false
  /-- The fields; none or no field stands for all columns. -/
  select : Option (List Field) := none
  /-- The `FROM` clause. -/
  source : Option Source := none
  /-- The conditions of the `WHERE` clause. -/
  filter : Option (List Expression) := none
  /-- The fields of the `GROUP BY` clause. -/
  groupBy : Option (List Expression) := none
  /-- The conditions of the `HAVING` clause, which only a grouped query has. -/
  having : Option (List Expression) := none
  /-- The fields of the `ORDER BY` clause. -/
  orderBy : Option (List OrderField) := none
  /-- The number of rows to skip. -/
  offset : UInt64 := 0
  /-- The number of rows to return, zero for all. -/
  count : UInt64 := 0

/-- An `INSERT` statement. -/
structure Insert where
  /-- The table. -/
  table : Table
  /-- The columns and their values. -/
  assignments : List Assignment := []

/-- An `UPDATE` statement. -/
structure Update where
  /-- The table. -/
  table : Table
  /-- The columns and their values. -/
  assignments : List Assignment := []
  /-- The conditions of the `WHERE` clause. -/
  filter : Option (List Expression) := none
  /-- The fields of the `ORDER BY` clause. -/
  orderBy : Option (List OrderField) := none
  /-- The number of rows to change, zero for all. -/
  count : UInt64 := 0

/-- A `DELETE` statement. -/
structure Delete where
  /-- The table. -/
  table : Table
  /-- The conditions of the `WHERE` clause. -/
  filter : Option (List Expression) := none
  /-- The fields of the `ORDER BY` clause. -/
  orderBy : Option (List OrderField) := none
  /-- The number of rows to delete, zero for all. -/
  count : UInt64 := 0

/-- A column and the expression that it is set to. -/
structure Assignment where
  /-- The column. -/
  column : String
  /-- The expression. -/
  value : Expression

/-- An operator between two sides, either of which may be absent. -/
structure Condition where
  /-- The left side. -/
  left : Option Expression := none
  /-- The operator. -/
  op : Operator
  /-- The right side. -/
  right : Option Expression := none

/-- An expression of a field list and the alias of its column. -/
structure Field where
  /-- The expression. -/
  expr : Expression
  /-- The alias, if there is one. -/
  label : Option String := none

/-- The tables of a `FROM` clause and the joins after them. -/
structure Source where
  /-- The tables. -/
  tables : List Table := []
  /-- The joins. -/
  joins : List Join := []

/-- A join and its conditions. -/
structure Join where
  /-- The kind of join. -/
  kind : JoinKind := .inner
  /-- The joined table. -/
  table : Table
  /-- The conditions of the `ON` clause. -/
  conditions : List Expression := []

/-- An expression of an order and its direction. -/
structure OrderField where
  /-- The expression. -/
  expr : Expression
  /-- The direction. -/
  direction : SortOrder := .asc

end

instance : Inhabited Expression := ⟨.zero⟩

/-- A sequence of conditions, connectors and group markers. -/
abbrev Conditions := List Expression

namespace Expression

/-- The kind of an expression. -/
def kind : Expression → NodeKind
  | query _ => .query
  | insert _ => .insert
  | update _ => .update
  | delete _ => .delete
  | text _ => .text
  | procedure _ => .procedure
  | table _ => .table
  | column _ => .column
  | value _ => .value
  | parameter _ => .parameter
  | output _ => .output
  | condition _ => .condition
  | conditions _ => .conditions
  | aggregate _ _ => .aggregate
  | select _ => .select
  | source _ => .source
  | join _ => .join
  | filter _ => .filter
  | groupBy _ => .groupBy
  | having _ => .having
  | orderBy _ => .orderBy
  | field _ => .field
  | null => .null
  | sql _ => .sql
  | operator _ => .operator
  | zero => .zero

/-- The item that opens a group of conditions. -/
def openGroup : Expression := .sql "("

/-- The item that closes a group of conditions. -/
def closeGroup : Expression := .sql ")"

/-- Whether an item opens a group. -/
def opensGroup : Expression → Bool
  | sql raw => raw == "("
  | _ => false

/-- Whether an item closes a group. -/
def closesGroup : Expression → Bool
  | sql raw => raw == ")"
  | _ => false

@[simp] theorem opensGroup_openGroup : openGroup.opensGroup = true := rfl

@[simp] theorem closesGroup_closeGroup : closeGroup.closesGroup = true := rfl

/-- No item both opens and closes a group. -/
theorem not_opensGroup_of_closesGroup {e : Expression} (h : e.closesGroup = true) :
    e.opensGroup = false := by
  cases e with
  | sql raw =>
    have : raw = ")" := by simpa [closesGroup] using h
    subst this; rfl
  | _ => rfl

end Expression

namespace Conditions

/-- Whether the groups are properly nested when `depth` groups are open at the start. -/
def balancedFrom : (depth : Nat) → List Expression → Bool
  | depth, [] => depth == 0
  | depth, item :: rest =>
    if item.opensGroup then balancedFrom (depth + 1) rest
    else if item.closesGroup then
      match depth with
      | 0 => false
      | depth + 1 => balancedFrom depth rest
    else balancedFrom depth rest

/-- Whether every group is closed and no group is closed that was not opened. -/
def balanced (items : Conditions) : Bool := balancedFrom 0 items

end Conditions

end SqlTree
