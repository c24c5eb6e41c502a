import SqlTree.Expression.Basic
import SqlTree.Json.Reader
import SqlTree.Value.Codec

/-!
# Statement trees as JSON documents

`Expression.toJson` writes every field of a tree, and an expression under the name of its kind.
`Expression.ofJson?` reads such a document: a field with a default may be absent, a member that is
no field is passed over, and a record may also be written as the array of its leading fields.  Each
record, each list and each alternative with content is one level of nesting.
-/

namespace SqlTree

open Json (required optional nullable?)

/-! ### Writing -/

/-- A string or `null`. -/
def Json.ofAlias (label : Option String) : Json :=
  match label with
  | some s => .string s
  | none => .null

/-- A whole number of sixty-four bits. -/
def Json.ofUInt64 (n : UInt64) : Json := .int n.toNat

/-- The document of a table. -/
def Table.toJson (t : Table) : Json :=
  .object [("name", .string t.name), ("alias", Json.ofAlias t.label)]

/-- The document of a parameter. -/
def Parameter.toJson (p : Parameter) : Json :=
  .object [("name", .string p.name), ("direction", .string p.direction.name),
    ("value", p.value.toJson)]

/-- The document of a template. -/
def Template.toJson (t : Template) : Json :=
  .object [("sql", .string t.sql),
    ("parameters", .object (t.parameters.entries.map fun e => (e.1, e.2.toJson)))]

/-- The document of a procedure call. -/
def Procedure.toJson (p : Procedure) : Json :=
  .object [("name", .string p.name), ("parameters", .array (p.parameters.map Parameter.toJson))]

/-- A record of one field that holds a list. -/
def Json.listRecord (key : String) (items : List Json) : Json := .object [(key, .array items)]

/-- The record of a clause made of conditions. -/
def Json.conditionsRecord (items : List Json) : Json :=
  .object [("conditions", Json.listRecord "items" items)]

/-- A document under the name of a kind of node. -/
def NodeKind.tagged (kind : NodeKind) (content : Json) : Json := .object [(kind.name, content)]

mutual

/-- The document of an expression, under the name of its kind. -/
def Expression.toJson : Expression → Json
  | .query q => NodeKind.query.tagged q.toJson
  | .insert i => NodeKind.insert.tagged i.toJson
  | .update u => NodeKind.update.tagged u.toJson
  | .delete d => NodeKind.delete.tagged d.toJson
  | .text t => NodeKind.text.tagged t.toJson
  | .procedure p => NodeKind.procedure.tagged p.toJson
  | .table t => NodeKind.table.tagged t.toJson
  | .column name => NodeKind.column.tagged (.string name)
  | .value v => NodeKind.value.tagged v.toJson
  | .parameter p => NodeKind.parameter.tagged p.toJson
  | .output name => NodeKind.output.tagged (.string name)
  | .condition c => NodeKind.condition.tagged c.toJson
  | .conditions items =>
    NodeKind.conditions.tagged (Json.listRecord "items" (expressionsToJson items))
  | .aggregate function argument =>
    NodeKind.aggregate.tagged
      (.object [("func", .string function.name), ("expr", argument.toJson)])
  | .select fields => NodeKind.select.tagged (Json.listRecord "fields" (fieldsToJson fields))
  | .source s => NodeKind.source.tagged s.toJson
  | .join j => NodeKind.join.tagged j.toJson
  | .filter items => NodeKind.filter.tagged (Json.conditionsRecord (expressionsToJson items))
  | .groupBy fields => NodeKind.groupBy.tagged (Json.listRecord "fields" (expressionsToJson fields))
  | .having items => NodeKind.having.tagged (Json.conditionsRecord (expressionsToJson items))
  | .orderBy fields => NodeKind.orderBy.tagged (Json.listRecord "fields" (orderToJson fields))
  | .field f => NodeKind.field.tagged f.toJson
  | .null => .string NodeKind.null.name
  | .sql raw => NodeKind.sql.tagged (.string raw)
  | .operator op => NodeKind.operator.tagged (.string op.name)
  | .zero => .string NodeKind.zero.name

/-- The document of a query. -/
def Query.toJson : Query → Json
  | ⟨distinct, select, source, filter, groupBy, having, orderBy, offset, count⟩ =>
    .object [("distinct", .bool distinct), ("select", selectToJson select),
      ("from", sourceToJson source), ("where", filterToJson filter),
      ("group_by", groupByToJson groupBy), ("having", filterToJson having),
      ("order_by", orderByToJson orderBy), ("offset", Json.ofUInt64 offset),
      ("count", Json.ofUInt64 count)]

/-- The document of an `INSERT` statement. -/
def Insert.toJson : Insert → Json
  | ⟨table, assignments⟩ =>
    .object [("table", table.toJson), ("sets", .array (assignmentsToJson assignments))]

/-- The document of an `UPDATE` statement. -/
def Update.toJson : Update → Json
  | ⟨table, assignments, filter, orderBy, count⟩ =>
    .object [("table", table.toJson), ("sets", .array (assignmentsToJson assignments)),
      ("where", filterToJson filter), ("order_by", orderByToJson orderBy),
      ("count", Json.ofUInt64 count)]

/-- The document of a `DELETE` statement. -/
def Delete.toJson : Delete → Json
  | ⟨table, filter, orderBy, count⟩ =>
    .object [("table", table.toJson), ("where", filterToJson filter),
      ("order_by", orderByToJson orderBy), ("count", Json.ofUInt64 count)]

/-- The document of a condition. -/
def Condition.toJson : Condition → Json
  | ⟨left, op, right⟩ =>
    .object [("left", sideToJson left), ("op", .string op.name), ("right", sideToJson right)]

/-- The document of a field. -/
def Field.toJson : Field → Json
  | ⟨expr, label⟩ => .object [("expr", expr.toJson), ("alias", Json.ofAlias label)]

/-- The document of a `FROM` clause. -/
def Source.toJson : Source → Json
  | ⟨tables, joins⟩ =>
    .object [("tables", .array (tables.map Table.toJson)), ("joins", .array (joinsToJson joins))]

/-- The document of a join. -/
def Join.toJson : Join → Json
  | ⟨kind, table, conditions⟩ =>
    .object [("kind", .string kind.name), ("table", table.toJson),
      ("conditions", Json.listRecord "items" (expressionsToJson conditions))]

/-- The document of a field of an order. -/
def OrderField.toJson : OrderField → Json
  | ⟨expr, direction⟩ => .object [("expr", expr.toJson), ("direction", .string direction.name)]

/-- The document of an assignment. -/
def Assignment.toJson : Assignment → Json
  | ⟨column, value⟩ => .object [("column", .string column), ("value", value.toJson)]

/-- The document of a side of a condition, `null` for none. -/
def sideToJson : Option Expression → Json
  | none => .null
  | some e => e.toJson

/-- The document of a field list, `null` for none. -/
def selectToJson : Option (List Field) → Json
  | none => .null
  | some fields => Json.listRecord "fields" (fieldsToJson fields)

/-- The document of an optional `FROM` clause, `null` for none. -/
def sourceToJson : Option Source → Json
  | none => .null
  | some s => s.toJson

/-- The document of a clause made of conditions, `null` for none. -/
def filterToJson : Option (List Expression) → Json
  | none => .null
  | some items => Json.conditionsRecord (expressionsToJson items)

/-- The document of a `GROUP BY` clause, `null` for none. -/
def groupByToJson : Option (List Expression) → Json
  | none => .null
  | some fields => Json.listRecord "fields" (expressionsToJson fields)

/-- The document of an `ORDER BY` clause, `null` for none. -/
def orderByToJson : Option (List OrderField) → Json
  | none => .null
  | some fields => Json.listRecord "fields" (orderToJson fields)

/-- The documents of expressions. -/
def expressionsToJson : List Expression → List Json
  | [] => []
  | e :: rest => e.toJson :: expressionsToJson rest

/-- The documents of fields. -/
def fieldsToJson : List Field → List Json
  | [] => []
  | f :: rest => f.toJson :: fieldsToJson rest

/-- The documents of joins. -/
def joinsToJson : List Join → List Json
  | [] => []
  | j :: rest => j.toJson :: joinsToJson rest

/-- The documents of the fields of an order. -/
def orderToJson : List OrderField → List Json
  | [] => []
  | f :: rest => f.toJson :: orderToJson rest

/-- The documents of assignments. -/
def assignmentsToJson : List Assignment → List Json
  | [] => []
  | a :: rest => a.toJson :: assignmentsToJson rest

end

/-! ### Reading the leaves -/

/-- A word of a vocabulary, by its name. -/
def Json.word? {α : Type} (ofName? : String → Option α) (levels : Nat) (j : Json) : Option α := do
  ofName? (← j.plainName? levels)

/-- An alias or `null`. -/
def Json.alias? : Json → Option (Option String) := nullable? Json.string?

/-- Reads a table. -/
def Table.ofJson? (j : Json) : Option Table := do
  match ← j.fields? ["name", "alias"] with
  | [name, label] =>
    let name ← required Json.string? name
    let label ← optional none Json.alias? label
    return ⟨name, label⟩
  | _ => none

/-- Reads a table that is one level of nesting. -/
def Table.nested? : (levels : Nat) → Json → Option Table
  | 0, _ => none
  | _ + 1, j => Table.ofJson? j

/-- Reads a parameter. -/
def Parameter.ofJson? : (levels : Nat) → Json → Option Parameter
  | 0, _ => none
  | levels + 1, j => do
    match ← j.fields? ["name", "direction", "value"] with
    | [name, direction, value] =>
      let name ← required Json.string? name
      let direction ← optional .input (Json.word? Direction.ofName? levels) direction
      let value ← optional .null (Value.ofJson? levels) value
      return ⟨name, direction, value⟩
    | _ => none

/-- Reads parameters under their names; of two under one name the later one counts. -/
def Parameter.dictionary? : (levels : Nat) → Json → Option (Dictionary Parameter)
  | levels + 1, .object members => do
    let entries ← members.mapM fun (key, j) =>
      (Parameter.ofJson? levels j).map fun parameter => (key, parameter)
    return Dictionary.ofList entries
  | _, _ => none

/-- Reads a template. -/
def Template.ofJson? : (levels : Nat) → Json → Option Template
  | 0, _ => none
  | levels + 1, j => do
    match ← j.fields? ["sql", "parameters"] with
    | [sql, parameters] =>
      let sql ← required Json.string? sql
      let parameters ← optional .empty (Parameter.dictionary? levels) parameters
      return ⟨sql, parameters⟩
    | _ => none

/-- Reads a procedure call. -/
def Procedure.ofJson? : (levels : Nat) → Json → Option Procedure
  | 0, _ => none
  | levels + 1, j => do
    match ← j.fields? ["name", "parameters"] with
    | [name, parameters] =>
      let name ← required Json.string? name
      let parameters ← optional [] (Json.list? levels Parameter.ofJson?) parameters
      return ⟨name, parameters⟩
    | _ => none

/-! ### Reading trees -/

mutual

/-- Reads an expression from a document nested at most `levels` deep. -/
def Expression.ofJson? : (levels : Nat) → Json → Option Expression
  | 0, j =>
    match j.plainName? 0 with
    | some "Null" => some .null
    | some "Zero" => some .zero
    | _ => none
  | levels + 1, .object [(kind, j)] => do
    match ← NodeKind.ofName? kind with
    | .query => (Query.ofJson? levels j).map .query
    | .insert => (Insert.ofJson? levels j).map .insert
    | .update => (Update.ofJson? levels j).map .update
    | .delete => (Delete.ofJson? levels j).map .delete
    | .text => (Template.ofJson? levels j).map .text
    | .procedure => (Procedure.ofJson? levels j).map .procedure
    | .table => (Table.nested? levels j).map .table
    | .column => j.string?.map .column
    | .value => (Value.ofJson? levels j).map .value
    | .parameter => (Parameter.ofJson? levels j).map .parameter
    | .output => j.string?.map .output
    | .condition => (Condition.ofJson? levels j).map .condition
    | .conditions => (Conditions.ofJson? levels j).map .conditions
    | .aggregate => Aggregate.ofJson? levels j
    | .select => (fieldsRecord? levels j).map .select
    | .source => (Source.ofJson? levels j).map .source
    | .join => (Join.ofJson? levels j).map .join
    | .filter => (Conditions.clause? levels j).map .filter
    | .groupBy => (expressionsRecord? levels j).map .groupBy
    | .having => (Conditions.clause? levels j).map .having
    | .orderBy => (orderRecord? levels j).map .orderBy
    | .field => (Field.ofJson? levels j).map .field
    | .null => match j with
      | .null => some .null
      | _ => none
    | .sql => j.string?.map .sql
    | .operator => (Json.word? Operator.ofName? levels j).map .operator
    | .zero => match j with
      | .null => some .zero
      | _ => none
  | _ + 1, .string "Null" => some .null
  | _ + 1, .string "Zero" => some .zero
  | _ + 1, _ => none

/-- Reads a query. -/
def Query.ofJson? : (levels : Nat) → Json → Option Query
  | 0, _ => none
  | levels + 1, j => do
    match ← j.fields? ["distinct", "select", "from", "where", "group_by", "having", "order_by",
      "offset", "count"] with
    | [distinct, select, source, filter, groupBy, having, orderBy, offset, count] =>
      let distinct ← optional false Json.bool? distinct
      let select ← optional none (nullable? (fieldsRecord? levels)) select
      let source ← optional none (nullable? (Source.ofJson? levels)) source
      let filter ← optional none (nullable? (Conditions.clause? levels)) filter
      let groupBy ← optional none (nullable? (expressionsRecord? levels)) groupBy
      let having ← optional none (nullable? (Conditions.clause? levels)) having
      let orderBy ← optional none (nullable? (orderRecord? levels)) orderBy
      let offset ← optional 0 Json.uint64? offset
      let count ← optional 0 Json.uint64? count
      return ⟨distinct, select, source, filter, groupBy, having, orderBy, offset, count⟩
    | _ => none

/-- Reads an `INSERT` statement. -/
def Insert.ofJson? : (levels : Nat) → Json → Option Insert
  | 0, _ => none
  | levels + 1, j => do
    match ← j.fields? ["table", "sets"] with
    | [table, assignments] =>
      let table ← required (Table.nested? levels) table
      let assignments ← optional [] (assignments? levels) assignments
      return ⟨table, assignments⟩
    | _ => none

/-- Reads an `UPDATE` statement. -/
def Update.ofJson? : (levels : Nat) → Json → Option Update
  | 0, _ => none
  | levels + 1, j => do
    match ← j.fields? ["table", "sets", "where", "order_by", "count"] with
    | [table, assignments, filter, orderBy, count] =>
      let table ← required (Table.nested? levels) table
      let assignments ← optional [] (assignments? levels) assignments
      let filter ← optional none (nullable? (Conditions.clause? levels)) filter
      let orderBy ← optional none (nullable? (orderRecord? levels)) orderBy
      let count ← optional 0 Json.uint64? count
      return ⟨table, assignments, filter, orderBy, count⟩
    | _ => none

/-- Reads a `DELETE` statement. -/
def Delete.ofJson? : (levels : Nat) → Json → Option Delete
  | 0, _ => none
  | levels + 1, j => do
    match ← j.fields? ["table", "where", "order_by", "count"] with
    | [table, filter, orderBy, count] =>
      let table ← required (Table.nested? levels) table
      let filter ← optional none (nullable? (Conditions.clause? levels)) filter
      let orderBy ← optional none (nullable? (orderRecord? levels)) orderBy
      let count ← optional 0 Json.uint64? count
      return ⟨table, filter, orderBy, count⟩
    | _ => none

/-- Reads a condition. -/
def Condition.ofJson? : (levels : Nat) → Json → Option Condition
  | 0, _ => none
  | levels + 1, j => do
    match ← j.fields? ["left", "op", "right"] with
    | [left, op, right] =>
      let left ← optional none (nullable? (Expression.ofJson? levels)) left
      let op ← required (Json.word? Operator.ofName? levels) op
      let right ← optional none (nullable? (Expression.ofJson? levels)) right
      return ⟨left, op, right⟩
    | _ => none

/-- Reads an aggregate function with its argument. -/
def Aggregate.ofJson? : (levels : Nat) → Json → Option Expression
  | 0, _ => none
  | levels + 1, j => do
    match ← j.fields? ["func", "expr"] with
    | [function, argument] =>
      let function ← required (Json.word? AggregateFunction.ofName? levels) function
      let argument ← required (Expression.ofJson? levels) argument
      return .aggregate function argument
    | _ => none

/-- Reads a field. -/
def Field.ofJson? : (levels : Nat) → Json → Option Field
  | 0, _ => none
  | levels + 1, j => do
    match ← j.fields? ["expr", "alias"] with
    | [expr, label] =>
      let expr ← required (Expression.ofJson? levels) expr
      let label ← optional none Json.alias? label
      return ⟨expr, label⟩
    | _ => none

/-- Reads a `FROM` clause. -/
def Source.ofJson? : (levels : Nat) → Json → Option Source
  | 0, _ => none
  | levels + 1, j => do
    match ← j.fields? ["tables", "joins"] with
    | [tables, joins] =>
      let tables ← optional [] (Json.list? levels Table.nested?) tables
      let joins ← optional [] (joins? levels) joins
      return ⟨tables, joins⟩
    | _ => none

/-- Reads a join. -/
def Join.ofJson? : (levels : Nat) → Json → Option Join
  | 0, _ => none
  | levels + 1, j => do
    match ← j.fields? ["kind", "table", "conditions"] with
    | [kind, table, conditions] =>
      let kind ← optional .inner (Json.word? JoinKind.ofName? levels) kind
      let table ← required (Table.nested? levels) table
      let conditions ← optional [] (Conditions.ofJson? levels) conditions
      return ⟨kind, table, conditions⟩
    | _ => none

/-- Reads a field of an order. -/
def OrderField.ofJson? : (levels : Nat) → Json → Option OrderField
  | 0, _ => none
  | levels + 1, j => do
    match ← j.fields? ["expr", "direction"] with
    | [expr, direction] =>
      let expr ← required (Expression.ofJson? levels) expr
      let direction ← optional .asc (Json.word? SortOrder.ofName? levels) direction
      return ⟨expr, direction⟩
    | _ => none

/-- Reads an assignment. -/
def Assignment.ofJson? : (levels : Nat) → Json → Option Assignment
  | 0, _ => none
  | levels + 1, j => do
    match ← j.fields? ["column", "value"] with
    | [column, value] =>
      let column ← required Json.string? column
      let value ← required (Expression.ofJson? levels) value
      return ⟨column, value⟩
    | _ => none

/-- Reads a record with the items of a sequence of conditions. -/
def Conditions.ofJson? : (levels : Nat) → Json → Option (List Expression)
  | 0, _ => none
  | levels + 1, j => do
    match ← j.fields? ["items"] with
    | [items] => optional [] (expressions? levels) items
    | _ => none

/-- Reads a clause that is made of conditions. -/
def Conditions.clause? : (levels : Nat) → Json → Option (List Expression)
  | 0, _ => none
  | levels + 1, j => do
    match ← j.fields? ["conditions"] with
    | [conditions] => optional [] (Conditions.ofJson? levels) conditions
    | _ => none

/-- Reads a record with a list of expressions. -/
def expressionsRecord? : (levels : Nat) → Json → Option (List Expression)
  | 0, _ => none
  | levels + 1, j => do
    match ← j.fields? ["fields"] with
    | [fields] => optional [] (expressions? levels) fields
    | _ => none

/-- Reads a record with a list of fields. -/
def fieldsRecord? : (levels : Nat) → Json → Option (List Field)
  | 0, _ => none
  | levels + 1, j => do
    match ← j.fields? ["fields"] with
    | [fields] => optional [] (fieldList? levels) fields
    | _ => none

/-- Reads a record with the fields of an order. -/
def orderRecord? : (levels : Nat) → Json → Option (List OrderField)
  | 0, _ => none
  | levels + 1, j => do
    match ← j.fields? ["fields"] with
    | [fields] => optional [] (orderFields? levels) fields
    | _ => none

/-- Reads a list of expressions. -/
def expressions? : (levels : Nat) → Json → Option (List Expression)
  | levels + 1, .array items => items.mapM (Expression.ofJson? levels)
  | _, _ => none

/-- Reads a list of fields. -/
def fieldList? : (levels : Nat) → Json → Option (List Field)
  | levels + 1, .array items => items.mapM (Field.ofJson? levels)
  | _, _ => none

/-- Reads a list of joins. -/
def joins? : (levels : Nat) → Json → Option (List Join)
  | levels + 1, .array items => items.mapM (Join.ofJson? levels)
  | _, _ => none

/-- Reads a list of fields of an order. -/
def orderFields? : (levels : Nat) → Json → Option (List OrderField)
  | levels + 1, .array items => items.mapM (OrderField.ofJson? levels)
  | _, _ => none

/-- Reads a list of assignments. -/
def assignments? : (levels : Nat) → Json → Option (List Assignment)
  | levels + 1, .array items => items.mapM (Assignment.ofJson? levels)
  | _, _ => none

end

/-- Reads the expression that a document describes, however deep it is. -/
def Expression.decode? (j : Json) : Option Expression := Expression.ofJson? j.depth j

/-- Reads the expression that the text of a document describes. -/
def Expression.decodeText? (text : String) : Option Expression := do
  Expression.ofJson? Json.textLevels (← Json.ofText? text)

end SqlTree
