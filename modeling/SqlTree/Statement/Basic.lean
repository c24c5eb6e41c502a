import SqlTree.Statement.Page

/-!
# Statements

`Expression.draft` renders an expression as a part of a statement, by structural recursion, and
`Expression.statementDraft` a whole statement.  Clauses of a query are drafted in the order in which
they are written, so that the first fault in that order is reported and values are bound in that
order.
-/

namespace SqlTree

open Draft (empty step text blank lineBreak commaSeparated parenthesized ensure keyword)

/-- Whether a query returns only a page of its rows. -/
def isLimited (offset count : UInt64) : Bool := 0 < offset || 0 < count

/-- Whether a query chooses its page by row number. -/
def isWindowed (d : Dialect) (offset count : UInt64) : Bool :=
  isLimited offset count && d.limitStyle == .rowNumber

mutual

/-- An expression as a part of a statement. -/
def Expression.draft (d : Dialect) : Expression → Draft
  | .query q => parenthesized (q.draft d false)
  | .insert _ => .fault (.unsupportedExpression .insert .nested)
  | .update _ => .fault (.unsupportedExpression .update .nested)
  | .delete _ => .fault (.unsupportedExpression .delete .nested)
  | .text _ => .fault (.unsupportedExpression .text .nested)
  | .procedure _ => .fault (.unsupportedExpression .procedure .nested)
  | .table t => t.draft
  | .column name => text name
  | .value v => v.draft
  | .parameter _ => .fault (.unsupportedExpression .parameter .nested)
  | .output _ => .fault (.unsupportedExpression .output .nested)
  | .condition c => c.draft d
  | .conditions items => sequenceDraft items (expressionDrafts d items)
  | .aggregate function argument => text function.sql ++ parenthesized (argument.draft d)
  | .select fields => selectDraft (fieldDrafts d fields)
  | .source s => s.draft d
  | .join j => j.draft d
  | .filter items => conditionsClause "WHERE" items (expressionDrafts d items)
  | .groupBy fields => listClause "GROUP BY" (expressionDrafts d fields)
  | .having items => conditionsClause "HAVING" items (expressionDrafts d items)
  | .orderBy fields => listClause "ORDER BY" (orderDrafts d id fields)
  | .field f => f.draft d
  | .null => text "NULL"
  | .sql raw => text raw
  | .operator op => text op.sql
  | .zero => empty

/-- A query, as a whole statement or as a part of one. -/
def Query.draft (d : Dialect) (topLevel : Bool) : Query → Draft
  | ⟨distinct, select, source, filter, groupBy, having, orderBy, offset, count⟩ =>
    let fields := match select with
      | none => []
      | some fields => fieldDrafts d fields
    let sourceClause := match source with
      | none => empty
      | some s => s.draft d
    let filterClause := match filter with
      | none => empty
      | some items => conditionsClause "WHERE" items (expressionDrafts d items)
    let groups := match groupBy with
      | none => []
      | some fields => expressionDrafts d fields
    let havingClause := match having with
      | none => empty
      | some items => conditionsClause "HAVING" items (expressionDrafts d items)
    let nameOf :=
      if isWindowed d offset count && distinct then outputName d (select.getD []) else id
    let order := match orderBy with
      | none => []
      | some fields => orderDrafts d nameOf fields
    let parts : QueryParts := {
      distinct := distinct
      fields := selectDraft fields
      columns := ((outputColumns? d (select.getD [])).map (", ".intercalate ·)).getD "*"
      body := sourceClause ++ filterClause ++
        if groups.isEmpty then empty else listClause "GROUP BY" groups ++ havingClause
      order := order
      offset := offset
      count := count }
    (if isWindowed d offset count then parts.windowed topLevel
      else parts.plain d (isLimited offset count)) ++
      if topLevel then step (.terminate d.terminator) else empty

/-- A condition. -/
def Condition.draft (d : Dialect) : Condition → Draft
  | ⟨left, op, right⟩ =>
    conditionDraft
      (match left with
        | none => none
        | some e => some (e.draft d))
      op
      (match right with
        | none => none
        | some e => some (e, e.draft d))

/-- A field. -/
def Field.draft (d : Dialect) : Field → Draft
  | ⟨expr, label⟩ => fieldDraft d (expr.draft d) label

/-- A `FROM` clause. -/
def Source.draft (d : Dialect) : Source → Draft
  | ⟨tables, joins⟩ => sourceDraft tables (joinDrafts d joins)

/-- A join. -/
def Join.draft (d : Dialect) : Join → Draft
  | ⟨kind, table, conditions⟩ => joinDraft kind table conditions (expressionDrafts d conditions)

/-- Expressions, one by one. -/
def expressionDrafts (d : Dialect) : List Expression → List Draft
  | [] => []
  | e :: rest => e.draft d :: expressionDrafts d rest

/-- Fields, one by one. -/
def fieldDrafts (d : Dialect) : List Field → List Draft
  | [] => []
  | f :: rest => f.draft d :: fieldDrafts d rest

/-- Joins, one by one. -/
def joinDrafts (d : Dialect) : List Join → List Draft
  | [] => []
  | j :: rest => j.draft d :: joinDrafts d rest

/-- The fields of an order, one by one, with columns written as `nameOf` says. -/
def orderDrafts (d : Dialect) (nameOf : String → String) : List OrderField → List Draft
  | [] => []
  | ⟨expr, direction⟩ :: rest =>
    let body := expr.draft d
    let named := match expr with
      | .column name => text (nameOf name)
      | _ => body
    orderFieldDraft named direction :: orderDrafts d nameOf rest

end

/-! ### Statements that change a table -/

/-- The conditions of an optional `WHERE` clause. -/
def filterDraft (d : Dialect) (filter : Option (List Expression)) : Draft :=
  let items := filter.getD []
  conditionsClause "WHERE" items (expressionDrafts d items)

/-- The fields of an optional `ORDER BY` clause. -/
def orderDraft (d : Dialect) (order : Option (List OrderField)) : Draft :=
  listClause "ORDER BY" (orderDrafts d id (order.getD []))

/-- The number of rows that a statement may change, which cannot be given by row number. -/
def rowLimit (d : Dialect) (kind : NodeKind) (count : UInt64) : Draft :=
  if count = 0 then empty
  else if d.limitStyle = .rowNumber then .fault (.unsupportedExpression kind .topLevel)
  else lineBreak ++ text ("LIMIT " ++ toString count.toNat)

/-- Checks that a statement names its table; an alias does not count. -/
def ensureNamed (t : Table) : Draft := ensure (!t.name.isEmpty) .unnamedStatementTable

/-- An `INSERT` statement. -/
def Insert.draft (d : Dialect) (i : Insert) : Draft :=
  ensureNamed i.table ++
    ensure (!i.assignments.isEmpty) (.insertWithoutValues i.table.name) ++
    text "INSERT INTO " ++ text i.table.name ++ blank ++
    parenthesized (commaSeparated (i.assignments.map fun a => text a.column)) ++
    lineBreak ++ keyword "VALUES" ++
    parenthesized (commaSeparated (i.assignments.map fun a => a.value.draft d)) ++
    step (.terminate d.terminator)

/-- An `UPDATE` statement. -/
def Update.draft (d : Dialect) (u : Update) : Draft :=
  ensureNamed u.table ++
    ensure (!u.assignments.isEmpty) (.updateWithoutColumns u.table.name) ++
    text "UPDATE " ++ text u.table.name ++ lineBreak ++ keyword "SET" ++
    commaSeparated (u.assignments.map fun a => text a.column ++ text " = " ++ a.value.draft d) ++
    filterDraft d u.filter ++ orderDraft d u.orderBy ++ rowLimit d .update u.count ++
    step (.terminate d.terminator)

/-- A `DELETE` statement. -/
def Delete.draft (d : Dialect) (s : Delete) : Draft :=
  ensureNamed s.table ++ text "DELETE FROM " ++ text s.table.name ++
    filterDraft d s.filter ++ orderDraft d s.orderBy ++ rowLimit d .delete s.count ++
    step (.terminate d.terminator)

/-! ### Whole statements -/

/-- An expression as a whole statement. -/
def Expression.statementDraft (d : Dialect) : Expression → Draft
  | .query q => q.draft d true
  | .insert i => i.draft d
  | .update u => u.draft d
  | .delete s => s.draft d
  | .zero => .fault (.invalidArgument .emptyExpression)
  | other => .fault (.unsupportedExpression other.kind .topLevel)

/-- Compiles a query or a statement that changes a table. -/
def compileStatement (d : Dialect) (layout : Layout) (e : Expression) : Except Error Compiled :=
  (e.statementDraft d).assemble d layout

end SqlTree
