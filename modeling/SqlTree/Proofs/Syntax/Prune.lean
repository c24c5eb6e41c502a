import SqlTree.Proofs.Statement.Visit

/-!
# Absent and empty parts

`Expression.pruned` leaves out every part of an expression that is present but empty: the lists of a
`SELECT`, `WHERE`, `GROUP BY`, `HAVING` or `ORDER BY` clause, and the aliases of tables and fields.
Its recursion is written out as maps over the parts of each node; an optional clause holds the same
items as before (`getD_prunedClause` and its siblings).  What a statement reads off its nodes apart
from these parts is left as it was: the markers of groups, and the names of columns.
-/

namespace SqlTree

/-! ### Definition -/

/-- Leaves out an empty alias. -/
def Table.pruned (t : Table) : Table := { t with label := usedAlias t.label }

mutual

/-- Leaves out every empty clause and every empty alias. -/
def Expression.pruned : Expression → Expression
  | .query q => .query q.pruned
  | .insert i => .insert i.pruned
  | .update u => .update u.pruned
  | .delete s => .delete s.pruned
  | .text t => .text t
  | .procedure p => .procedure p
  | .table t => .table t.pruned
  | .column name => .column name
  | .value v => .value v
  | .parameter p => .parameter p
  | .output name => .output name
  | .condition c => .condition c.pruned
  | .conditions items => .conditions (prunedItems items)
  | .aggregate function argument => .aggregate function argument.pruned
  | .select fields => .select (prunedFields fields)
  | .source s => .source s.pruned
  | .join j => .join j.pruned
  | .filter items => .filter (prunedItems items)
  | .groupBy fields => .groupBy (prunedItems fields)
  | .having items => .having (prunedItems items)
  | .orderBy fields => .orderBy (prunedOrder fields)
  | .field f => .field f.pruned
  | .null => .null
  | .sql raw => .sql raw
  | .operator op => .operator op
  | .zero => .zero

/-- Prunes a query. -/
def Query.pruned : Query → Query
  | ⟨distinct, select, source, filter, groupBy, having, orderBy, offset, count⟩ =>
    { distinct := distinct
      select := match select with
        | none | some [] => none
        | some (f :: rest) => some (f.pruned :: prunedFields rest)
      source := match source with
        | none => none
        | some s => some s.pruned
      filter := prunedClause filter
      groupBy := prunedClause groupBy
      having := prunedClause having
      orderBy := prunedOrderBy orderBy
      offset := offset
      count := count }

/-- Prunes an `INSERT` statement. -/
def Insert.pruned : Insert → Insert
  | ⟨table, assignments⟩ => ⟨table.pruned, prunedAssignments assignments⟩

/-- Prunes an `UPDATE` statement. -/
def Update.pruned : Update → Update
  | ⟨table, assignments, filter, orderBy, count⟩ =>
    ⟨table.pruned, prunedAssignments assignments, prunedClause filter, prunedOrderBy orderBy,
      count⟩

/-- Prunes a `DELETE` statement. -/
def Delete.pruned : Delete → Delete
  | ⟨table, filter, orderBy, count⟩ =>
    ⟨table.pruned, prunedClause filter, prunedOrderBy orderBy, count⟩

/-- Prunes what a column is set to. -/
def Assignment.pruned : Assignment → Assignment
  | ⟨column, value⟩ => ⟨column, value.pruned⟩

/-- Prunes the sides of a condition. -/
def Condition.pruned : Condition → Condition
  | ⟨left, op, right⟩ =>
    { left := match left with
        | none => none
        | some e => some e.pruned
      op := op
      right := match right with
        | none => none
        | some e => some e.pruned }

/-- Prunes a field and leaves out its alias if that is empty. -/
def Field.pruned : Field → Field
  | ⟨expr, label⟩ => ⟨expr.pruned, usedAlias label⟩

/-- Prunes the tables and the joins of a `FROM` clause. -/
def Source.pruned : Source → Source
  | ⟨tables, joins⟩ => ⟨tables.map Table.pruned, prunedJoins joins⟩

/-- Prunes the table and the conditions of a join. -/
def Join.pruned : Join → Join
  | ⟨kind, table, conditions⟩ => ⟨kind, table.pruned, prunedItems conditions⟩

/-- Prunes a field of an order. -/
def OrderField.pruned : OrderField → OrderField
  | ⟨expr, direction⟩ => ⟨expr.pruned, direction⟩

/-- Prunes expressions, one by one. -/
def prunedItems : List Expression → List Expression
  | [] => []
  | e :: rest => e.pruned :: prunedItems rest

/-- Prunes the items of an optional clause, which is left out if there are none. -/
def prunedClause : Option (List Expression) → Option (List Expression)
  | none | some [] => none
  | some (e :: rest) => some (e.pruned :: prunedItems rest)

/-- Prunes fields, one by one. -/
def prunedFields : List Field → List Field
  | [] => []
  | f :: rest => f.pruned :: prunedFields rest

/-- Prunes joins, one by one. -/
def prunedJoins : List Join → List Join
  | [] => []
  | j :: rest => j.pruned :: prunedJoins rest

/-- Prunes the fields of an order, one by one. -/
def prunedOrder : List OrderField → List OrderField
  | [] => []
  | f :: rest => f.pruned :: prunedOrder rest

/-- Prunes the fields of an optional order, which is left out if there are none. -/
def prunedOrderBy : Option (List OrderField) → Option (List OrderField)
  | none | some [] => none
  | some (f :: rest) => some (f.pruned :: prunedOrder rest)

/-- Prunes assignments, one by one. -/
def prunedAssignments : List Assignment → List Assignment
  | [] => []
  | a :: rest => a.pruned :: prunedAssignments rest

end

/-- An empty clause and an empty alias, at two depths. -/
example :
    Expression.pruned (.query {
        select := some []
        source := some { tables := [{ name := "t", label := some "" }] }
        filter := some [.query { orderBy := some [] }] }) =
      .query {
        source := some { tables := [{ name := "t" }] }
        filter := some [.query {}] } := rfl

/-! ### Equations -/

/-- The equations over lists are those of a map; the definitions recurse on the lists themselves, so
that the recursion over the tree is structural. -/
theorem prunedItems_eq_map (items : List Expression) :
    prunedItems items = items.map Expression.pruned := by
  induction items with
  | nil => rfl
  | cons e rest ih => rw [prunedItems, ih, List.map_cons]

theorem prunedFields_eq_map (fields : List Field) :
    prunedFields fields = fields.map Field.pruned := by
  induction fields with
  | nil => rfl
  | cons f rest ih => rw [prunedFields, ih, List.map_cons]

theorem prunedJoins_eq_map (joins : List Join) : prunedJoins joins = joins.map Join.pruned := by
  induction joins with
  | nil => rfl
  | cons j rest ih => rw [prunedJoins, ih, List.map_cons]

theorem prunedOrder_eq_map (fields : List OrderField) :
    prunedOrder fields = fields.map OrderField.pruned := by
  induction fields with
  | nil => rfl
  | cons f rest ih => rw [prunedOrder, ih, List.map_cons]

theorem prunedAssignments_eq_map (assignments : List Assignment) :
    prunedAssignments assignments = assignments.map Assignment.pruned := by
  induction assignments with
  | nil => rfl
  | cons a rest ih => rw [prunedAssignments, ih, List.map_cons]

/-- An absent clause and an empty one have the same conditions, pruned or not. -/
theorem getD_prunedClause (clause : Option (List Expression)) :
    (prunedClause clause).getD [] = (clause.getD []).map Expression.pruned := by
  rcases clause with _ | _ | ⟨e, rest⟩
  · rfl
  · rfl
  · exact congrArg (e.pruned :: ·) (prunedItems_eq_map rest)

/-- An absent order and an empty one have the same entries, pruned or not. -/
theorem getD_prunedOrderBy (order : Option (List OrderField)) :
    (prunedOrderBy order).getD [] = (order.getD []).map OrderField.pruned := by
  rcases order with _ | _ | ⟨f, rest⟩
  · rfl
  · rfl
  · exact congrArg (f.pruned :: ·) (prunedOrder_eq_map rest)

namespace Query

variable (q : Query)

/-- Pruning changes lists and labels alone: the numbers and the flags of a query stay, and of its
clauses the parts are pruned one by one. -/
theorem pruned_distinct : q.pruned.distinct = q.distinct := by cases q; rfl

theorem pruned_offset : q.pruned.offset = q.offset := by cases q; rfl

theorem pruned_count : q.pruned.count = q.count := by cases q; rfl

/-- A selection without fields counts as none, so that the two have the same fields. -/
theorem pruned_select : q.pruned.select.getD [] = (q.select.getD []).map Field.pruned := by
  obtain ⟨_, select, _⟩ := q
  rcases select with _ | _ | ⟨f, rest⟩
  · rfl
  · rfl
  · exact congrArg (f.pruned :: ·) (prunedFields_eq_map rest)

theorem pruned_source : q.pruned.source = q.source.map Source.pruned := by
  obtain ⟨_, _, source, _⟩ := q
  cases source <;> rfl

theorem pruned_filter : q.pruned.filter.getD [] = (q.filter.getD []).map Expression.pruned := by
  cases q
  exact getD_prunedClause _

theorem pruned_groupBy :
    q.pruned.groupBy.getD [] = (q.groupBy.getD []).map Expression.pruned := by
  cases q
  exact getD_prunedClause _

theorem pruned_having : q.pruned.having.getD [] = (q.having.getD []).map Expression.pruned := by
  cases q
  exact getD_prunedClause _

theorem pruned_orderBy :
    q.pruned.orderBy.getD [] = (q.orderBy.getD []).map OrderField.pruned := by
  cases q
  exact getD_prunedOrderBy _

end Query

theorem Condition.pruned_eq (c : Condition) :
    c.pruned = ⟨c.left.map Expression.pruned, c.op, c.right.map Expression.pruned⟩ := by
  obtain ⟨left, op, right⟩ := c
  cases left <;> cases right <;> rfl

/-! ### Marks that pruning does not touch -/

theorem usedAlias_usedAlias (label : Option String) :
    usedAlias (usedAlias label) = usedAlias label := by
  rw [usedAlias, usedAlias, Option.filter_filter]
  simp only [Bool.and_self]

/-- Whether an item opens a group can be seen at its root, which pruning leaves alone. -/
theorem Expression.opensGroup_pruned (e : Expression) : e.pruned.opensGroup = e.opensGroup := by
  cases e <;> rfl

theorem Expression.closesGroup_pruned (e : Expression) :
    e.pruned.closesGroup = e.closesGroup := by
  cases e <;> rfl

/-- The groups of a sequence are seen from the markers alone, so pruning keeps them nested. -/
theorem Conditions.balanced_pruned (items : List Expression) :
    balanced (items.map Expression.pruned) = balanced items :=
  balancedFrom_map Expression.opensGroup_pruned Expression.closesGroup_pruned 0 items

/-- Pruning drops an alias only where none would be used. -/
theorem Field.usedAlias_pruned (f : Field) : usedAlias f.pruned.label = usedAlias f.label := by
  cases f
  exact usedAlias_usedAlias _

/-- A field is called the same after pruning, by its alias or by its column. -/
theorem Field.outputColumn?_pruned (d : Dialect) (f : Field) :
    f.pruned.outputColumn? d = f.outputColumn? d := by
  rw [outputColumn?, outputColumn?, f.usedAlias_pruned]
  obtain ⟨expr, label⟩ := f
  cases expr <;> rfl

theorem outputColumns?_pruned (d : Dialect) (fields : List Field) :
    outputColumns? d (fields.map Field.pruned) = outputColumns? d fields :=
  outputColumns?_map d (Field.outputColumn?_pruned d) fields

theorem Field.isColumn_pruned (column : String) (f : Field) :
    f.pruned.isColumn column = f.isColumn column := by
  obtain ⟨expr, label⟩ := f
  cases expr <;> rfl

/-- The name that an order refers to is looked up among fields that are called the same. -/
theorem outputName_pruned (d : Dialect) (fields : List Field) :
    outputName d (fields.map Field.pruned) = outputName d fields :=
  outputName_map d Field.isColumn_pruned Field.usedAlias_pruned fields

end SqlTree
