import SqlTree.Proofs.Statement.Visit

/-!
# Changing the values of an expression

`Expression.mapValues f` changes every value of an expression: those that it binds and those of the
parameters of templates and calls.  Its recursion is written out as maps over the parts of each node
(`Query.mapValues_eq` and its siblings).  What a statement reads off its nodes apart from values is
left as it was: the kind of a node, the markers of groups, and the names of columns.
-/

namespace SqlTree

/-! ### Definition -/

/-- Changes the value of a parameter. -/
def Parameter.mapValue (f : Value → Value) (p : Parameter) : Parameter :=
  { p with value := f p.value }

/-- Changes the values of the parameters of a template. -/
def Template.mapValues (f : Value → Value) (t : Template) : Template :=
  { t with parameters := t.parameters.map (Parameter.mapValue f) }

/-- Changes the values of the parameters of a call. -/
def Procedure.mapValues (f : Value → Value) (call : Procedure) : Procedure :=
  { call with parameters := call.parameters.map (Parameter.mapValue f) }

mutual

/-- Changes every value of an expression. -/
def Expression.mapValues (f : Value → Value) : Expression → Expression
  | .query q => .query (q.mapValues f)
  | .insert i => .insert (i.mapValues f)
  | .update u => .update (u.mapValues f)
  | .delete s => .delete (s.mapValues f)
  | .text t => .text (t.mapValues f)
  | .procedure p => .procedure (p.mapValues f)
  | .table t => .table t
  | .column name => .column name
  | .value v => .value (f v)
  | .parameter p => .parameter (p.mapValue f)
  | .output name => .output name
  | .condition c => .condition (c.mapValues f)
  | .conditions items => .conditions (mapItemValues f items)
  | .aggregate function argument => .aggregate function (argument.mapValues f)
  | .select fields => .select (mapFieldValues f fields)
  | .source s => .source (s.mapValues f)
  | .join j => .join (j.mapValues f)
  | .filter items => .filter (mapItemValues f items)
  | .groupBy fields => .groupBy (mapItemValues f fields)
  | .having items => .having (mapItemValues f items)
  | .orderBy fields => .orderBy (mapOrderValues f fields)
  | .field x => .field (x.mapValues f)
  | .null => .null
  | .sql raw => .sql raw
  | .operator op => .operator op
  | .zero => .zero

/-- Changes every value of a query. -/
def Query.mapValues (f : Value → Value) : Query → Query
  | ⟨distinct, select, source, filter, groupBy, having, orderBy, offset, count⟩ =>
    { distinct := distinct
      select := match select with
        | none => none
        | some fields => some (mapFieldValues f fields)
      source := match source with
        | none => none
        | some s => some (s.mapValues f)
      filter := mapFilterValues f filter
      groupBy := mapFilterValues f groupBy
      having := mapFilterValues f having
      orderBy := mapOrderByValues f orderBy
      offset := offset
      count := count }

/-- Changes every value of an `INSERT` statement. -/
def Insert.mapValues (f : Value → Value) : Insert → Insert
  | ⟨table, assignments⟩ => ⟨table, mapAssignmentValues f assignments⟩

/-- Changes every value of an `UPDATE` statement. -/
def Update.mapValues (f : Value → Value) : Update → Update
  | ⟨table, assignments, filter, orderBy, count⟩ =>
    ⟨table, mapAssignmentValues f assignments, mapFilterValues f filter,
      mapOrderByValues f orderBy, count⟩

/-- Changes every value of a `DELETE` statement. -/
def Delete.mapValues (f : Value → Value) : Delete → Delete
  | ⟨table, filter, orderBy, count⟩ =>
    ⟨table, mapFilterValues f filter, mapOrderByValues f orderBy, count⟩

/-- Changes every value of an assignment. -/
def Assignment.mapValues (f : Value → Value) : Assignment → Assignment
  | ⟨column, value⟩ => ⟨column, value.mapValues f⟩

/-- Changes every value of a condition. -/
def Condition.mapValues (f : Value → Value) : Condition → Condition
  | ⟨left, op, right⟩ =>
    { left := match left with
        | none => none
        | some e => some (e.mapValues f)
      op := op
      right := match right with
        | none => none
        | some e => some (e.mapValues f) }

/-- Changes every value of a field. -/
def Field.mapValues (f : Value → Value) : Field → Field
  | ⟨expr, label⟩ => ⟨expr.mapValues f, label⟩

/-- Changes every value of a `FROM` clause. -/
def Source.mapValues (f : Value → Value) : Source → Source
  | ⟨tables, joins⟩ => ⟨tables, mapJoinValues f joins⟩

/-- Changes every value of a join. -/
def Join.mapValues (f : Value → Value) : Join → Join
  | ⟨kind, table, conditions⟩ => ⟨kind, table, mapItemValues f conditions⟩

/-- Changes every value of a field of an order. -/
def OrderField.mapValues (f : Value → Value) : OrderField → OrderField
  | ⟨expr, direction⟩ => ⟨expr.mapValues f, direction⟩

/-- Changes every value of a list of expressions. -/
def mapItemValues (f : Value → Value) : List Expression → List Expression
  | [] => []
  | e :: rest => e.mapValues f :: mapItemValues f rest

/-- Changes every value of the items of an optional clause. -/
def mapFilterValues (f : Value → Value) : Option (List Expression) → Option (List Expression)
  | none => none
  | some items => some (mapItemValues f items)

/-- Changes every value of a list of fields. -/
def mapFieldValues (f : Value → Value) : List Field → List Field
  | [] => []
  | x :: rest => x.mapValues f :: mapFieldValues f rest

/-- Changes every value of a list of joins. -/
def mapJoinValues (f : Value → Value) : List Join → List Join
  | [] => []
  | j :: rest => j.mapValues f :: mapJoinValues f rest

/-- Changes every value of an order. -/
def mapOrderValues (f : Value → Value) : List OrderField → List OrderField
  | [] => []
  | x :: rest => x.mapValues f :: mapOrderValues f rest

/-- Changes every value of an optional order. -/
def mapOrderByValues (f : Value → Value) : Option (List OrderField) → Option (List OrderField)
  | none => none
  | some fields => some (mapOrderValues f fields)

/-- Changes every value that is assigned to a column. -/
def mapAssignmentValues (f : Value → Value) : List Assignment → List Assignment
  | [] => []
  | a :: rest => a.mapValues f :: mapAssignmentValues f rest

end

/-! ### Equations -/

variable (f : Value → Value)

theorem mapItemValues_eq_map (items : List Expression) :
    mapItemValues f items = items.map (Expression.mapValues f) := by
  induction items with
  | nil => rfl
  | cons e rest ih => rw [mapItemValues, ih, List.map_cons]

theorem mapFieldValues_eq_map (fields : List Field) :
    mapFieldValues f fields = fields.map (Field.mapValues f) := by
  induction fields with
  | nil => rfl
  | cons x rest ih =>
    rw [mapFieldValues, ih, List.map_cons]

theorem mapJoinValues_eq_map (joins : List Join) :
    mapJoinValues f joins = joins.map (Join.mapValues f) := by
  induction joins with
  | nil => rfl
  | cons j rest ih => rw [mapJoinValues, ih, List.map_cons]

theorem mapOrderValues_eq_map (fields : List OrderField) :
    mapOrderValues f fields = fields.map (OrderField.mapValues f) := by
  induction fields with
  | nil => rfl
  | cons x rest ih =>
    rw [mapOrderValues, ih, List.map_cons]

theorem mapAssignmentValues_eq_map (assignments : List Assignment) :
    mapAssignmentValues f assignments = assignments.map (Assignment.mapValues f) := by
  induction assignments with
  | nil => rfl
  | cons a rest ih =>
    rw [mapAssignmentValues, ih, List.map_cons]

theorem mapFilterValues_eq_map (filter : Option (List Expression)) :
    mapFilterValues f filter = filter.map (List.map (Expression.mapValues f)) := by
  cases filter with
  | none => rfl
  | some items => exact congrArg some (mapItemValues_eq_map f items)

theorem mapOrderByValues_eq_map (orderBy : Option (List OrderField)) :
    mapOrderByValues f orderBy = orderBy.map (List.map (OrderField.mapValues f)) := by
  cases orderBy with
  | none => rfl
  | some fields => exact congrArg some (mapOrderValues_eq_map f fields)

/-- Exchanging the values of a query leaves its limits alone. -/
theorem Query.mapValues_eq (q : Query) :
    q.mapValues f = { q with
      select := q.select.map (List.map (Field.mapValues f))
      source := q.source.map (Source.mapValues f)
      filter := q.filter.map (List.map (Expression.mapValues f))
      groupBy := q.groupBy.map (List.map (Expression.mapValues f))
      having := q.having.map (List.map (Expression.mapValues f))
      orderBy := q.orderBy.map (List.map (OrderField.mapValues f)) } := by
  obtain ⟨distinct, select, source, filter, groupBy, having, orderBy, offset, count⟩ := q
  simp only [← mapFilterValues_eq_map, ← mapOrderByValues_eq_map]
  -- The field list and the source are matched in the definition itself, the other clauses are not.
  cases select with
  | none => cases source <;> rfl
  | some fields =>
    rw [Option.map_some, ← mapFieldValues_eq_map]
    cases source <;> rfl

theorem Condition.mapValues_eq (c : Condition) :
    c.mapValues f =
      ⟨c.left.map (Expression.mapValues f), c.op, c.right.map (Expression.mapValues f)⟩ := by
  obtain ⟨left, op, right⟩ := c
  cases left <;> cases right <;> rfl

/-- An absent list is an empty one, before and after a change of its elements. -/
theorem getD_map_map {α β : Type} (g : α → β) (o : Option (List α)) :
    (o.map (List.map g)).getD [] = (o.getD []).map g := by
  cases o <;> rfl

/-! ### Marks that a change of values does not touch -/

theorem Expression.opensGroup_mapValues (e : Expression) :
    (e.mapValues f).opensGroup = e.opensGroup := by
  cases e <;> rfl

theorem Expression.closesGroup_mapValues (e : Expression) :
    (e.mapValues f).closesGroup = e.closesGroup := by
  cases e <;> rfl

theorem Conditions.balanced_mapValues (items : List Expression) :
    balanced (items.map (Expression.mapValues f)) = balanced items :=
  balancedFrom_map (Expression.opensGroup_mapValues f) (Expression.closesGroup_mapValues f) 0 items

/-- A field is listed by an alias or by a column, and neither of them is a value. -/
theorem Field.outputColumn?_mapValues (d : Dialect) (x : Field) :
    (x.mapValues f).outputColumn? d = x.outputColumn? d := by
  obtain ⟨expr, label⟩ := x
  cases expr <;> rfl

theorem outputColumns?_mapValues (d : Dialect) (fields : List Field) :
    outputColumns? d (fields.map (Field.mapValues f)) = outputColumns? d fields :=
  outputColumns?_map d (Field.outputColumn?_mapValues f d) fields

theorem Field.isColumn_mapValues (column : String) (x : Field) :
    (x.mapValues f).isColumn column = x.isColumn column := by
  obtain ⟨expr, label⟩ := x
  cases expr <;> rfl

theorem Field.label_mapValues (x : Field) : (x.mapValues f).label = x.label := by
  cases x
  rfl

theorem outputName_mapValues (d : Dialect) (fields : List Field) :
    outputName d (fields.map (Field.mapValues f)) = outputName d fields :=
  outputName_map d (Field.isColumn_mapValues f)
    (fun x => congrArg usedAlias (Field.label_mapValues f x)) fields

end SqlTree
