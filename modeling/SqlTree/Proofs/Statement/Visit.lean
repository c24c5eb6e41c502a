import SqlTree.Compiler

/-!
# Visiting an expression

`Expression.draft` recurses through clauses and lists by functions of their own.  Here each visit is
written as an operation of `Statement.Clause` on the visits of the children: lists are mapped
(`expressionDrafts_eq_map` and its siblings), and a query is laid out from its `QueryParts`
(`Query.draft_eq`).  Inductions over expressions use these equations and never unfold the recursion.
-/

namespace SqlTree

open Draft (empty step text blank lineBreak commaSeparated parenthesized ensure keyword)

variable (d : Dialect)

/-! ### Lists -/

theorem zip_map_self {α β : Type} (l : List α) (g : α → β) :
    l.zip (l.map g) = l.map fun a => (a, g a) := by
  have h := List.zip_map' (f := id) (g := g) (l := l)
  rwa [List.map_id] at h

/-- A field of an order, with a column written as `nameOf` says. -/
def OrderField.draft (nameOf : String → String) (f : OrderField) : Draft :=
  orderFieldDraft
    (match f.expr with
      | .column name => text (nameOf name)
      | e => e.draft d)
    f.direction

theorem expressionDrafts_eq_map (items : List Expression) :
    expressionDrafts d items = items.map (Expression.draft d) := by
  induction items with
  | nil => rfl
  | cons e rest ih => rw [expressionDrafts, ih, List.map_cons]

theorem Field.draft_eq (f : Field) : f.draft d = fieldDraft d (f.expr.draft d) f.label := by
  cases f
  rw [Field.draft]

theorem fieldDrafts_eq_map (fields : List Field) :
    fieldDrafts d fields = fields.map (Field.draft d) := by
  induction fields with
  | nil => rfl
  | cons f rest ih => rw [fieldDrafts, ih, List.map_cons]

theorem Join.draft_eq (j : Join) :
    j.draft d = joinDraft j.kind j.table j.conditions (j.conditions.map (Expression.draft d)) := by
  cases j
  rw [Join.draft, expressionDrafts_eq_map]

theorem joinDrafts_eq_map (joins : List Join) :
    joinDrafts d joins = joins.map (Join.draft d) := by
  induction joins with
  | nil => rfl
  | cons j rest ih => rw [joinDrafts, ih, List.map_cons]

/-- The tables of a source are drafted by themselves, and its joins as a list. -/
theorem Source.draft_eq (s : Source) :
    s.draft d = sourceDraft s.tables (s.joins.map (Join.draft d)) := by
  cases s
  rw [Source.draft, joinDrafts_eq_map]

theorem orderDrafts_eq_map (nameOf : String → String) (fields : List OrderField) :
    orderDrafts d nameOf fields = fields.map (OrderField.draft d nameOf) := by
  induction fields with
  | nil => rfl
  | cons f rest ih =>
    obtain ⟨expr, direction⟩ := f
    cases expr <;> rw [List.map_cons, ← ih] <;> rfl

/-- A condition is drafted from the drafts of its sides; of the right side the kind matters too. -/
theorem Condition.draft_eq (c : Condition) :
    c.draft d = conditionDraft (c.left.map (Expression.draft d)) c.op
      (c.right.map fun e => (e, e.draft d)) := by
  obtain ⟨left, op, right⟩ := c
  cases left <;> cases right <;> rfl

/-! ### Names of columns -/

/-- Whether a field is a given column. -/
def Field.isColumn (column : String) (f : Field) : Bool :=
  match f.expr with
  | .column c => c == column
  | _ => false

/-- A column is called by the alias of the first field that selects it, or by the last part of its
name. -/
theorem outputName_eq (fields : List Field) (column : String) :
    outputName d fields column =
      (((fields.find? (Field.isColumn column)).bind fun f => usedAlias f.label).map d.quote).getD
        (unqualified column) := by
  unfold outputName
  dsimp only
  -- The search is written out in `outputName`; it is the one for the column.
  split
  · next label hlabel =>
    have hfound : ((fields.find? (Field.isColumn column)).bind fun f => usedAlias f.label) =
      some label := hlabel
    rw [hfound]
    rfl
  · next hnone =>
    have hfound : ((fields.find? (Field.isColumn column)).bind fun f => usedAlias f.label) =
      none := hnone
    rw [hfound]
    rfl

/-- The names that leave a list of fields depend on what each field is called. -/
theorem outputColumns?_map {g : Field → Field}
    (h : ∀ f, (g f).outputColumn? d = f.outputColumn? d) (fields : List Field) :
    outputColumns? d (fields.map g) = outputColumns? d fields := by
  have hcolumn : Field.outputColumn? d ∘ g = Field.outputColumn? d := funext h
  rw [outputColumns?, outputColumns?, List.isEmpty_map, List.mapM_map, hcolumn]

/-- The name of a column depends on which fields are columns and on their aliases. -/
theorem outputName_map {g : Field → Field}
    (hcolumn : ∀ column f, (g f).isColumn column = f.isColumn column)
    (hlabel : ∀ f, usedAlias (g f).label = usedAlias f.label) (fields : List Field) :
    outputName d (fields.map g) = outputName d fields := by
  funext column
  have hcolumn : Field.isColumn column ∘ g = Field.isColumn column := funext (hcolumn column)
  rw [outputName_eq, outputName_eq, List.find?_map, hcolumn, Option.bind_map]
  simp only [Function.comp_def, hlabel]

/-! ### Groups of conditions -/

/-- Whether groups are nested properly depends on the markers alone. -/
theorem Conditions.balancedFrom_map {g : Expression → Expression}
    (hopens : ∀ e, (g e).opensGroup = e.opensGroup)
    (hcloses : ∀ e, (g e).closesGroup = e.closesGroup) (depth : Nat) (items : List Expression) :
    balancedFrom depth (items.map g) = balancedFrom depth items := by
  induction items generalizing depth with
  | nil => rfl
  | cons e rest ih => simp only [List.map_cons, balancedFrom, hopens, hcloses, ih]

/-! ### Queries -/

namespace Query

/-- Whether a query chooses its page by row number. -/
def windowed (q : Query) : Bool := isWindowed d q.offset q.count

/-- The name under which a column of the order is written. -/
def orderName (q : Query) : String → String :=
  if q.windowed d && q.distinct then outputName d (q.select.getD []) else id

/-- The `FROM` clause, if there is one. -/
def sourceClause (q : Query) : Draft := (q.source.map (Source.draft d)).getD empty

/-- The `GROUP BY` and `HAVING` clauses, the second only after the first. -/
def groupClause (q : Query) : Draft :=
  if (q.groupBy.getD []).isEmpty then empty
  else
    listClause "GROUP BY" ((q.groupBy.getD []).map (Expression.draft d)) ++
      conditionsClause "HAVING" (q.having.getD []) ((q.having.getD []).map (Expression.draft d))

/-- The clauses of a query as drafts. -/
def parts (q : Query) : QueryParts where
  distinct := q.distinct
  fields := selectDraft ((q.select.getD []).map (Field.draft d))
  columns := ((outputColumns? d (q.select.getD [])).map (", ".intercalate ·)).getD "*"
  body := q.sourceClause d ++
    conditionsClause "WHERE" (q.filter.getD []) ((q.filter.getD []).map (Expression.draft d)) ++
    q.groupClause d
  order := (q.orderBy.getD []).map (OrderField.draft d (q.orderName d))
  offset := q.offset
  count := q.count

/-- A query is drafted with numbered rows or with a clause for its limits. -/
theorem draft_eq (topLevel : Bool) (q : Query) :
    q.draft d topLevel =
      (if q.windowed d then (q.parts d).windowed topLevel
        else (q.parts d).plain d (isLimited q.offset q.count)) ++
      if topLevel then step (.terminate d.terminator) else empty := by
  obtain ⟨distinct, select, source, filter, groupBy, having, orderBy, offset, count⟩ := q
  -- A query asks the drafts of its groups, not the groups, whether there are any.
  have hgroups (items : List Expression) :
      items.isEmpty = (expressionDrafts d items).isEmpty := by
    rw [expressionDrafts_eq_map, List.isEmpty_map]
  simp only [parts, sourceClause, groupClause, hgroups, ← expressionDrafts_eq_map,
    ← fieldDrafts_eq_map, ← orderDrafts_eq_map]
  cases select <;> cases source <;> cases filter <;> cases groupBy <;> cases having <;>
    cases orderBy <;> rfl

end Query

/-! ### Statements that change a table -/

theorem filterDraft_eq (filter : Option (List Expression)) :
    filterDraft d filter =
      conditionsClause "WHERE" (filter.getD []) ((filter.getD []).map (Expression.draft d)) := by
  rw [filterDraft, expressionDrafts_eq_map]

/-- An order that is absent is one without columns. -/
theorem orderDraft_eq (order : Option (List OrderField)) :
    orderDraft d order = listClause "ORDER BY" ((order.getD []).map (OrderField.draft d id)) := by
  rw [orderDraft, orderDrafts_eq_map]

/-! ### Expressions -/

@[simp] theorem Expression.draft_query (q : Query) :
    (Expression.query q).draft d = parenthesized (q.draft d false) := rfl

@[simp] theorem Expression.draft_conditions (items : List Expression) :
    (Expression.conditions items).draft d =
      sequenceDraft items (items.map (Expression.draft d)) := by
  rw [← expressionDrafts_eq_map]
  rfl

@[simp] theorem Expression.draft_aggregate (function : AggregateFunction) (argument : Expression) :
    (Expression.aggregate function argument).draft d =
      Draft.text function.sql ++ parenthesized (argument.draft d) := rfl

@[simp] theorem Expression.draft_select (fields : List Field) :
    (Expression.select fields).draft d = selectDraft (fields.map (Field.draft d)) := by
  rw [← fieldDrafts_eq_map]
  rfl

@[simp] theorem Expression.draft_filter (items : List Expression) :
    (Expression.filter items).draft d =
      conditionsClause "WHERE" items (items.map (Expression.draft d)) := by
  rw [← expressionDrafts_eq_map]
  rfl

@[simp] theorem Expression.draft_groupBy (fields : List Expression) :
    (Expression.groupBy fields).draft d =
      listClause "GROUP BY" (fields.map (Expression.draft d)) := by
  rw [← expressionDrafts_eq_map]
  rfl

@[simp] theorem Expression.draft_having (items : List Expression) :
    (Expression.having items).draft d =
      conditionsClause "HAVING" items (items.map (Expression.draft d)) := by
  rw [← expressionDrafts_eq_map]
  rfl

@[simp] theorem Expression.draft_orderBy (fields : List OrderField) :
    (Expression.orderBy fields).draft d =
      listClause "ORDER BY" (fields.map (OrderField.draft d id)) := by
  rw [← orderDrafts_eq_map]
  rfl

/-! ### Whole statements -/

/-- Whether an expression is a query or a statement that changes a table. -/
def Expression.isStatement : Expression → Bool
  | .query _ | .insert _ | .update _ | .delete _ => true
  | _ => false

/-- Statements are compiled in the layout of the compiler. -/
theorem compile_of_isStatement {e : Expression} (he : e.isStatement = true) (c : Compiler) :
    c.compile e = compileStatement c.dialect c.layout e := by
  cases e with
  | text _ | procedure _ => cases he
  | _ => rfl

end SqlTree
