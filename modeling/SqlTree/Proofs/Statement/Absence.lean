import SqlTree.Proofs.Syntax.Children
import SqlTree.Proofs.Syntax.Prune

/-!
# An empty part is an absent part

Main statement, `compile_pruned`: an expression compiles to the same text and arguments, or is
refused with the same error, if its empty clauses and empty aliases are left out everywhere.

A query is drafted from the lists of its clauses, and an absent list is an empty one; an alias is
written only if it is not empty.  So each clause is drafted as before if its parts are, and
`Expression.draft_pruned` follows by induction.
-/

namespace SqlTree

open Draft (parenthesized)

variable {d : Dialect}

/-! ### Clauses -/

theorem Table.draft_pruned (t : Table) : t.pruned.draft = t.draft := by
  rw [Table.draft, Table.draft, Table.pruned, usedAlias_usedAlias]

theorem Table.draft_comp_pruned : Table.draft ∘ Table.pruned = Table.draft :=
  funext Table.draft_pruned

/-- An alias that is empty is not written, so it may as well be absent. -/
theorem fieldDraft_usedAlias (x : Draft) (label : Option String) :
    fieldDraft d x (usedAlias label) = fieldDraft d x label := by
  rw [fieldDraft, fieldDraft, usedAlias_usedAlias]

/-- Pruning keeps the kind of a node, which is what parentheses depend on. -/
theorem enclosed_pruned (e : Expression) (body : Draft) :
    enclosed e.pruned body = enclosed e body := by
  cases e <;> rfl

theorem memberList_pruned (e : Expression) (body : Draft) :
    memberList e.pruned body = memberList e body := by
  cases e <;> rfl

theorem itemDraft_pruned (e : Expression) (body : Draft) :
    itemDraft e.pruned body = itemDraft e body := by
  rw [itemDraft, itemDraft, e.opensGroup_pruned, e.closesGroup_pruned]

/-- The lines of a sequence depend on which of its items are markers alone. -/
theorem itemLines_pruned (depth : Nat) (first : Bool) (items : List Expression)
    (bodies : List Draft) :
    itemLines depth first ((items.map Expression.pruned).zip bodies) =
      itemLines depth first (items.zip bodies) := by
  induction items generalizing depth first bodies with
  | nil => rfl
  | cons e rest ih =>
    cases bodies with
    | nil => rfl
    | cons body bodies =>
      simp only [List.map_cons, List.zip_cons_cons, itemLines, itemDraft_pruned,
        Expression.opensGroup_pruned, Expression.closesGroup_pruned, ih]

theorem sequenceDraft_pruned (items : List Expression) (bodies : List Draft) :
    sequenceDraft (items.map Expression.pruned) bodies = sequenceDraft items bodies := by
  rw [sequenceDraft, sequenceDraft, itemLines_pruned, Conditions.balanced_pruned]

theorem conditionsClause_pruned (word : String) (items : List Expression) (bodies : List Draft) :
    conditionsClause word (items.map Expression.pruned) bodies =
      conditionsClause word items bodies := by
  rw [conditionsClause, conditionsClause, List.isEmpty_map, sequenceDraft_pruned]

theorem joinDraft_pruned (kind : JoinKind) (table : Table) (items : List Expression)
    (bodies : List Draft) :
    joinDraft kind table.pruned (items.map Expression.pruned) bodies =
      joinDraft kind table items bodies := by
  simp only [joinDraft, table.draft_pruned, List.isEmpty_map, Conditions.balanced_pruned,
    List.zip_map_left, List.map_map, Function.comp_def, Prod.map, itemDraft_pruned, id]

theorem sourceDraft_pruned (tables : List Table) (joins : List Draft) :
    sourceDraft (tables.map Table.pruned) joins = sourceDraft tables joins := by
  rw [sourceDraft, sourceDraft, List.isEmpty_map, List.map_map, Table.draft_comp_pruned]

/-- The right side of a condition is asked for its kind, and this is kept. -/
theorem conditionDraft_pruned (left : Option Draft) (op : Operator)
    (right : Option (Expression × Draft)) :
    conditionDraft left op (right.map (Prod.map Expression.pruned id)) =
      conditionDraft left op right := by
  cases left <;> cases right <;>
    simp only [conditionDraft, Option.map_none, Option.map_some, Prod.map, enclosed_pruned,
      memberList_pruned, id]

/-! ### Expressions -/

/-- An expression is drafted alike with and without its empty parts. -/
def Expression.DraftedPruned (d : Dialect) (e : Expression) : Prop := e.pruned.draft d = e.draft d

theorem map_draft_pruned (items : List Expression) (h : ∀ e ∈ items, e.DraftedPruned d) :
    (items.map Expression.pruned).map (Expression.draft d) = items.map (Expression.draft d) := by
  rw [List.map_map]
  exact List.map_congr_left h

theorem Field.draft_pruned {f : Field} (h : f.expr.DraftedPruned d) :
    f.pruned.draft d = f.draft d := by
  obtain ⟨expr, label⟩ := f
  rw [Field.draft_eq, Field.draft_eq]
  exact (fieldDraft_usedAlias _ label).trans (congrArg (fieldDraft d · label) h)

theorem map_fieldDraft_pruned (fields : List Field)
    (h : ∀ e ∈ fields.map (·.expr), e.DraftedPruned d) :
    (fields.map Field.pruned).map (Field.draft d) = fields.map (Field.draft d) := by
  rw [List.map_map]
  exact List.map_congr_left fun f hf => Field.draft_pruned (h _ (List.mem_map_of_mem hf))

theorem OrderField.draft_pruned (nameOf : String → String) {f : OrderField}
    (h : f.expr.DraftedPruned d) : f.pruned.draft d nameOf = f.draft d nameOf := by
  obtain ⟨expr, direction⟩ := f
  -- A column is written by name, whatever its draft; every other expression by its draft.
  cases expr with
  | column name => rfl
  | _ => exact congrArg (orderFieldDraft · direction) h

theorem map_orderDraft_pruned (nameOf : String → String) (fields : List OrderField)
    (h : ∀ e ∈ fields.map (·.expr), e.DraftedPruned d) :
    (fields.map OrderField.pruned).map (OrderField.draft d nameOf) =
      fields.map (OrderField.draft d nameOf) := by
  rw [List.map_map]
  exact List.map_congr_left fun f hf =>
    OrderField.draft_pruned nameOf (h _ (List.mem_map_of_mem hf))

theorem Join.draft_pruned {j : Join} (h : ∀ e ∈ j.conditions, e.DraftedPruned d) :
    j.pruned.draft d = j.draft d := by
  obtain ⟨kind, table, conditions⟩ := j
  rw [Join.draft_eq, Join.draft_eq, Join.pruned, prunedItems_eq_map, joinDraft_pruned,
    map_draft_pruned _ h]

theorem Source.draft_pruned {s : Source} (h : ∀ e ∈ s.children, e.DraftedPruned d) :
    s.pruned.draft d = s.draft d := by
  obtain ⟨tables, joins⟩ := s
  have hjoins : (joins.map Join.pruned).map (Join.draft d) = joins.map (Join.draft d) := by
    rw [List.map_map]
    exact List.map_congr_left fun j hj => Join.draft_pruned (Source.forall_conditions h hj)
  rw [Source.draft_eq, Source.draft_eq, Source.pruned, prunedJoins_eq_map, sourceDraft_pruned,
    hjoins]

theorem Condition.draft_pruned {c : Condition} (h : ∀ e ∈ c.children, e.DraftedPruned d) :
    c.pruned.draft d = c.draft d := by
  have hleft : (c.left.map Expression.pruned).map (Expression.draft d) =
      c.left.map (Expression.draft d) := by
    rw [Option.map_map]
    exact Option.map_congr (Condition.forall_left h)
  have hright : ((c.right.map Expression.pruned).map fun e => (e, e.draft d)) =
      (c.right.map fun e => (e, e.draft d)).map (Prod.map Expression.pruned id) := by
    rw [Option.map_map, Option.map_map]
    exact Option.map_congr fun e he => congrArg (Prod.mk _) (Condition.forall_right h e he)
  rw [Condition.draft_eq, Condition.draft_eq, Condition.pruned_eq, hleft, hright,
    conditionDraft_pruned]

/-- The clauses of a query are drafted alike. -/
theorem Query.parts_pruned {q : Query} (h : ∀ e ∈ q.children, e.DraftedPruned d) :
    q.pruned.parts d = q.parts d := by
  have hclauses := Query.throughout h
  -- The limits are kept, and with them the way the page is chosen.
  have hwindowed : q.pruned.windowed d = q.windowed d := by
    rw [windowed, windowed, q.pruned_offset, q.pruned_count]
  have hname : q.pruned.orderName d = q.orderName d := by
    rw [orderName, orderName, hwindowed, q.pruned_distinct, q.pruned_select, outputName_pruned]
  have hsource : q.pruned.sourceClause d = q.sourceClause d := by
    rw [sourceClause, sourceClause, q.pruned_source]
    cases hs : q.source with
    | none => rfl
    | some s => exact Source.draft_pruned (hclauses.source s hs)
  -- `HAVING` is written if there are columns that rows are grouped by, and none of them is lost.
  have hgroup : q.pruned.groupClause d = q.groupClause d := by
    rw [groupClause, groupClause, q.pruned_groupBy, q.pruned_having, List.isEmpty_map,
      conditionsClause_pruned, map_draft_pruned _ hclauses.groupBy,
      map_draft_pruned _ hclauses.having]
  rw [parts, parts, hname, hsource, hgroup, q.pruned_select, q.pruned_filter, q.pruned_orderBy,
    q.pruned_distinct, q.pruned_offset, q.pruned_count, outputColumns?_pruned,
    conditionsClause_pruned, map_fieldDraft_pruned _ hclauses.fields,
    map_draft_pruned _ hclauses.filter, map_orderDraft_pruned _ _ hclauses.orderBy]

theorem Query.draft_pruned (topLevel : Bool) {q : Query}
    (h : ∀ e ∈ q.children, e.DraftedPruned d) :
    q.pruned.draft d topLevel = q.draft d topLevel := by
  have hwindowed : q.pruned.windowed d = q.windowed d := by
    rw [windowed, windowed, q.pruned_offset, q.pruned_count]
  rw [Query.draft_eq, Query.draft_eq, hwindowed, Query.parts_pruned h, q.pruned_offset,
    q.pruned_count]

/-- Every expression inside a statement is drafted alike with and without its empty parts. -/
theorem Expression.draft_pruned (d : Dialect) (e : Expression) : e.pruned.draft d = e.draft d := by
  induction e using Expression.induction with
  | step e ih =>
    -- One case for each kind of node, with the same draft for all its children.
    cases e with
    | query q => exact congrArg parenthesized (Query.draft_pruned false ih)
    | table t => exact t.draft_pruned
    | condition c => exact Condition.draft_pruned ih
    | conditions items =>
      rw [pruned, draft_conditions, draft_conditions, prunedItems_eq_map, sequenceDraft_pruned,
        map_draft_pruned items ih]
    | aggregate function argument =>
      rw [pruned, draft_aggregate, draft_aggregate, ih argument List.mem_cons_self]
    | select fields =>
      rw [pruned, draft_select, draft_select, prunedFields_eq_map, map_fieldDraft_pruned fields ih]
    | source s => exact Source.draft_pruned ih
    | join j => exact Join.draft_pruned ih
    | filter items =>
      rw [pruned, draft_filter, draft_filter, prunedItems_eq_map, conditionsClause_pruned,
        map_draft_pruned items ih]
    | groupBy fields =>
      rw [pruned, draft_groupBy, draft_groupBy, prunedItems_eq_map,
        map_draft_pruned fields ih]
    | having items =>
      rw [pruned, draft_having, draft_having, prunedItems_eq_map, conditionsClause_pruned,
        map_draft_pruned items ih]
    | orderBy fields =>
      rw [pruned, draft_orderBy, draft_orderBy, prunedOrder_eq_map,
        map_orderDraft_pruned id fields ih]
    | field f => exact Field.draft_pruned (ih f.expr List.mem_cons_self)
    | _ => rfl

/-! ### Whole statements -/

/-- A clause without conditions writes nothing, as one that is absent. -/
theorem filterDraft_pruned (filter : Option (List Expression)) :
    filterDraft d (prunedClause filter) = filterDraft d filter := by
  rw [filterDraft_eq, filterDraft_eq, getD_prunedClause, conditionsClause_pruned,
    map_draft_pruned _ fun e _ => e.draft_pruned d]

/-- An order without columns writes nothing, as one that is absent. -/
theorem orderDraft_pruned (order : Option (List OrderField)) :
    orderDraft d (prunedOrderBy order) = orderDraft d order := by
  rw [orderDraft_eq, orderDraft_eq, getD_prunedOrderBy,
    map_orderDraft_pruned id _ fun e _ => e.draft_pruned d]

/-- What is made of the columns and the drafts of assignments is made of them when they are pruned.
-/
theorem map_assignments_pruned {α : Type} (part : String → Draft → α)
    (assignments : List Assignment) :
    ((prunedAssignments assignments).map fun a => part a.column (a.value.draft d)) =
      assignments.map fun a => part a.column (a.value.draft d) := by
  rw [prunedAssignments_eq_map, List.map_map]
  refine List.map_congr_left fun a _ => ?_
  obtain ⟨column, value⟩ := a
  exact congrArg (part column) (value.draft_pruned d)

theorem isEmpty_prunedAssignments (assignments : List Assignment) :
    (prunedAssignments assignments).isEmpty = assignments.isEmpty := by
  rw [prunedAssignments_eq_map, List.isEmpty_map]

theorem Insert.draft_pruned (i : Insert) : i.pruned.draft d = i.draft d := by
  obtain ⟨table, assignments⟩ := i
  have hcolumns := map_assignments_pruned (d := d) (fun column _ => Draft.text column) assignments
  have hvalues := map_assignments_pruned (d := d) (fun _ value => value) assignments
  rw [Insert.draft, Insert.draft, Insert.pruned]
  rw [isEmpty_prunedAssignments, hcolumns, hvalues]
  rfl

theorem Update.draft_pruned (u : Update) : u.pruned.draft d = u.draft d := by
  obtain ⟨table, assignments, filter, orderBy, count⟩ := u
  have hset := map_assignments_pruned (d := d)
    (fun column value => Draft.text column ++ Draft.text " = " ++ value) assignments
  rw [Update.draft, Update.draft, Update.pruned]
  rw [isEmpty_prunedAssignments, hset, filterDraft_pruned, orderDraft_pruned]
  rfl

theorem Delete.draft_pruned (s : Delete) : s.pruned.draft d = s.draft d := by
  obtain ⟨table, filter, orderBy, count⟩ := s
  rw [Delete.draft, Delete.draft, Delete.pruned]
  rw [filterDraft_pruned, orderDraft_pruned]
  rfl

theorem Expression.statementDraft_pruned (d : Dialect) (e : Expression) :
    e.pruned.statementDraft d = e.statementDraft d := by
  cases e with
  | query q => exact Query.draft_pruned true fun e _ => e.draft_pruned d
  | insert i => exact i.draft_pruned
  | update u => exact u.draft_pruned
  | delete s => exact s.draft_pruned
  | _ => rfl

/-- **Absent and empty are the same everywhere.** Without its empty clauses and its empty aliases an
expression compiles to the same text and the same arguments, or is refused with the same error, in
every dialect and every layout. -/
theorem compile_pruned (c : Compiler) (e : Expression) : c.compile e.pruned = c.compile e := by
  have hstatement : compileStatement c.dialect c.layout e.pruned =
      compileStatement c.dialect c.layout e := by
    rw [compileStatement, compileStatement, Expression.statementDraft_pruned]
  cases e with
  | text _ | procedure _ => rfl
  | _ => exact hstatement

end SqlTree
