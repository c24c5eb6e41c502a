import SqlTree.Expression.Basic

/-!
# Induction over statement trees

Statement trees are nested through clauses, optional parts and lists, so that no recursor of the
types has a usable form.  `Expression.children` lists the expressions directly inside an expression,
in the order in which a statement is written, and `Expression.induction` proves a property of every
expression from the property of its children: clauses need no hypotheses of their own.  A property
of all children of a query is one of each clause (`Query.throughout`).
-/

namespace SqlTree

/-! ### Children -/

/-- The sides of a condition. -/
def Condition.children (c : Condition) : List Expression := c.left.toList ++ c.right.toList

/-- The conditions of the joins of a `FROM` clause. -/
def Source.children (s : Source) : List Expression := s.joins.flatMap (·.conditions)

/-- The expressions in the clauses of a query, from the field list to the order. -/
def Query.children (q : Query) : List Expression :=
  (q.select.getD []).map (·.expr) ++ (q.source.map Source.children).getD [] ++ q.filter.getD [] ++
    q.groupBy.getD [] ++ q.having.getD [] ++ (q.orderBy.getD []).map (·.expr)

/-- The values of the columns of an `INSERT` statement. -/
def Insert.children (i : Insert) : List Expression := i.assignments.map (·.value)

/-- The expressions in the clauses of an `UPDATE` statement. -/
def Update.children (u : Update) : List Expression :=
  u.assignments.map (·.value) ++ u.filter.getD [] ++ (u.orderBy.getD []).map (·.expr)

/-- The expressions in the clauses of a `DELETE` statement. -/
def Delete.children (s : Delete) : List Expression :=
  s.filter.getD [] ++ (s.orderBy.getD []).map (·.expr)

/-- The expressions directly inside an expression. -/
def Expression.children : Expression → List Expression
  | .query q => q.children
  | .insert i => i.children
  | .update u => u.children
  | .delete s => s.children
  | .condition c => c.children
  | .aggregate _ argument => [argument]
  | .select fields => fields.map (·.expr)
  | .source s => s.children
  | .join j => j.conditions
  | .orderBy fields => fields.map (·.expr)
  | .field f => [f.expr]
  | .conditions items | .filter items | .groupBy items | .having items => items
  | .text _ | .procedure _ | .table _ | .column _ | .value _ | .parameter _ | .output _ | .null
  | .sql _ | .operator _ | .zero => []

/-! ### Properties of all children -/

section Forall

variable {P : Expression → Prop}

theorem Condition.forall_left {c : Condition} (h : ∀ e ∈ c.children, P e) : ∀ e ∈ c.left, P e :=
  fun e he => h e (List.mem_append_left _ (Option.mem_toList.mpr he))

theorem Condition.forall_right {c : Condition} (h : ∀ e ∈ c.children, P e) : ∀ e ∈ c.right, P e :=
  fun e he => h e (List.mem_append_right _ (Option.mem_toList.mpr he))

theorem Source.forall_conditions {s : Source} (h : ∀ e ∈ s.children, P e) {j : Join}
    (hj : j ∈ s.joins) : ∀ e ∈ j.conditions, P e :=
  fun e he => h e (List.mem_flatMap.mpr ⟨j, hj, he⟩)

/-- A property of every expression in a query, clause by clause. -/
structure Query.Throughout (P : Expression → Prop) (q : Query) : Prop where
  /-- It holds of the fields. -/
  fields : ∀ e ∈ (q.select.getD []).map (·.expr), P e
  /-- It holds of the conditions of the joins. -/
  source : ∀ s ∈ q.source, ∀ e ∈ s.children, P e
  /-- It holds of the conditions of the `WHERE` clause. -/
  filter : ∀ e ∈ q.filter.getD [], P e
  /-- It holds of the fields of the `GROUP BY` clause. -/
  groupBy : ∀ e ∈ q.groupBy.getD [], P e
  /-- It holds of the conditions of the `HAVING` clause. -/
  having : ∀ e ∈ q.having.getD [], P e
  /-- It holds of the fields of the `ORDER BY` clause. -/
  orderBy : ∀ e ∈ (q.orderBy.getD []).map (·.expr), P e

/-- What holds of all children of a query holds of them clause by clause. -/
theorem Query.throughout {q : Query} (h : ∀ e ∈ q.children, P e) : q.Throughout P := by
  simp only [Query.children, List.mem_append] at h
  constructor
  · exact fun e he => h e (by simp only [he, true_or])
  · intro s hs e he
    rw [Option.mem_def] at hs
    exact h e (by simp only [hs, Option.map_some, Option.getD_some, he, true_or, or_true])
  · exact fun e he => h e (by simp only [he, true_or, or_true])
  · exact fun e he => h e (by simp only [he, true_or, or_true])
  · exact fun e he => h e (by simp only [he, true_or, or_true])
  · exact fun e he => h e (by simp only [he, or_true])

/-- The clauses hold all children of a query. -/
theorem Query.Throughout.forall_children {q : Query} (h : q.Throughout P) :
    ∀ e ∈ q.children, P e := by
  intro e he
  simp only [Query.children, List.mem_append] at he
  -- The children come clause by clause.
  rcases he with ((((he | he) | he) | he) | he) | he
  · exact h.fields e he
  · cases hsource : q.source with
    | none =>
      rw [hsource] at he
      cases he
    | some s =>
      rw [hsource] at he
      exact h.source s hsource e he
  · exact h.filter e he
  · exact h.groupBy e he
  · exact h.having e he
  · exact h.orderBy e he

end Forall

/-! ### Children are smaller -/

section Size

variable {α : Type} [SizeOf α]

theorem sizeOf_lt_of_mem_toList {a : α} {o : Option α} (h : a ∈ o.toList) :
    sizeOf a < sizeOf o := by
  rw [Option.mem_toList] at h
  subst h
  simp

/-- An item of an optional clause is smaller than the clause. -/
theorem sizeOf_lt_of_mem_getD {a : α} {o : Option (List α)} (h : a ∈ o.getD []) :
    sizeOf a < sizeOf o := by
  cases o with
  | none => simp at h
  | some l =>
    have hl : sizeOf a < sizeOf l := List.sizeOf_lt_of_mem h
    simp only [Option.some.sizeOf_spec]
    omega

/-- A part of an element of a list is smaller than the list. -/
theorem sizeOf_lt_of_mem_map {part : α → Expression} (hpart : ∀ a, sizeOf (part a) < sizeOf a)
    {l : List α} {c : Expression} (h : c ∈ l.map part) : sizeOf c < sizeOf l := by
  obtain ⟨a, ha, rfl⟩ := List.mem_map.mp h
  exact Nat.lt_trans (hpart a) (List.sizeOf_lt_of_mem ha)

/-- A part of an element of an optional list is smaller than the option. -/
theorem sizeOf_lt_of_mem_map_getD {part : α → Expression}
    (hpart : ∀ a, sizeOf (part a) < sizeOf a) {o : Option (List α)} {c : Expression}
    (h : c ∈ (o.getD []).map part) : sizeOf c < sizeOf o := by
  obtain ⟨a, ha, rfl⟩ := List.mem_map.mp h
  exact Nat.lt_trans (hpart a) (sizeOf_lt_of_mem_getD ha)

end Size

theorem Field.sizeOf_expr_lt (f : Field) : sizeOf f.expr < sizeOf f := by
  cases f
  simp only [Field.mk.sizeOf_spec]
  omega

theorem OrderField.sizeOf_expr_lt (f : OrderField) : sizeOf f.expr < sizeOf f := by
  cases f
  simp only [OrderField.mk.sizeOf_spec]
  omega

theorem Assignment.sizeOf_value_lt (a : Assignment) : sizeOf a.value < sizeOf a := by
  cases a
  simp only [Assignment.mk.sizeOf_spec]
  omega

theorem Condition.sizeOf_lt_of_mem_children {x : Condition} {c : Expression}
    (h : c ∈ x.children) : sizeOf c < sizeOf x := by
  obtain ⟨left, op, right⟩ := x
  simp only [Condition.mk.sizeOf_spec]
  rcases List.mem_append.mp h with h | h
  · have : sizeOf c < sizeOf left := sizeOf_lt_of_mem_toList h
    omega
  · have : sizeOf c < sizeOf right := sizeOf_lt_of_mem_toList h
    omega

theorem Join.sizeOf_lt_of_mem_conditions {j : Join} {c : Expression} (h : c ∈ j.conditions) :
    sizeOf c < sizeOf j := by
  obtain ⟨kind, table, conditions⟩ := j
  have : sizeOf c < sizeOf conditions := List.sizeOf_lt_of_mem h
  simp only [Join.mk.sizeOf_spec]
  omega

theorem Source.sizeOf_lt_of_mem_children {s : Source} {c : Expression} (h : c ∈ s.children) :
    sizeOf c < sizeOf s := by
  obtain ⟨tables, joins⟩ := s
  obtain ⟨j, hj, hc⟩ := List.mem_flatMap.mp h
  have hlt : sizeOf c < sizeOf j := j.sizeOf_lt_of_mem_conditions hc
  have : sizeOf j < sizeOf joins := List.sizeOf_lt_of_mem hj
  simp only [Source.mk.sizeOf_spec]
  omega

/-- A child stands in one of the clauses, each of which is smaller than the query. -/
theorem Query.sizeOf_lt_of_mem_children {q : Query} {c : Expression} (h : c ∈ q.children) :
    sizeOf c < sizeOf q := by
  obtain ⟨distinct, select, source, filter, groupBy, having, orderBy, offset, count⟩ := q
  simp only [Query.mk.sizeOf_spec]
  simp only [Query.children, List.mem_append] at h
  -- The children come clause by clause.
  rcases h with ((((h | h) | h) | h) | h) | h
  · have : sizeOf c < sizeOf select := sizeOf_lt_of_mem_map_getD Field.sizeOf_expr_lt h
    omega
  · cases source with
    | none => simp at h
    | some s =>
      have : sizeOf c < sizeOf s := s.sizeOf_lt_of_mem_children h
      simp only [Option.some.sizeOf_spec]
      omega
  · have : sizeOf c < sizeOf filter := sizeOf_lt_of_mem_getD h
    omega
  · have : sizeOf c < sizeOf groupBy := sizeOf_lt_of_mem_getD h
    omega
  · have : sizeOf c < sizeOf having := sizeOf_lt_of_mem_getD h
    omega
  · have : sizeOf c < sizeOf orderBy := sizeOf_lt_of_mem_map_getD OrderField.sizeOf_expr_lt h
    omega

theorem Insert.sizeOf_lt_of_mem_children {i : Insert} {c : Expression} (h : c ∈ i.children) :
    sizeOf c < sizeOf i := by
  obtain ⟨table, assignments⟩ := i
  have : sizeOf c < sizeOf assignments := sizeOf_lt_of_mem_map Assignment.sizeOf_value_lt h
  simp only [Insert.mk.sizeOf_spec]
  omega

theorem Update.sizeOf_lt_of_mem_children {u : Update} {c : Expression} (h : c ∈ u.children) :
    sizeOf c < sizeOf u := by
  obtain ⟨table, assignments, filter, orderBy, count⟩ := u
  simp only [Update.mk.sizeOf_spec]
  simp only [Update.children, List.mem_append] at h
  rcases h with (h | h) | h
  · have : sizeOf c < sizeOf assignments := sizeOf_lt_of_mem_map Assignment.sizeOf_value_lt h
    omega
  · have : sizeOf c < sizeOf filter := sizeOf_lt_of_mem_getD h
    omega
  · have : sizeOf c < sizeOf orderBy := sizeOf_lt_of_mem_map_getD OrderField.sizeOf_expr_lt h
    omega

theorem Delete.sizeOf_lt_of_mem_children {s : Delete} {c : Expression} (h : c ∈ s.children) :
    sizeOf c < sizeOf s := by
  obtain ⟨table, filter, orderBy, count⟩ := s
  simp only [Delete.mk.sizeOf_spec]
  rcases List.mem_append.mp h with h | h
  · have : sizeOf c < sizeOf filter := sizeOf_lt_of_mem_getD h
    omega
  · have : sizeOf c < sizeOf orderBy := sizeOf_lt_of_mem_map_getD OrderField.sizeOf_expr_lt h
    omega

/-- What is directly inside an expression is smaller than it. -/
theorem Expression.sizeOf_lt_of_mem_children {e c : Expression} (h : c ∈ e.children) :
    sizeOf c < sizeOf e := by
  -- One case for each kind of node that has children.
  cases e with
  | query q => have := q.sizeOf_lt_of_mem_children h; simp only [query.sizeOf_spec]; omega
  | insert i => have := i.sizeOf_lt_of_mem_children h; simp only [insert.sizeOf_spec]; omega
  | update u => have := u.sizeOf_lt_of_mem_children h; simp only [update.sizeOf_spec]; omega
  | delete s => have := s.sizeOf_lt_of_mem_children h; simp only [delete.sizeOf_spec]; omega
  | condition x => have := x.sizeOf_lt_of_mem_children h; simp only [condition.sizeOf_spec]; omega
  | conditions items =>
    have : sizeOf c < sizeOf items := List.sizeOf_lt_of_mem h
    simp only [conditions.sizeOf_spec]
    omega
  | aggregate function argument =>
    obtain rfl := List.mem_singleton.mp h
    simp only [aggregate.sizeOf_spec]
    omega
  | select fields =>
    have := sizeOf_lt_of_mem_map Field.sizeOf_expr_lt h; simp only [select.sizeOf_spec]; omega
  | source s => have := s.sizeOf_lt_of_mem_children h; simp only [source.sizeOf_spec]; omega
  | join j => have := j.sizeOf_lt_of_mem_conditions h; simp only [join.sizeOf_spec]; omega
  | filter items =>
    have : sizeOf c < sizeOf items := List.sizeOf_lt_of_mem h
    simp only [filter.sizeOf_spec]
    omega
  | groupBy items =>
    have : sizeOf c < sizeOf items := List.sizeOf_lt_of_mem h
    simp only [groupBy.sizeOf_spec]
    omega
  | having items =>
    have : sizeOf c < sizeOf items := List.sizeOf_lt_of_mem h
    simp only [having.sizeOf_spec]
    omega
  | orderBy fields =>
    have := sizeOf_lt_of_mem_map OrderField.sizeOf_expr_lt h
    simp only [orderBy.sizeOf_spec]
    omega
  | field f =>
    obtain rfl := List.mem_singleton.mp h
    have := f.sizeOf_expr_lt
    simp only [field.sizeOf_spec]
    omega
  | text _ | procedure _ | table _ | column _ | value _ | parameter _ | output _ | null | sql _
  | operator _ | zero => simp [children] at h

/-! ### Induction -/

/-- A property of every expression follows from the property of its children. -/
@[elab_as_elim]
theorem Expression.induction {P : Expression → Prop}
    (step : ∀ e : Expression, (∀ c ∈ e.children, P c) → P e) (e : Expression) : P e :=
  step e fun c _ => Expression.induction step c
termination_by sizeOf e
decreasing_by exact Expression.sizeOf_lt_of_mem_children ‹_›

end SqlTree
