import Mathlib.Data.List.Perm.Basic
import SqlTree.Proofs.Syntax.Children
import SqlTree.Statement.Basic

/-!
# The values of a statement in reading order

`Expression.boundValues` lists the values that a statement binds as a reader of its tree meets them:
clause after clause, and each clause from left to right.  It knows nothing of text, only three
things about statements: a null is written out, a list in a membership test stands for its elements,
and `HAVING` belongs to `GROUP BY`.  Where pages are chosen by row number a page reads its order
early, but binds the same values (`Expression.boundValues_perm`).
-/

namespace SqlTree

/-! ### Definition -/

/-- The value itself, unless it is null. -/
def Value.bound (v : Value) : List Value := if v.isNull then [] else [v]

/-- The values of the right side of a membership test: a list stands for its elements. -/
def memberValues (e : Expression) (values : List Value) : List Value :=
  match e with
  | .value (.list items) => items.flatMap Value.bound
  | _ => values

mutual

/-- The values that an expression binds.  `numbered` says that pages are chosen by row number. -/
def Expression.boundValues (numbered : Bool) : Expression → List Value
  | .query q => q.boundValues numbered
  | .insert i => i.boundValues numbered
  | .update u => u.boundValues numbered
  | .delete s => s.boundValues numbered
  | .value v => v.bound
  | .condition c => c.boundValues numbered
  | .conditions items => itemValues numbered items
  | .aggregate _ argument => argument.boundValues numbered
  | .select fields => fieldValues numbered fields
  | .source s => s.boundValues numbered
  | .join j => j.boundValues numbered
  | .filter items => itemValues numbered items
  | .groupBy fields => itemValues numbered fields
  | .having items => itemValues numbered items
  | .orderBy fields => orderValues numbered fields
  | .field f => f.boundValues numbered
  | .text _ | .procedure _ | .table _ | .column _ | .parameter _ | .output _ | .null | .sql _
  | .operator _ | .zero => []

/-- The values that a query binds. -/
def Query.boundValues (numbered : Bool) : Query → List Value
  | ⟨distinct, select, source, filter, groupBy, having, orderBy, offset, count⟩ =>
    let fields := match select with
      | none => []
      | some fields => fieldValues numbered fields
    let joins := match source with
      | none => []
      | some s => s.boundValues numbered
    let conditions := match filter with
      | none => []
      | some items => itemValues numbered items
    let groups := match groupBy with
      | none => []
      | some fields => itemValues numbered fields
    let having := match having with
      | none => []
      | some items => itemValues numbered items
    let order := match orderBy with
      | none => []
      | some fields => orderValues numbered fields
    let rows := joins ++ conditions ++ groups ++ if (groupBy.getD []).isEmpty then [] else having
    if numbered && isLimited offset count then
      if distinct then order ++ fields ++ rows else fields ++ order ++ rows
    else fields ++ rows ++ order

/-- The values that an `INSERT` statement binds. -/
def Insert.boundValues (numbered : Bool) : Insert → List Value
  | ⟨_, assignments⟩ => assignmentValues numbered assignments

/-- The values that an `UPDATE` statement binds. -/
def Update.boundValues (numbered : Bool) : Update → List Value
  | ⟨_, assignments, filter, orderBy, _⟩ =>
    assignmentValues numbered assignments ++
      (match filter with
        | none => []
        | some items => itemValues numbered items) ++
      match orderBy with
        | none => []
        | some fields => orderValues numbered fields

/-- The values that a `DELETE` statement binds. -/
def Delete.boundValues (numbered : Bool) : Delete → List Value
  | ⟨_, filter, orderBy, _⟩ =>
    (match filter with
      | none => []
      | some items => itemValues numbered items) ++
      match orderBy with
        | none => []
        | some fields => orderValues numbered fields

/-- The values that a condition binds. -/
def Condition.boundValues (numbered : Bool) : Condition → List Value
  | ⟨left, op, right⟩ =>
    (match left with
      | none => []
      | some e => e.boundValues numbered) ++
      match right with
        | none => []
        | some e =>
          let values := e.boundValues numbered
          if left.isSome && op.isMembership then memberValues e values else values

/-- The values that a field binds. -/
def Field.boundValues (numbered : Bool) : Field → List Value
  | ⟨expr, _⟩ => expr.boundValues numbered

/-- The values that a `FROM` clause binds. -/
def Source.boundValues (numbered : Bool) : Source → List Value
  | ⟨_, joins⟩ => joinValues numbered joins

/-- The values that a join binds. -/
def Join.boundValues (numbered : Bool) : Join → List Value
  | ⟨_, _, conditions⟩ => itemValues numbered conditions

/-- The values that expressions bind, one after another. -/
def itemValues (numbered : Bool) : List Expression → List Value
  | [] => []
  | e :: rest => e.boundValues numbered ++ itemValues numbered rest

/-- The values that fields bind, one after another. -/
def fieldValues (numbered : Bool) : List Field → List Value
  | [] => []
  | f :: rest => f.boundValues numbered ++ fieldValues numbered rest

/-- The values that joins bind, one after another. -/
def joinValues (numbered : Bool) : List Join → List Value
  | [] => []
  | j :: rest => j.boundValues numbered ++ joinValues numbered rest

/-- The values that the fields of an order bind, one after another. -/
def orderValues (numbered : Bool) : List OrderField → List Value
  | [] => []
  | ⟨expr, _⟩ :: rest => expr.boundValues numbered ++ orderValues numbered rest

/-- The values that columns are set to, one after another. -/
def assignmentValues (numbered : Bool) : List Assignment → List Value
  | [] => []
  | ⟨_, value⟩ :: rest => value.boundValues numbered ++ assignmentValues numbered rest

end

/-! ### Equations -/

variable (numbered : Bool)

theorem itemValues_eq_flatMap (items : List Expression) :
    itemValues numbered items = items.flatMap (Expression.boundValues numbered) := by
  induction items with
  | nil => rfl
  | cons e rest ih => rw [itemValues, ih, List.flatMap_cons]

theorem fieldValues_eq_flatMap (fields : List Field) :
    fieldValues numbered fields = fields.flatMap fun f => f.expr.boundValues numbered := by
  induction fields with
  | nil => rfl
  | cons f rest ih =>
    obtain ⟨expr, label⟩ := f
    rw [fieldValues, ih, List.flatMap_cons, Field.boundValues]

theorem Join.boundValues_eq (j : Join) :
    j.boundValues numbered = j.conditions.flatMap (Expression.boundValues numbered) := by
  cases j
  rw [Join.boundValues, itemValues_eq_flatMap]

theorem joinValues_eq_flatMap (joins : List Join) :
    joinValues numbered joins = joins.flatMap (Join.boundValues numbered) := by
  induction joins with
  | nil => rfl
  | cons j rest ih => rw [joinValues, ih, List.flatMap_cons]

theorem Source.boundValues_eq (s : Source) :
    s.boundValues numbered = s.joins.flatMap (Join.boundValues numbered) := by
  cases s
  rw [Source.boundValues, joinValues_eq_flatMap]

theorem orderValues_eq_flatMap (fields : List OrderField) :
    orderValues numbered fields = fields.flatMap fun f => f.expr.boundValues numbered := by
  induction fields with
  | nil => rfl
  | cons f rest ih =>
    obtain ⟨expr, direction⟩ := f
    rw [orderValues, ih, List.flatMap_cons]

theorem assignmentValues_eq_flatMap (assignments : List Assignment) :
    assignmentValues numbered assignments =
      assignments.flatMap fun a => a.value.boundValues numbered := by
  induction assignments with
  | nil => rfl
  | cons a rest ih =>
    obtain ⟨column, value⟩ := a
    rw [assignmentValues, ih, List.flatMap_cons]

/-- A condition binds what its sides do; a list of members binds its items instead of itself. -/
theorem Condition.boundValues_eq (c : Condition) :
    c.boundValues numbered =
      (c.left.map (Expression.boundValues numbered)).getD [] ++
        (c.right.map fun e =>
          if c.left.isSome && c.op.isMembership then memberValues e (e.boundValues numbered)
          else e.boundValues numbered).getD [] := by
  obtain ⟨left, op, right⟩ := c
  cases left <;> cases right <;> rfl

namespace Query

/-- The values of the field list. -/
def selectValues (q : Query) : List Value :=
  (q.select.getD []).flatMap fun f => f.expr.boundValues numbered

/-- The values of the clauses from `FROM` to `HAVING`. -/
def rowValues (q : Query) : List Value :=
  (q.source.map (Source.boundValues numbered)).getD [] ++
    (q.filter.getD []).flatMap (Expression.boundValues numbered) ++
    (q.groupBy.getD []).flatMap (Expression.boundValues numbered) ++
    if (q.groupBy.getD []).isEmpty then []
    else (q.having.getD []).flatMap (Expression.boundValues numbered)

/-- The values of the order. -/
def orderByValues (q : Query) : List Value :=
  (q.orderBy.getD []).flatMap fun f => f.expr.boundValues numbered

/-- The clauses of a query bind in the order in which they are written, which the numbering of rows
may change. -/
theorem boundValues_eq (q : Query) :
    q.boundValues numbered =
      if numbered && isLimited q.offset q.count then
        if q.distinct then
          q.orderByValues numbered ++ q.selectValues numbered ++ q.rowValues numbered
        else q.selectValues numbered ++ q.orderByValues numbered ++ q.rowValues numbered
      else q.selectValues numbered ++ q.rowValues numbered ++ q.orderByValues numbered := by
  obtain ⟨distinct, select, source, filter, groupBy, having, orderBy, offset, count⟩ := q
  simp only [selectValues, rowValues, orderByValues, ← itemValues_eq_flatMap,
    ← fieldValues_eq_flatMap, ← orderValues_eq_flatMap]
  cases select <;> cases source <;> cases filter <;> cases groupBy <;> cases having <;>
    cases orderBy <;> rfl

end Query

theorem Insert.boundValues_eq (i : Insert) :
    i.boundValues numbered = i.assignments.flatMap fun a => a.value.boundValues numbered := by
  cases i
  rw [Insert.boundValues, assignmentValues_eq_flatMap]

/-- An update binds what it sets, then its conditions and its order. -/
theorem Update.boundValues_eq (u : Update) :
    u.boundValues numbered =
      u.assignments.flatMap (fun a => a.value.boundValues numbered) ++
        (u.filter.getD []).flatMap (Expression.boundValues numbered) ++
        (u.orderBy.getD []).flatMap fun f => f.expr.boundValues numbered := by
  obtain ⟨table, assignments, filter, orderBy, count⟩ := u
  simp only [← itemValues_eq_flatMap, ← orderValues_eq_flatMap, ← assignmentValues_eq_flatMap]
  cases filter <;> cases orderBy <;> rfl

theorem Delete.boundValues_eq (s : Delete) :
    s.boundValues numbered =
      (s.filter.getD []).flatMap (Expression.boundValues numbered) ++
        (s.orderBy.getD []).flatMap fun f => f.expr.boundValues numbered := by
  obtain ⟨table, filter, orderBy, count⟩ := s
  simp only [← itemValues_eq_flatMap, ← orderValues_eq_flatMap]
  cases filter <;> cases orderBy <;> rfl

/-! ### Both orders bind the same values -/

variable {numbered}

/-- The values of an expression are the same in both orders, up to their places. -/
def Expression.SameValues (numbered : Bool) (e : Expression) : Prop :=
  (e.boundValues numbered).Perm (e.boundValues false)

theorem sameValues_items {items : List Expression} (h : ∀ e ∈ items, e.SameValues numbered) :
    (items.flatMap (Expression.boundValues numbered)).Perm
      (items.flatMap (Expression.boundValues false)) :=
  List.Perm.flatMap_left items h

/-- Lists of nodes with one expression each bind the same values in both orders. -/
theorem sameValues_map {α : Type} {part : α → Expression} {l : List α}
    (h : ∀ e ∈ l.map part, e.SameValues numbered) :
    (l.flatMap fun a => (part a).boundValues numbered).Perm
      (l.flatMap fun a => (part a).boundValues false) :=
  List.Perm.flatMap_left l fun _ ha => h _ (List.mem_map_of_mem ha)

theorem Join.sameValues {j : Join} (h : ∀ e ∈ j.conditions, e.SameValues numbered) :
    (j.boundValues numbered).Perm (j.boundValues false) := by
  rw [Join.boundValues_eq, Join.boundValues_eq]
  exact sameValues_items h

theorem Source.sameValues {s : Source} (h : ∀ e ∈ s.children, e.SameValues numbered) :
    (s.boundValues numbered).Perm (s.boundValues false) := by
  rw [Source.boundValues_eq, Source.boundValues_eq]
  exact List.Perm.flatMap_left s.joins fun j hj => Join.sameValues (Source.forall_conditions h hj)

/-- Whether the values are those of a list of members does not depend on their order. -/
theorem memberValues_perm (e : Expression) {vs ws : List Value} (h : vs.Perm ws) :
    (memberValues e vs).Perm (memberValues e ws) := by
  unfold memberValues
  split
  · exact List.Perm.refl _
  · exact h

/-- Numbering the rows of a nested query permutes the values of a condition that holds it. -/
theorem Condition.sameValues {c : Condition} (h : ∀ e ∈ c.children, e.SameValues numbered) :
    (c.boundValues numbered).Perm (c.boundValues false) := by
  have hleft := Condition.forall_left h
  have hright := Condition.forall_right h
  -- The sides are permuted each by itself.
  obtain ⟨left, op, right⟩ := c
  rw [Condition.boundValues_eq, Condition.boundValues_eq]
  apply List.Perm.append
  · cases left with
    | none => exact List.Perm.refl _
    | some e => exact hleft e rfl
  · cases right with
    | none => exact List.Perm.refl _
    | some e =>
      have he : e.SameValues numbered := hright e rfl
      show (if _ then _ else _ : List Value).Perm (if _ then _ else _)
      split
      · exact memberValues_perm e he
      · exact he

/-- Numbering the rows moves the values of the order, and does not change them. -/
theorem Query.sameValues {q : Query} (h : ∀ e ∈ q.children, e.SameValues numbered) :
    (q.boundValues numbered).Perm (q.boundValues false) := by
  have hq := Query.throughout h
  have hselect : (q.selectValues numbered).Perm (q.selectValues false) := sameValues_map hq.fields
  have horder : (q.orderByValues numbered).Perm (q.orderByValues false) :=
    sameValues_map hq.orderBy
  -- The clauses behind the fields stay in their order.
  have hrows : (q.rowValues numbered).Perm (q.rowValues false) := by
    refine ((List.Perm.append ?_ ?_).append ?_).append ?_
    · cases hs : q.source with
      | none => exact List.Perm.refl _
      | some s => exact Source.sameValues (hq.source s hs)
    · exact sameValues_items hq.filter
    · exact sameValues_items hq.groupBy
    · split
      · exact List.Perm.refl _
      · exact sameValues_items hq.having
  rw [boundValues_eq, boundValues_eq, Bool.false_and, if_neg Bool.false_ne_true]
  split
  · split
    · -- The whole order has moved to the front.
      rw [List.append_assoc]
      exact (horder.append (hselect.append hrows)).trans List.perm_append_comm
    · -- The order has moved past the clauses from `FROM` to `HAVING`.
      rw [List.append_assoc, List.append_assoc]
      exact hselect.append ((horder.append hrows).trans List.perm_append_comm)
  · exact (hselect.append hrows).append horder

/-- Where pages are chosen by row number a statement binds the same values in another order. -/
theorem Expression.boundValues_perm (numbered : Bool) (e : Expression) :
    (e.boundValues numbered).Perm (e.boundValues false) := by
  induction e using Expression.induction with
  | step e ih =>
    -- One case for each kind of node.
    cases e with
    | query q => exact Query.sameValues ih
    | insert i =>
      simp only [boundValues, Insert.boundValues_eq]
      exact sameValues_map ih
    | update u =>
      simp only [children, Update.children, List.mem_append] at ih
      simp only [boundValues, Update.boundValues_eq]
      refine (List.Perm.append ?_ ?_).append ?_
      · exact sameValues_map fun e he => ih e (by simp only [he, true_or])
      · exact sameValues_items fun e he => ih e (by simp only [he, true_or, or_true])
      · exact sameValues_map fun e he => ih e (by simp only [he, or_true])
    | delete s =>
      simp only [children, Delete.children, List.mem_append] at ih
      simp only [boundValues, Delete.boundValues_eq]
      refine List.Perm.append ?_ ?_
      · exact sameValues_items fun e he => ih e (Or.inl he)
      · exact sameValues_map fun e he => ih e (Or.inr he)
    | condition c => exact Condition.sameValues ih
    | conditions items | filter items | groupBy items | having items =>
      simp only [boundValues, itemValues_eq_flatMap]
      exact sameValues_items ih
    | aggregate function argument => exact ih argument List.mem_cons_self
    | select fields =>
      simp only [boundValues, fieldValues_eq_flatMap]
      exact sameValues_map ih
    | source s => exact Source.sameValues ih
    | join j => exact Join.sameValues ih
    | orderBy fields =>
      simp only [boundValues, orderValues_eq_flatMap]
      exact sameValues_map ih
    | field f =>
      obtain ⟨expr, label⟩ := f
      exact ih expr List.mem_cons_self
    | _ => exact List.Perm.refl _

end SqlTree
