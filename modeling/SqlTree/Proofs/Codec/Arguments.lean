import SqlTree.Proofs.Binding.Independence
import SqlTree.Proofs.Codec.Expression

/-!
# Finite arguments

Main statement, `Compiler.finite_arguments`: if the floats of an expression are finite, then so are
those of the values that it is compiled to.

Arguments are values of the expression, but nothing has to be said about where they come from: a
change of values commutes with compiling (`Compiler.compile_map`), and the change that takes other
floats to zero leaves a finite expression as it is (`Expression.Finite.mapValues_eq`), hence its
arguments too.
-/

namespace SqlTree

/-! ### Changes that leave a tree as it is -/

section Fixed

variable {f : Value → Value}

/-- A change of values leaves an expression as it is. -/
def Expression.Fixed (f : Value → Value) (e : Expression) : Prop := e.mapValues f = e

/-- What leaves every element of a list as it is leaves the list as it is. -/
theorem map_eq_self {α : Type} {g : α → α} {l : List α} (h : ∀ a ∈ l, g a = a) : l.map g = l :=
  (List.map_congr_left h).trans (List.map_id l)

/-- The same for a list that may be absent. -/
theorem getD_map_eq_self {α : Type} {g : α → α} {o : Option (List α)}
    (h : ∀ a ∈ o.getD [], g a = a) : o.map (List.map g) = o := by
  cases o with
  | none => rfl
  | some l => exact congrArg some (map_eq_self h)

/-- The parts of a tree stay as they are if the expressions in them do. -/
theorem Field.mapValues_eq_self {x : Field} (h : x.expr.Fixed f) : x.mapValues f = x := by
  obtain ⟨expr, label⟩ := x
  exact congrArg (Field.mk · label) h

theorem OrderField.mapValues_eq_self {x : OrderField} (h : x.expr.Fixed f) : x.mapValues f = x := by
  obtain ⟨expr, direction⟩ := x
  exact congrArg (OrderField.mk · direction) h

theorem Assignment.mapValues_eq_self {a : Assignment} (h : a.value.Fixed f) :
    a.mapValues f = a := by
  obtain ⟨column, value⟩ := a
  exact congrArg (Assignment.mk column) h

theorem Join.mapValues_eq_self {j : Join} (h : ∀ e ∈ j.conditions, e.Fixed f) :
    j.mapValues f = j := by
  obtain ⟨kind, table, conditions⟩ := j
  rw [Join.mapValues, mapItemValues_eq_map, map_eq_self h]

/-- A source stays as it is if all conditions of its joins do. -/
theorem Source.mapValues_eq_self {s : Source} (h : ∀ e ∈ s.children, e.Fixed f) :
    s.mapValues f = s := by
  obtain ⟨tables, joins⟩ := s
  rw [Source.mapValues, mapJoinValues_eq_map,
    map_eq_self fun j hj => Join.mapValues_eq_self (Source.forall_conditions h hj)]

/-- What holds of the expressions of some fields holds of each of them. -/
theorem forall_of_forall_map {α : Type} {part : α → Expression} {P : Expression → Prop}
    {l : List α} (h : ∀ e ∈ l.map part, P e) : ∀ a ∈ l, P (part a) :=
  fun a ha => h (part a) (List.mem_map_of_mem ha)

/-- A query stays as it is if the expressions of all its clauses do. -/
theorem Query.mapValues_eq_self {q : Query} (h : ∀ e ∈ q.children, e.Fixed f) :
    q.mapValues f = q := by
  have hq := Query.throughout h
  have hselect : q.select.map (List.map (Field.mapValues f)) = q.select :=
    getD_map_eq_self fun x hx => Field.mapValues_eq_self (forall_of_forall_map hq.fields x hx)
  have hsource : q.source.map (Source.mapValues f) = q.source := by
    cases hs : q.source with
    | none => rfl
    | some s => exact congrArg some (Source.mapValues_eq_self (hq.source s hs))
  have horder : q.orderBy.map (List.map (OrderField.mapValues f)) = q.orderBy :=
    getD_map_eq_self fun x hx => OrderField.mapValues_eq_self (forall_of_forall_map hq.orderBy x hx)
  -- All clauses are in place, and only the record has to be put together again.
  rw [Query.mapValues_eq, hselect, hsource, getD_map_eq_self hq.filter,
    getD_map_eq_self hq.groupBy, getD_map_eq_self hq.having, horder]
  cases q
  rfl

theorem Insert.mapValues_eq_self {i : Insert} (h : ∀ e ∈ i.children, e.Fixed f) :
    i.mapValues f = i := by
  obtain ⟨table, assignments⟩ := i
  rw [Insert.mapValues, mapAssignmentValues_eq_map,
    map_eq_self fun a ha => Assignment.mapValues_eq_self (forall_of_forall_map h a ha)]

theorem Update.mapValues_eq_self {u : Update} (h : ∀ e ∈ u.children, e.Fixed f) :
    u.mapValues f = u := by
  obtain ⟨table, assignments, filter, orderBy, count⟩ := u
  simp only [Update.children, List.mem_append] at h
  have hassignments : assignments.map (Assignment.mapValues f) = assignments :=
    map_eq_self fun a ha => Assignment.mapValues_eq_self
      (h _ (.inl (.inl (List.mem_map_of_mem ha))))
  have hfilter : filter.map (List.map (Expression.mapValues f)) = filter :=
    getD_map_eq_self fun e he => h e (.inl (.inr he))
  have horder : orderBy.map (List.map (OrderField.mapValues f)) = orderBy :=
    getD_map_eq_self fun x hx => OrderField.mapValues_eq_self (h _ (.inr (List.mem_map_of_mem hx)))
  rw [Update.mapValues, mapAssignmentValues_eq_map, mapFilterValues_eq_map,
    mapOrderByValues_eq_map, hassignments, hfilter, horder]

theorem Delete.mapValues_eq_self {s : Delete} (h : ∀ e ∈ s.children, e.Fixed f) :
    s.mapValues f = s := by
  obtain ⟨table, filter, orderBy, count⟩ := s
  simp only [Delete.children, List.mem_append] at h
  have hfilter : filter.map (List.map (Expression.mapValues f)) = filter :=
    getD_map_eq_self fun e he => h e (.inl he)
  have horder : orderBy.map (List.map (OrderField.mapValues f)) = orderBy :=
    getD_map_eq_self fun x hx => OrderField.mapValues_eq_self (h _ (.inr (List.mem_map_of_mem hx)))
  rw [Delete.mapValues, mapFilterValues_eq_map, mapOrderByValues_eq_map, hfilter, horder]

theorem Condition.mapValues_eq_self {c : Condition} (h : ∀ e ∈ c.children, e.Fixed f) :
    c.mapValues f = c := by
  obtain ⟨left, op, right⟩ := c
  have hleft : left.map (Expression.mapValues f) = left := by
    cases left with
    | none => rfl
    | some e => exact congrArg some (Condition.forall_left h e rfl)
  have hright : right.map (Expression.mapValues f) = right := by
    cases right with
    | none => rfl
    | some e => exact congrArg some (Condition.forall_right h e rfl)
  rw [Condition.mapValues_eq, hleft, hright]

theorem Parameter.mapValue_eq_self {p : Parameter} (h : f p.value = p.value) :
    p.mapValue f = p := by
  rw [Parameter.mapValue, h]

/-- A template holds the values of its parameters and nothing else. -/
theorem Template.mapValues_eq_self {t : Template}
    (h : ∀ v ∈ t.parameters.entries.map (·.2.value), f v = v) : t.mapValues f = t := by
  have hentries : (t.parameters.map (Parameter.mapValue f)).entries = t.parameters.entries :=
    map_eq_self fun e he =>
      congrArg (Prod.mk e.1) (Parameter.mapValue_eq_self (h _ (List.mem_map_of_mem he)))
  have hparameters : t.parameters.map (Parameter.mapValue f) = t.parameters := by
    obtain ⟨sql, ⟨entries, increasing⟩⟩ := t
    simpa [Dictionary.map] using hentries
  rw [Template.mapValues, hparameters]

theorem Procedure.mapValues_eq_self {call : Procedure}
    (h : ∀ v ∈ call.parameters.map (·.value), f v = v) : call.mapValues f = call := by
  rw [Procedure.mapValues,
    map_eq_self fun p hp => Parameter.mapValue_eq_self (h _ (List.mem_map_of_mem hp))]

/-- A change that fixes the values of a node and its children fixes the node. -/
theorem Expression.fixed {e : Expression} (hvalues : ∀ v ∈ e.ownValues, f v = v)
    (hchildren : ∀ c ∈ e.children, c.Fixed f) : e.Fixed f := by
  have hitems {items : List Expression} (h : ∀ e ∈ items, e.Fixed f) :
      mapItemValues f items = items := (mapItemValues_eq_map f items).trans (map_eq_self h)
  -- Every kind is rebuilt from parts that stay as they are.
  cases e with
  | query q => exact congrArg Expression.query (Query.mapValues_eq_self hchildren)
  | insert i => exact congrArg Expression.insert (Insert.mapValues_eq_self hchildren)
  | update u => exact congrArg Expression.update (Update.mapValues_eq_self hchildren)
  | delete s => exact congrArg Expression.delete (Delete.mapValues_eq_self hchildren)
  | text t => exact congrArg Expression.text (Template.mapValues_eq_self hvalues)
  | procedure p => exact congrArg Expression.procedure (Procedure.mapValues_eq_self hvalues)
  | value v => exact congrArg Expression.value (hvalues v (List.mem_singleton_self v))
  | parameter p =>
    exact congrArg Expression.parameter
      (Parameter.mapValue_eq_self (hvalues _ (List.mem_singleton_self _)))
  | condition c => exact congrArg Expression.condition (Condition.mapValues_eq_self hchildren)
  | conditions items => exact congrArg Expression.conditions (hitems hchildren)
  | aggregate function argument =>
    exact congrArg (Expression.aggregate function) (hchildren argument (List.mem_singleton_self _))
  | select fields =>
    exact congrArg Expression.select ((mapFieldValues_eq_map f fields).trans (map_eq_self
      fun x hx => Field.mapValues_eq_self (forall_of_forall_map hchildren x hx)))
  | source s => exact congrArg Expression.source (Source.mapValues_eq_self hchildren)
  | join j => exact congrArg Expression.join (Join.mapValues_eq_self hchildren)
  | filter items => exact congrArg Expression.filter (hitems hchildren)
  | groupBy items => exact congrArg Expression.groupBy (hitems hchildren)
  | having items => exact congrArg Expression.having (hitems hchildren)
  | orderBy fields =>
    exact congrArg Expression.orderBy ((mapOrderValues_eq_map f fields).trans (map_eq_self
      fun x hx => OrderField.mapValues_eq_self (forall_of_forall_map hchildren x hx)))
  | field x =>
    exact congrArg Expression.field
      (Field.mapValues_eq_self (hchildren _ (List.mem_singleton_self _)))
  | table _ | column _ | output _ | null | sql _ | operator _ | zero => rfl

end Fixed

/-! ### Finite values -/

namespace Value

/-- A scalar, with zero in place of a float that is not finite. -/
def grounded : Value → Value
  | .float x => .float (if x.isFinite then x else 0.0)
  | v => v

/-- Grounding changes floats into floats, so no value changes its shape. -/
theorem keepsShape_grounded : KeepsShape (mapScalars grounded) :=
  keepsShape_mapScalars fun v hv => by
    cases v with
    | null | list items => cases hv
    | _ => rfl

mutual

/-- All floats are finite once the others are taken to zero. -/
theorem finite_grounded : ∀ v, (mapScalars grounded v).Finite
  | .null => .null
  | .bool b => .bool b
  | .int n => .int n
  | .float x => by
    refine .float ?_
    split
    · assumption
    · decide
  | .string s => .string s
  | .bytes content => .bytes content
  | .date d => .date d
  | .dateTime t => .dateTime t
  | .uuid u => .uuid u
  | .list items => .list (finite_groundedItems items)

theorem finite_groundedItems : ∀ items, ∀ v ∈ mapScalarsItems grounded items, v.Finite
  | [], _, hv => absurd hv List.not_mem_nil
  | item :: rest, v, hv => by
    rcases List.mem_cons.mp hv with rfl | hv
    · exact finite_grounded item
    · exact finite_groundedItems rest v hv

end

/-- A finite value has no float that grounding would change. -/
theorem Finite.grounded_eq {v : Value} (h : v.Finite) : mapScalars grounded v = v := by
  induction h with
  | float h => exact congrArg Value.float (if_pos h)
  | list h ih =>
    rw [mapScalars, mapScalarsItems_eq_map, map_eq_self ih]
  | _ => rfl

end Value

/-- By induction over the tree: its own values stay, and so do its parts. -/
theorem Expression.Finite.mapValues_eq {e : Expression} (h : e.Finite) :
    e.mapValues (Value.mapScalars Value.grounded) = e := by
  induction h with
  | intro values children ih =>
    exact Expression.fixed (fun v hv => (values v hv).grounded_eq) ih

/-- **The values that a finite expression is compiled to are finite.** -/
theorem Compiler.finite_arguments {c : Compiler} {e : Expression} (he : e.Finite)
    {compiled : Compiled} (h : c.compile e = .ok compiled) :
    ∀ v ∈ compiled.arguments, v.Finite := by
  have hmap := c.compile_map Value.keepsShape_grounded e
  rw [he.mapValues_eq, h] at hmap
  have hfixed : compiled.arguments = compiled.arguments.map (Value.mapScalars Value.grounded) :=
    congrArg Compiled.arguments (Except.ok.inj hmap)
  intro v hv
  rw [hfixed] at hv
  obtain ⟨v', -, rfl⟩ := List.mem_map.mp hv
  exact Value.finite_grounded v'

end SqlTree
