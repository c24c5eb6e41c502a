import SqlTree.Proofs.WellFormed.Parts

/-!
# Violations in visiting order

`Expression.visits` lists what a node checks and which parts it hands on, in the order in which it
is visited, and `Expression.violations` the errors of all checks that fail, in that order.  There
are none just in a well-formed statement (`Expression.statementViolations_eq_nil_iff`).
-/

namespace SqlTree

/-- A step of visiting a node. -/
inductive Visit where
  /-- A check with the fault that is reported when it fails. -/
  | check (passes : Bool) (fault : ArgumentFault)
  /-- A check that a kind of node may stand where it does. -/
  | place (passes : Bool) (kind : NodeKind) (position : Position)
  /-- A part that is visited in turn. -/
  | part (e : Expression)

/-! ### One node -/

/-- Visiting a table. -/
def Table.visit (t : Table) : Visit :=
  .check (!t.name.isEmpty || (usedAlias t.label).isSome) .unnamedTable

/-- Visiting a sequence of conditions: its groups come before its items. -/
def sequenceVisits (items : List Expression) : List Visit :=
  .check (Conditions.balanced items) .unbalancedGroups :: items.map .part

/-- Visiting a join. -/
def Join.visits (j : Join) : List Visit := j.table.visit :: sequenceVisits j.conditions

/-- Visiting a `FROM` clause. -/
def Source.visits (s : Source) : List Visit :=
  .check (!s.tables.isEmpty) .sourceWithoutTables ::
    (s.tables.map Table.visit ++ s.joins.flatMap Join.visits)

namespace Query

/-- Visiting the clauses of a query from `FROM` to `HAVING`. -/
def bodyVisits (q : Query) : List Visit :=
  (q.source.map Source.visits).getD [] ++ sequenceVisits (q.filter.getD []) ++
    if q.isGrouped then (q.groupBy.getD []).map .part ++ sequenceVisits (q.having.getD []) else []

/-- The page of a query that chooses it by row number. -/
def pageVisit (q : Query) : Visit :=
  .check (decide ¬(UInt64.size ≤ q.offset.toNat + q.count.toNat ∧ q.count ≠ 0))
    (.rowWindowOverflow q.offset q.count)

/-- Visiting a query.  Where rows are numbered, the order comes with the number: behind the fields,
or in front of everything if equal rows are returned once. -/
def visits (d : Dialect) (q : Query) : List Visit :=
  let fields := (q.select.getD []).map fun f => Visit.part f.expr
  let order := (q.orderBy.getD []).map fun f => Visit.part f.expr
  if q.windowed d then
    q.pageVisit ::
      if q.distinct then order ++ (fields ++ q.bodyVisits) else fields ++ (order ++ q.bodyVisits)
  else fields ++ q.bodyVisits ++ order

end Query

/-- Visiting an expression inside a statement. -/
def Expression.visits (d : Dialect) : Expression → List Visit
  | .query q => q.visits d
  | .table t => [t.visit]
  | .condition c => c.children.map .part
  | .conditions items | .filter items | .having items => sequenceVisits items
  | .aggregate _ argument => [.part argument]
  | .select fields => fields.map fun f => .part f.expr
  | .source s => s.visits
  | .join j => j.visits
  | .groupBy fields => fields.map .part
  | .orderBy fields => fields.map fun f => .part f.expr
  | .field f => [.part f.expr]
  | .column _ | .value _ | .null | .sql _ | .operator _ | .zero => []
  | e => [.place false e.kind .nested]

/-- Visiting an expression as a whole statement. -/
def Expression.statementVisits (d : Dialect) : Expression → List Visit
  | .query q => q.visits d
  | .insert i =>
    [.check (!i.table.name.isEmpty) .unnamedStatementTable,
      .check (!i.assignments.isEmpty) (.insertWithoutValues i.table.name)] ++
      i.assignments.map fun a => .part a.value
  | .update u =>
    [.check (!u.table.name.isEmpty) .unnamedStatementTable,
      .check (!u.assignments.isEmpty) (.updateWithoutColumns u.table.name)] ++
      (u.assignments.map fun a => .part a.value) ++ sequenceVisits (u.filter.getD []) ++
      ((u.orderBy.getD []).map fun f => .part f.expr) ++
      [.place (u.count == 0 || d.limitStyle != .rowNumber) .update .topLevel]
  | .delete s =>
    [.check (!s.table.name.isEmpty) .unnamedStatementTable] ++
      sequenceVisits (s.filter.getD []) ++ ((s.orderBy.getD []).map fun f => .part f.expr) ++
      [.place (s.count == 0 || d.limitStyle != .rowNumber) .delete .topLevel]
  | .zero => [.check false .emptyExpression]
  | e => [.place false e.kind .topLevel]

/-! ### Parts of a visit -/

theorem part_mem_map {α : Type} (expr : α → Expression) (l : List α) (c : Expression) :
    Visit.part c ∈ l.map (fun a => Visit.part (expr a)) ↔ c ∈ l.map expr := by
  simp

theorem part_mem_sequenceVisits (items : List Expression) (c : Expression) :
    Visit.part c ∈ sequenceVisits items ↔ c ∈ items := by
  simp [sequenceVisits]

theorem Source.part_mem_visits (s : Source) (c : Expression) :
    Visit.part c ∈ s.visits ↔ c ∈ s.children := by
  simp [visits, Join.visits, Table.visit, children, part_mem_sequenceVisits]

theorem Query.part_mem_visits (d : Dialect) (q : Query) (c : Expression) :
    Visit.part c ∈ q.visits d ↔ c ∈ q.rendered := by
  have hsource : Visit.part c ∈ (q.source.map Source.visits).getD [] ↔
      c ∈ (q.source.map Source.children).getD [] := by
    cases q.source with
    | none => simp
    | some s => exact s.part_mem_visits c
  have hgroups : (Visit.part c ∈ if q.isGrouped then
      (q.groupBy.getD []).map Visit.part ++ sequenceVisits (q.having.getD []) else []) ↔
      c ∈ if q.isGrouped then q.groupBy.getD [] ++ q.having.getD [] else [] := by
    cases q.isGrouped <;> simp [part_mem_sequenceVisits]
  have hbody : Visit.part c ∈ q.bodyVisits ↔
      (c ∈ (q.source.map Source.children).getD [] ∨ c ∈ q.filter.getD []) ∨
        c ∈ if q.isGrouped then q.groupBy.getD [] ++ q.having.getD [] else [] := by
    rw [bodyVisits, List.mem_append, List.mem_append, hsource, hgroups, part_mem_sequenceVisits]
  -- The order of the clauses does not matter here.
  have hvisits : Visit.part c ∈ q.visits d ↔
      c ∈ (q.select.getD []).map (·.expr) ∨ Visit.part c ∈ q.bodyVisits ∨
        c ∈ (q.orderBy.getD []).map (·.expr) := by
    unfold visits pageVisit
    split
    · split
      · simp only [List.mem_cons, List.mem_append, reduceCtorEq, part_mem_map, false_or]
        rw [or_comm, or_assoc]
      · simp only [List.mem_cons, List.mem_append, reduceCtorEq, part_mem_map, false_or]
        rw [or_congr_right or_comm]
    · simp only [List.mem_append, part_mem_map, or_assoc]
  rw [hvisits, hbody, rendered, List.mem_append, List.mem_append, List.mem_append, List.mem_append,
    or_assoc, or_assoc, or_assoc, or_assoc, or_assoc]

/-- What is rendered are children; those of the grouping may be left out. -/
theorem Query.rendered_subset (q : Query) : q.rendered ⊆ q.children := by
  have hgroups : (if q.isGrouped then q.groupBy.getD [] ++ q.having.getD [] else []) ⊆
      q.groupBy.getD [] ++ q.having.getD [] := by
    split
    · exact List.Subset.refl _
    · exact List.nil_subset _
  intro c hc
  simp only [rendered, children, List.mem_append, or_assoc] at hc ⊢
  refine hc.imp_right (Or.imp_right (Or.imp_right fun h => ?_))
  rcases h with h | h
  · exact (List.mem_append.mp (hgroups h)).imp_right Or.inl
  · exact Or.inr (Or.inr h)

/-- Visiting a part of a statement hands on just what is written with it. -/
theorem Expression.part_mem_visits {d : Dialect} {e : Expression} (he : e.isPart = true)
    (c : Expression) : Visit.part c ∈ e.visits d ↔ c ∈ e.rendered := by
  cases e with
  | query q => exact q.part_mem_visits d c
  | source s => exact s.part_mem_visits c
  | conditions items | filter items | having items => exact part_mem_sequenceVisits items c
  | join j => simp [visits, Join.visits, Table.visit, rendered, children, part_mem_sequenceVisits]
  | insert _ | update _ | delete _ | text _ | procedure _ | parameter _ | output _ => cases he
  | _ => simp [visits, rendered, children, Table.visit]

/-- Only children are visited, so the recursion ends. -/
theorem Expression.mem_children_of_part {d : Dialect} {e c : Expression}
    (h : Visit.part c ∈ e.visits d) : c ∈ e.children := by
  cases he : e.isPart with
  | false => cases e <;> simp [isPart, visits] at he h
  | true =>
    rw [part_mem_visits he] at h
    cases e with
    | query q => exact q.rendered_subset h
    | _ => exact h

/-! ### Violations -/

/-- The errors of the failing checks below a part, in the order in which it is visited. -/
def Expression.violations (d : Dialect) (e : Expression) : List Error :=
  (e.visits d).attach.flatMap fun
    | ⟨.check passes fault, _⟩ => if passes then [] else [.invalidArgument fault]
    | ⟨.place passes kind position, _⟩ =>
      if passes then [] else [.unsupportedExpression kind position]
    | ⟨.part c, _⟩ => c.violations d
termination_by sizeOf e
decreasing_by exact Expression.sizeOf_lt_of_mem_children (Expression.mem_children_of_part ‹_›)

/-- The errors of a step of a visit. -/
def Visit.violations (d : Dialect) : Visit → List Error
  | .check passes fault => if passes then [] else [.invalidArgument fault]
  | .place passes kind position =>
    if passes then [] else [.unsupportedExpression kind position]
  | .part c => c.violations d

/-- The violations of a node are those of its visits, in this order. -/
theorem Expression.violations_eq (d : Dialect) (e : Expression) :
    e.violations d = (e.visits d).flatMap (Visit.violations d) := by
  have hattach : (e.visits d).flatMap (Visit.violations d) =
      (e.visits d).attach.flatMap fun v => v.val.violations d := by
    rw [← List.flatMap_map Subtype.val, List.attach_map_subtype_val]
  rw [violations, hattach]
  refine congrArg (List.flatMap · _) (funext fun ⟨v, hv⟩ => ?_)
  cases v <;> rfl

/-- The errors of all failing checks of a statement, in the order in which it is visited. -/
def Expression.statementViolations (d : Dialect) (e : Expression) : List Error :=
  (e.statementVisits d).flatMap (Visit.violations d)

/-- What a violation can be: a faulty argument, or an expression that cannot stand where it does. -/
inductive Error.IsViolation : Error → Prop
  | argument (fault : ArgumentFault) : IsViolation (.invalidArgument fault)
  | place (kind : NodeKind) (position : Position) :
    IsViolation (.unsupportedExpression kind position)

/-- A visit violates by its own check, or by the node that it visits. -/
theorem Visit.isViolation_of_mem {d : Dialect} {v : Visit}
    (hpart : ∀ c, v = .part c → ∀ err ∈ c.violations d, err.IsViolation) :
    ∀ err ∈ v.violations d, err.IsViolation := by
  intro err herr
  cases v with
  | part c => exact hpart c rfl err herr
  | check passes fault =>
    obtain ⟨-, rfl⟩ := List.mem_ite_nil_left.mp herr |>.imp_right List.mem_singleton.mp
    exact .argument fault
  | place passes kind position =>
    obtain ⟨-, rfl⟩ := List.mem_ite_nil_left.mp herr |>.imp_right List.mem_singleton.mp
    exact .place kind position

theorem Expression.isViolation_of_mem_violations (d : Dialect) (e : Expression) :
    ∀ err ∈ e.violations d, err.IsViolation := by
  induction e using Expression.induction with
  | step e ih =>
    intro err herr
    rw [violations_eq] at herr
    obtain ⟨v, hv, herr⟩ := List.mem_flatMap.mp herr
    refine Visit.isViolation_of_mem (fun c hc => ?_) err herr
    exact ih c (mem_children_of_part (hc ▸ hv))

theorem Expression.isViolation_of_mem_statementViolations (d : Dialect) (e : Expression) :
    ∀ err ∈ e.statementViolations d, err.IsViolation := by
  intro err herr
  obtain ⟨v, _, herr⟩ := List.mem_flatMap.mp herr
  exact Visit.isViolation_of_mem (fun c _ => c.isViolation_of_mem_violations d) err herr

/-! ### No violations -/

/-- A step of a visit that is no failing check. -/
def Visit.Passes : Visit → Prop
  | .check passes _ | .place passes _ _ => passes = true
  | .part _ => True

@[simp] theorem Visit.passes_check (passes : Bool) (fault : ArgumentFault) :
    (Visit.check passes fault).Passes ↔ passes = true := Iff.rfl

@[simp] theorem Visit.passes_place (passes : Bool) (kind : NodeKind) (position : Position) :
    (Visit.place passes kind position).Passes ↔ passes = true := Iff.rfl

@[simp] theorem Visit.passes_part (e : Expression) : (Visit.part e).Passes := trivial

/-- There are no violations where all checks pass and all parts are free of them. -/
theorem flatMap_violations_eq_nil_iff (d : Dialect) (vs : List Visit) :
    vs.flatMap (Visit.violations d) = [] ↔
      (∀ v ∈ vs, v.Passes) ∧ ∀ c, Visit.part c ∈ vs → c.violations d = [] := by
  rw [List.flatMap_eq_nil_iff]
  constructor
  · intro h
    refine ⟨fun v hv => ?_, fun c hc => h _ hc⟩
    have hpasses := h v hv
    cases v with
    | part c => trivial
    | _ => simpa [Visit.violations] using hpasses
  · rintro ⟨hchecks, hparts⟩ v hv
    have hpasses := hchecks v hv
    cases v with
    | part c => exact hparts c hv
    | _ => exact if_pos hpasses

section Passing

variable {d : Dialect}

theorem passes_map_part {α : Type} (expr : α → Expression) (l : List α) :
    (∀ v ∈ l.map (fun a => Visit.part (expr a)), v.Passes) ↔ True := by
  simp [Visit.Passes]

/-- A table has to have a name or an alias. -/
theorem Table.passes_visit (t : Table) :
    t.visit.Passes ↔ t.name ≠ "" ∨ ∃ label, t.label = some label ∧ label ≠ "" := by
  obtain ⟨name, label⟩ := t
  cases label <;> simp [Table.visit, Visit.Passes, usedAlias]

theorem passes_sequenceVisits (items : List Expression) :
    (∀ v ∈ sequenceVisits items, v.Passes) ↔ Conditions.balanced items = true := by
  rw [sequenceVisits, List.forall_mem_cons, passes_map_part, and_true]
  rfl

theorem passes_sequenceVisits_getD (items : Option Conditions) :
    (∀ v ∈ sequenceVisits (items.getD []), v.Passes) ↔
      ∀ l ∈ items.toList, Conditions.balanced l = true := by
  rw [passes_sequenceVisits]
  cases items with
  | none => exact iff_of_true rfl (by simp)
  | some l => simp

theorem Join.passes_visits (j : Join) :
    (∀ v ∈ j.visits, v.Passes) ↔
      j.table.visit.Passes ∧ Conditions.balanced j.conditions = true := by
  rw [Join.visits, List.forall_mem_cons, passes_sequenceVisits]

/-- A source has to have tables, all of them with names, and balanced joins. -/
theorem Source.passes_visits (s : Source) :
    (∀ v ∈ s.visits, v.Passes) ↔
      s.tables ≠ [] ∧ (∀ t ∈ s.allTables, t.visit.Passes) ∧
        ∀ items ∈ s.joins.map (·.conditions), Conditions.balanced items = true := by
  have hjoins : (∀ v ∈ s.joins.flatMap Join.visits, v.Passes) ↔
      (∀ t ∈ s.joins.map (·.table), t.visit.Passes) ∧
        ∀ items ∈ s.joins.map (·.conditions), Conditions.balanced items = true := by
    rw [List.forall_mem_flatMap]
    simp only [Join.passes_visits, List.forall_mem_map, forall_and]
  have htables : (∀ v ∈ s.tables.map Table.visit, v.Passes) ↔ ∀ t ∈ s.tables, t.visit.Passes :=
    List.forall_mem_map
  rw [Source.visits, List.forall_mem_cons, List.forall_mem_append, hjoins, htables, allTables,
    List.forall_mem_append, and_assoc]
  simp [Visit.Passes]

/-- The clauses pass each by itself; `HAVING` is left out unless rows are grouped. -/
theorem Query.passes_bodyVisits (q : Query) :
    (∀ v ∈ q.bodyVisits, v.Passes) ↔
      (∀ s ∈ q.source, ∀ v ∈ s.visits, v.Passes) ∧
        (∀ items ∈ q.filter.toList, Conditions.balanced items = true) ∧
        ∀ items ∈ if q.isGrouped then q.having.toList else [],
          Conditions.balanced items = true := by
  have hsource : (∀ v ∈ (q.source.map Source.visits).getD [], v.Passes) ↔
      ∀ s ∈ q.source, ∀ v ∈ s.visits, v.Passes := by
    cases q.source <;> simp
  have hgroups : (∀ v ∈ if q.isGrouped then
      (q.groupBy.getD []).map Visit.part ++ sequenceVisits (q.having.getD []) else [], v.Passes) ↔
      ∀ items ∈ if q.isGrouped then q.having.toList else [], Conditions.balanced items = true := by
    split
    · rw [List.forall_mem_append, passes_map_part, passes_sequenceVisits_getD, true_and]
    · simp
  rw [bodyVisits, List.forall_mem_append, List.forall_mem_append, hsource, hgroups,
    passes_sequenceVisits_getD, and_assoc]

/-- A page passes if its last row has a number. -/
theorem Query.passes_pageVisit (q : Query) :
    q.pageVisit.Passes ↔ (Expression.query q).CountsRows := by
  rw [pageVisit, Visit.passes_check, Expression.CountsRows, UInt64.pos_iff_ne_zero,
    decide_eq_true_iff, not_and']
  exact imp_congr_right fun _ => Nat.not_le

/-- A query that asks for no rows by their numbers can do so. -/
theorem Query.countsRows_of_not_windowed {q : Query} (h : q.windowed d = false)
    (hd : d.limitStyle = .rowNumber) : (Expression.query q).CountsRows := by
  intro hcount
  simp [windowed, isWindowed, isLimited, hcount, hd] at h

theorem Query.passes_visits (q : Query) :
    (∀ v ∈ q.visits d, v.Passes) ↔
      (∀ v ∈ q.bodyVisits, v.Passes) ∧
        (d.limitStyle = .rowNumber → (Expression.query q).CountsRows) := by
  cases h : q.windowed d with
  | false =>
    -- No page is checked, and none has to be.
    simp only [visits, h, Bool.false_eq_true, if_false, List.forall_mem_append, passes_map_part,
      true_and, and_true]
    exact (and_iff_left (q.countsRows_of_not_windowed h)).symm
  | true =>
    have hd : d.limitStyle = .rowNumber := by
      simp only [windowed, isWindowed, Bool.and_eq_true, beq_iff_eq] at h
      exact h.2
    have hpage := q.passes_pageVisit
    simp only [visits, h, if_true, List.forall_mem_cons, hpage, hd, forall_const]
    split <;>
      simp only [List.forall_mem_append, passes_map_part, true_and, and_comm]

/-- A node is admissible if its own tables, sources, sequences and limits are. -/
theorem Expression.admissible_iff (e : Expression) :
    e.Admissible d ↔
      (∀ t ∈ e.tables, t.visit.Passes) ∧ (∀ s ∈ e.sources, s.tables ≠ []) ∧
        (∀ items ∈ e.sequences, Conditions.balanced items = true) ∧
        (d.limitStyle = .rowNumber → e.CountsRows) := by
  simp only [Table.passes_visit]
  exact ⟨fun h => ⟨h.tables, h.sources, h.sequences, h.rows⟩,
    fun ⟨tables, sources, sequences, rows⟩ => ⟨tables, sources, sequences, rows⟩⟩

theorem Query.admissible_iff (q : Query) :
    (Expression.query q).Admissible d ↔ ∀ v ∈ q.visits d, v.Passes := by
  have hsource : (∀ s ∈ q.source, ∀ v ∈ s.visits, v.Passes) ↔
      (∀ t ∈ q.source.toList.flatMap Source.allTables, t.visit.Passes) ∧
        (∀ s ∈ q.source.toList, s.tables ≠ []) ∧
        ∀ items ∈ q.source.toList.flatMap fun s => s.joins.map (·.conditions),
          Conditions.balanced items = true := by
    cases q.source with
    | none => simp
    | some s =>
      simp only [Option.mem_some, forall_eq', Option.toList_some, List.flatMap_singleton,
        List.forall_mem_singleton, s.passes_visits]
      exact and_left_comm
  rw [Expression.admissible_iff, q.passes_visits, q.passes_bodyVisits, hsource,
    Expression.sequences, List.forall_mem_append, List.forall_mem_append]
  simp only [Expression.tables, Expression.sources, and_assoc]

/-- Visiting an expression passes its own checks just where it may stand in a statement and is in
order itself. -/
theorem Expression.passes_visits (e : Expression) :
    (∀ v ∈ e.visits d, v.Passes) ↔ e.isPart = true ∧ e.Admissible d := by
  -- One case for each kind of node; most of them check nothing by themselves.
  cases e with
  | query q =>
    rw [q.admissible_iff]
    exact (and_iff_right rfl).symm
  | insert _ | update _ | delete _ | text _ | procedure _ | parameter _ | output _ =>
    simp [visits, Visit.Passes, isPart]
  | source s =>
    simp [s.passes_visits, admissible_iff, visits, isPart, tables, sources, sequences, CountsRows]
    exact and_left_comm
  | join j =>
    simp [j.passes_visits, admissible_iff, visits, isPart, tables, sources, sequences, CountsRows]
  | conditions items | filter items | having items =>
    simp [passes_sequenceVisits, admissible_iff, visits, isPart, tables, sources, sequences,
      CountsRows]
  | _ =>
    simp [visits, Visit.Passes, isPart, admissible_iff, tables, sources, sequences, CountsRows]

/-- Visiting a statement passes its own checks just where it is one, has its target and is in order
itself. -/
theorem Expression.passes_statementVisits (e : Expression) :
    (∀ v ∈ e.statementVisits d, v.Passes) ↔
      e.isStatement = true ∧ e.HasTarget ∧ e.Admissible d := by
  -- A limit is refused only in the style that numbers rows.
  have hrows (count : UInt64) : (count == 0 || d.limitStyle != .rowNumber) = true ↔
      (d.limitStyle = .rowNumber → count = 0) := by
    rw [Bool.or_eq_true, beq_iff_eq, bne_iff_ne, or_comm, Decidable.imp_iff_not_or]
  cases e with
  | query q => simp [statementVisits, isStatement, HasTarget, q.admissible_iff]
  | insert i =>
    simp [statementVisits, isStatement, HasTarget, admissible_iff, tables, sources, sequences,
      CountsRows, Visit.Passes]
  | update u =>
    simp only [statementVisits, List.forall_mem_append, List.forall_mem_cons, passes_map_part,
      passes_sequenceVisits_getD, Visit.passes_check, Visit.passes_place, hrows]
    simp [isStatement, HasTarget, admissible_iff, tables, sources, sequences, CountsRows, and_assoc]
  | delete s =>
    simp only [statementVisits, List.forall_mem_append, List.forall_mem_cons, passes_map_part,
      passes_sequenceVisits_getD, Visit.passes_check, Visit.passes_place, hrows]
    simp [isStatement, HasTarget, admissible_iff, tables, sources, sequences, CountsRows, and_assoc]
  | _ => simp [statementVisits, isStatement]

end Passing

/-! ### Statements without violations -/

namespace Expression

variable {d : Dialect}

/-- What a node renders is one of its rendered children, or what such a child renders. -/
theorem renders_iff {e p : Expression} :
    e.Renders p ↔ ∃ c ∈ e.rendered, p = c ∨ c.Renders p := by
  constructor
  · intro h
    cases h with
    | direct h => exact ⟨p, h, Or.inl rfl⟩
    | inside h hp => exact ⟨_, h, Or.inr hp⟩
  · rintro ⟨c, hc, rfl | hp⟩
    · exact .direct hc
    · exact .inside hc hp

/-- Something holds below an expression if it holds in everything written with it. -/
theorem forall_renders_iff {P : Expression → Prop} (e : Expression) :
    (∀ p, e.Renders p → P p) ↔ ∀ c ∈ e.rendered, ∀ p, p = c ∨ c.Renders p → P p := by
  constructor
  · intro h c hc p hp
    exact h p (renders_iff.mpr ⟨c, hc, hp⟩)
  · intro h p hp
    obtain ⟨c, hc, hp⟩ := renders_iff.mp hp
    exact h c hc p hp

/-- A part has no violations just where it and everything written below it may stand in a statement
and is in order. -/
theorem violations_eq_nil_iff (e : Expression) :
    e.violations d = [] ↔ ∀ p, p = e ∨ e.Renders p → p.isPart = true ∧ p.Admissible d := by
  induction e using Expression.induction with
  | step e ih =>
    have hparts : (∀ c, Visit.part c ∈ e.visits d → c.violations d = []) ↔
        ∀ c, Visit.part c ∈ e.visits d →
          ∀ p, p = c ∨ c.Renders p → p.isPart = true ∧ p.Admissible d :=
      forall_congr' fun c => imp_congr_right fun hc => ih c (mem_children_of_part hc)
    -- Its own checks pass, and what is visited below it is what is written (`part_mem_visits`).
    rw [violations_eq, flatMap_violations_eq_nil_iff, e.passes_visits, hparts]
    constructor
    · rintro ⟨hself, hbelow⟩ p (rfl | hp)
      · exact hself
      · simp only [part_mem_visits hself.1] at hbelow
        exact e.forall_renders_iff.mpr hbelow p hp
    · intro h
      have hself := h e (Or.inl rfl)
      refine ⟨hself, ?_⟩
      simp only [part_mem_visits hself.1]
      exact e.forall_renders_iff.mp fun p hp => h p (Or.inr hp)

theorem part_mem_statementVisits {e : Expression} (he : e.isStatement = true) (c : Expression) :
    Visit.part c ∈ e.statementVisits d ↔ c ∈ e.rendered := by
  cases e with
  | query q => exact q.part_mem_visits d c
  | insert i => simp [statementVisits, rendered, children, Insert.children]
  | update u =>
    simp [statementVisits, rendered, children, Update.children, part_mem_sequenceVisits]
  | delete s =>
    simp [statementVisits, rendered, children, Delete.children, part_mem_sequenceVisits]
  | _ => cases he

/-- **Nothing is wrong with a statement just where it is well-formed.** -/
theorem statementViolations_eq_nil_iff (e : Expression) :
    e.statementViolations d = [] ↔ e.WellFormed d := by
  rw [statementViolations, flatMap_violations_eq_nil_iff, e.passes_statementVisits]
  constructor
  · rintro ⟨⟨hstatement, htarget, hadmissible⟩, hparts⟩
    -- A child is without violations just if all that it renders is admissible, so the nodes further
    -- down need no induction of their own.
    have hbelow : ∀ p, e.Renders p → p.isPart = true ∧ p.Admissible d := by
      rw [forall_renders_iff]
      intro c hc
      exact c.violations_eq_nil_iff.mp (hparts c ((part_mem_statementVisits hstatement c).mpr hc))
    refine ⟨hstatement, htarget, fun p hp => (hbelow p hp).1, ?_⟩
    rintro p (rfl | hp)
    · exact hadmissible
    · exact (hbelow p hp).2
  · intro h
    refine ⟨⟨h.statement, h.target, h.admissible e (Or.inl rfl)⟩, fun c hc => ?_⟩
    have hc : c ∈ e.rendered := (part_mem_statementVisits h.statement c).mp hc
    rw [violations_eq_nil_iff]
    intro p hp
    have hp : e.Renders p := renders_iff.mpr ⟨c, hc, hp⟩
    exact ⟨h.parts p hp, h.admissible p (Or.inr hp)⟩

end Expression

end SqlTree
