import SqlTree.Proofs.Draft.Faults
import SqlTree.Proofs.WellFormed.Visits

/-!
# The first violation

Main statement, `compile_violations`: just the well-formed statements are compiled, and any other
expression is refused with its first violation in visiting order.

The draft of a clause meets the faults of its parts in the order in which they are visited.
`Expression.draft_meets` then follows by induction: the faults that are met in a part are its
violations.
-/

namespace SqlTree

open Draft

/-! ### Leaves -/

theorem meets_valueDraft (v : Value) : v.draft.Meets [] := by
  unfold Value.draft
  exact Meets.ite (fun _ => meets_text _) fun _ => meets_pieces _

theorem meets_tableDraft (d : Dialect) (t : Table) : t.draft.Meets (t.visit.violations d) := by
  unfold Table.draft Table.visit
  cases t.name.isEmpty <;> cases usedAlias t.label
  · exact meets_text _
  · exact ((meets_text _).before (meets_text _)).before (meets_text _)
  · exact meets_fault _
  · exact meets_text _

/-! ### Clauses -/

section Clauses

variable {x : Draft} {es : List Error}

theorem meets_fieldDraft (hx : x.Meets es) (d : Dialect) (label : Option String) :
    (fieldDraft d x label).Meets es := by
  unfold fieldDraft
  split
  · have hword := (hx.before (meets_step .blank)).before (meets_text "AS")
    exact (hword.before (meets_step _)).before (meets_text _)
  · exact hx

theorem meets_orderFieldDraft (hx : x.Meets es) (direction : SortOrder) :
    (orderFieldDraft x direction).Meets es :=
  (hx.before (meets_step _)).before (meets_text _)

theorem meets_enclosed (hx : x.Meets es) (e : Expression) : (enclosed e x).Meets es := by
  cases e <;> first | exact hx | exact hx.parenthesized

/-- In a membership test nothing is wrong with a value, however it is written. -/
theorem meets_memberList {e : Expression} (hx : x.Meets es) (hvalue : ∀ v, e = .value v → es = []) :
    (memberList e x).Meets es := by
  -- Values that are absent or lists are taken apart; a query brings parentheses of its own.
  cases e with
  | value v =>
    cases v with
    | null =>
      rw [hvalue _ rfl]
      exact meets_empty.parenthesized
    | list items =>
      rw [hvalue _ rfl]
      exact (meets_commaSeparated_nil fun v _ => meets_valueDraft v).parenthesized
    | _ => exact hx.parenthesized
  | query q => exact hx
  | _ => exact hx.parenthesized

theorem meets_listClause {items : List Draft} (h : (commaSeparated items).Meets es)
    (word : String) : (listClause word items).Meets es := by
  apply Meets.ite
  · intro hempty
    obtain rfl : items = [] := List.isEmpty_iff.mp hempty
    exact h
  · intro _
    exact h.after ((meets_step _).before (meets_keyword word))

end Clauses

/-! ### Expressions -/

variable {d : Dialect}

/-- The faults that are met in an expression are its violations. -/
def Expression.MeetsViolations (d : Dialect) (e : Expression) : Prop :=
  (e.draft d).Meets (e.violations d)

theorem violations_map_part {α : Type} (expr : α → Expression) (l : List α) :
    (l.map fun a => Visit.part (expr a)).flatMap (Visit.violations d) =
      l.flatMap fun a => (expr a).violations d := by
  rw [List.flatMap_map]
  rfl

theorem Field.draft_meets {f : Field} (h : f.expr.MeetsViolations d) :
    (f.draft d).Meets (f.expr.violations d) := by
  rw [Field.draft_eq]
  exact meets_fieldDraft h d f.label

theorem meets_selectDraft {fields : List Field}
    (h : ∀ e ∈ fields.map (·.expr), e.MeetsViolations d) :
    (selectDraft (fields.map (Field.draft d))).Meets
      (fields.flatMap fun f => f.expr.violations d) := by
  apply Meets.ite
  · intro hempty
    obtain rfl : fields = [] := List.map_eq_nil_iff.mp (List.isEmpty_iff.mp hempty)
    exact meets_text _
  · intro _
    exact meets_commaSeparated fun f hf => Field.draft_meets (h _ (List.mem_map_of_mem hf))

theorem Expression.violations_leaf {e : Expression} (h : e.visits d = []) :
    e.violations d = [] := by
  rw [violations_eq, h, List.flatMap_nil]

/-- A column is written by its name and violates nothing; other expressions are drafted. -/
theorem OrderField.draft_meets (nameOf : String → String) {f : OrderField}
    (h : f.expr.MeetsViolations d) : (f.draft d nameOf).Meets (f.expr.violations d) := by
  obtain ⟨expr, direction⟩ := f
  -- Nothing is wrong with a column under any name.
  cases expr with
  | column name =>
    rw [show (Expression.column name).violations d = [] from Expression.violations_leaf rfl]
    exact meets_orderFieldDraft (meets_text (nameOf name)) direction
  | _ => exact meets_orderFieldDraft h direction

theorem meets_orderFields (nameOf : String → String) {fields : List OrderField}
    (h : ∀ e ∈ fields.map (·.expr), e.MeetsViolations d) :
    (commaSeparated (fields.map (OrderField.draft d nameOf))).Meets
      (fields.flatMap fun f => f.expr.violations d) :=
  meets_commaSeparated fun _ hf => OrderField.draft_meets nameOf (h _ (List.mem_map_of_mem hf))

/-! ### Conditions -/

/-- Nothing is wrong with the marker of a group, so that an item has its violations whether it is
one or not. -/
theorem meets_itemDraft {item : Expression} (h : item.MeetsViolations d) :
    (itemDraft item (item.draft d)).Meets (item.violations d) := by
  cases item with
  | sql raw =>
    have hraw : (Expression.sql raw).violations d = [] := Expression.violations_leaf rfl
    rw [hraw]
    exact Meets.ite (fun _ => meets_step _) fun _ =>
      Meets.ite (fun _ => meets_step _) fun _ => meets_text raw
  | _ => exact h

/-- The faults of a sequence are those of its items, for markers have none. -/
theorem meets_itemLines (depth : Nat) (first : Bool) {items : List Expression}
    (h : ∀ e ∈ items, e.MeetsViolations d) :
    (itemLines depth first (items.zip (items.map (Expression.draft d)))).Meets
      (items.flatMap (Expression.violations d)) := by
  induction items generalizing depth first with
  | nil => exact meets_empty
  | cons item rest ih =>
    rw [List.flatMap_cons]
    have hitem := meets_itemDraft (h item List.mem_cons_self)
    have hrest := fun depth => ih depth false fun e he => h e (List.mem_cons_of_mem item he)
    have hline : (if first then empty else lineBreak).Meets [] :=
      Meets.ite (fun _ => meets_empty) fun _ => meets_step _
    exact (hitem.after (hline.before (meets_step _))).append (hrest _)

/-- A sequence is checked for balance before its items are. -/
theorem sequenceVisits_violations (items : List Expression) :
    (sequenceVisits items).flatMap (Visit.violations d) =
      (if Conditions.balanced items then [] else [.invalidArgument .unbalancedGroups]) ++
        items.flatMap (Expression.violations d) := by
  rw [sequenceVisits, List.flatMap_cons, violations_map_part]
  rfl

theorem meets_sequenceDraft {items : List Expression} (h : ∀ e ∈ items, e.MeetsViolations d) :
    (sequenceDraft items (items.map (Expression.draft d))).Meets
      ((sequenceVisits items).flatMap (Visit.violations d)) := by
  rw [sequenceVisits_violations]
  exact (meets_ensure _ _).append (meets_itemLines 0 true h)

/-- A clause without conditions is balanced and violates nothing. -/
theorem meets_conditionsClause (word : String) {items : List Expression}
    (h : ∀ e ∈ items, e.MeetsViolations d) :
    (conditionsClause word items (items.map (Expression.draft d))).Meets
      ((sequenceVisits items).flatMap (Visit.violations d)) := by
  apply Meets.ite
  · intro hempty
    obtain rfl : items = [] := List.isEmpty_iff.mp hempty
    exact meets_empty
  · intro _
    have hword := ((meets_step .lineBreak).before (meets_text word)).before (meets_step .lineBreak)
    exact (meets_sequenceDraft h).after hword

/-- The left side is checked before the right one. -/
theorem Condition.draft_meets {c : Condition} (h : ∀ e ∈ c.children, e.MeetsViolations d) :
    (c.draft d).Meets (c.children.flatMap (Expression.violations d)) := by
  have hleft := Condition.forall_left h
  have hright := Condition.forall_right h
  obtain ⟨left, op, right⟩ := c
  rw [Condition.draft_eq, children, List.flatMap_append]
  -- The left side comes first, then the operator, which is never wrong.
  cases left with
  | none =>
    cases right with
    | none => exact meets_text _
    | some r =>
      rw [Option.toList_some, List.flatMap_singleton]
      exact (meets_enclosed (hright r rfl) r).after (meets_keyword _)
  | some l =>
    have hl := (hleft l rfl).before (meets_step .blank)
    rw [Option.toList_some, List.flatMap_singleton]
    cases right with
    | none => exact hl.append (meets_text _)
    | some r =>
      rw [Option.toList_some, List.flatMap_singleton]
      refine (hl.before (meets_keyword _)).append ?_
      refine Meets.ite (fun _ => meets_memberList (hright r rfl) ?_) fun _ => hright r rfl
      rintro v rfl
      exact Expression.violations_leaf rfl

/-! ### Clauses of a query -/

/-- A join checks its table, and then its conditions. -/
theorem meets_joinDraft {j : Join} (h : ∀ e ∈ j.conditions, e.MeetsViolations d) :
    (j.draft d).Meets (j.visits.flatMap (Visit.violations d)) := by
  rw [Join.draft_eq, Join.visits, List.flatMap_cons]
  refine ((meets_tableDraft d j.table).after (meets_keyword _)).append ?_
  apply Meets.ite
  · intro hempty
    rw [List.isEmpty_iff.mp hempty]
    exact meets_empty
  · intro _
    -- The balance is checked in front of the word `ON`, and so before the items.
    rw [sequenceVisits_violations]
    have hword := ((meets_ensure (Conditions.balanced j.conditions) .unbalancedGroups).before
      (meets_step .blank)).before (meets_text "ON")
    refine hword.append ?_
    rw [zip_map_self, List.map_map]
    exact meets_concat fun e he => (meets_itemDraft (h e he)).after (meets_step _)

theorem meets_sourceDraft {s : Source} (h : ∀ e ∈ s.children, e.MeetsViolations d) :
    (s.draft d).Meets (s.visits.flatMap (Visit.violations d)) := by
  have htables : (commaSeparated (s.tables.map Table.draft)).Meets
      (s.tables.flatMap fun t => t.visit.violations d) :=
    meets_commaSeparated fun t _ => meets_tableDraft d t
  have hjoins : (concat (s.joins.map fun j => lineBreak ++ j.draft d)).Meets
      (s.joins.flatMap fun j => j.visits.flatMap (Visit.violations d)) :=
    meets_concat fun j hj => (meets_joinDraft (Source.forall_conditions h hj)).after (meets_step _)
  have hchecked := ((meets_ensure (!s.tables.isEmpty) .sourceWithoutTables).before
    (meets_step .lineBreak)).before (meets_keyword "FROM")
  rw [Source.draft_eq, Source.visits, List.flatMap_cons, List.flatMap_append, List.flatMap_map,
    List.flatMap_assoc, ← List.append_assoc, sourceDraft, List.map_map]
  exact (hchecked.append htables).append hjoins

/-! ### Pages -/

/-- What is met in the clauses of a query: in the field list, in the clauses from `FROM` to
`HAVING`, and in the order. -/
structure QueryParts.Meets (p : QueryParts) (fields body order : List Error) : Prop where
  /-- What is met in the field list. -/
  fields : p.fields.Meets fields
  /-- What is met in the clauses from `FROM` to `HAVING`. -/
  body : p.body.Meets body
  /-- What is met in the order. -/
  order : (commaSeparated p.order).Meets order

namespace QueryParts.Meets

variable {p : QueryParts} {fields body order : List Error}

/-- Fields are checked first, and then the clauses; what numbers the rows comes between. -/
theorem projection (hp : p.Meets fields body order) {extra : Draft} {es : List Error}
    (hx : extra.Meets es) : (p.projection extra).Meets (fields ++ es ++ body) := by
  have hdistinct : (if p.distinct then blank ++ text "DISTINCT" else empty).Meets [] :=
    Meets.ite (fun _ => (meets_step _).before (meets_text _)) fun _ => meets_empty
  have hselect := ((meets_text "SELECT").before hdistinct).before (meets_step .blank)
  exact ((hp.fields.after hselect).append hx).append hp.body

theorem limitClause (d : Dialect) (p : QueryParts) : (p.limitClause d).Meets [] := by
  have hsome (c : Prop) [Decidable c] {x : Draft} (hx : x.Meets []) :
      (if c then x else empty).Meets [] := Meets.ite (fun _ => hx) fun _ => meets_empty
  unfold QueryParts.limitClause
  refine (meets_step _).append ?_
  split
  · exact meets_text _
  · exact (hsome _ (meets_text _)).before (hsome _ ((meets_step _).before (meets_text _)))
  · exact (hsome _ (meets_text _)).before (hsome _ ((meets_step _).before (meets_text _)))

theorem plain (hp : p.Meets fields body order) (d : Dialect) (limited : Bool) :
    (p.plain d limited).Meets (fields ++ body ++ order) := by
  have hrows := hp.projection meets_empty
  rw [List.append_nil] at hrows
  refine (hrows.append (meets_listClause hp.order "ORDER BY")).before ?_
  exact Meets.ite (fun _ => limitClause d p) fun _ => meets_empty

theorem rowNumber (hp : p.Meets fields body order) : p.rowNumber.Meets order := by
  have hover := (meets_step .comma).before (meets_keyword "ROW_NUMBER() OVER")
  refine (Meets.after (Meets.parenthesized ?_) hover).before (meets_text _)
  refine Meets.after (Meets.ite (fun hempty => ?_) fun _ => hp.order) (meets_keyword _)
  -- There is nothing to be met in an order without fields.
  have horder := hp.order
  rw [List.isEmpty_iff.mp hempty] at horder
  exact horder

/-- Numbering checks the order early: with `DISTINCT` even before the fields. -/
theorem numberedRows (hp : p.Meets fields body order) :
    p.numberedRows.Meets (if p.distinct then order ++ (fields ++ body)
      else fields ++ (order ++ body)) := by
  unfold QueryParts.numberedRows
  cases p.distinct with
  | false =>
    show Draft.Meets _ (fields ++ (order ++ body))
    rw [← List.append_assoc]
    exact hp.projection hp.rowNumber
  | true =>
    have hrows := hp.projection meets_empty
    rw [List.append_nil] at hrows
    have hnumber := hp.rowNumber.after (meets_text "SELECT __distinct.*")
    have hfrom := (hnumber.before (meets_step .lineBreak)).before (meets_keyword "FROM")
    exact (hfrom.append hrows.parenthesized).before (meets_text _)

/-- The page itself is checked before anything else. -/
theorem windowed (hp : p.Meets fields body order) (topLevel : Bool) :
    (p.windowed topLevel).Meets
      ((if UInt64.size ≤ p.offset.toNat + p.count.toNat ∧ p.count ≠ 0 then
          [.invalidArgument (.rowWindowOverflow p.offset p.count)] else []) ++
        if p.distinct then order ++ (fields ++ body) else fields ++ (order ++ body)) := by
  unfold QueryParts.windowed
  split
  · exact rfl
  · have hselect := ((meets_keyword "SELECT").before (meets_keyword p.columns)).before
      (meets_keyword "FROM")
    have hpage := (hp.numberedRows.parenthesized.after hselect).before (meets_text " AS __paged")
    refine ((hpage.before (meets_step .lineBreak)).before (meets_text p.rowBounds)).before ?_
    exact Meets.ite (fun _ => (meets_step _).before (meets_text _)) fun _ => meets_empty

end QueryParts.Meets

/-! ### Queries -/

namespace Query

/-- The violations in the field list of a query. -/
def selectViolations (d : Dialect) (q : Query) : List Error :=
  (q.select.getD []).flatMap fun f => f.expr.violations d

/-- The violations in the order of a query. -/
def orderViolations (d : Dialect) (q : Query) : List Error :=
  (q.orderBy.getD []).flatMap fun f => f.expr.violations d

theorem parts_meets {q : Query} (h : ∀ e ∈ q.children, e.MeetsViolations d) :
    (q.parts d).Meets (q.selectViolations d) (q.bodyVisits.flatMap (Visit.violations d))
      (q.orderViolations d) := by
  have hq := Query.throughout h
  refine ⟨meets_selectDraft hq.fields, ?_, meets_orderFields _ hq.orderBy⟩
  rw [bodyVisits, List.flatMap_append, List.flatMap_append]
  refine (Draft.Meets.append ?_ (meets_conditionsClause _ hq.filter)).append ?_
  · unfold sourceClause
    cases hs : q.source with
    | none => exact meets_empty
    | some s => exact meets_sourceDraft (hq.source s hs)
  · unfold groupClause isGrouped
    -- Without groups nothing is written or visited, not even a `HAVING` clause.
    cases hempty : (q.groupBy.getD []).isEmpty with
    | true => exact meets_empty
    | false =>
      have hgroup : (commaSeparated ((q.groupBy.getD []).map (Expression.draft d))).Meets
          ((q.groupBy.getD []).flatMap (Expression.violations d)) :=
        meets_commaSeparated hq.groupBy
      rw [Bool.not_false, if_pos rfl, List.flatMap_append, violations_map_part]
      exact (meets_listClause hgroup "GROUP BY").append (meets_conditionsClause _ hq.having)

/-- The last row of a page has to have a number. -/
theorem pageVisit_violations (d : Dialect) (q : Query) :
    q.pageVisit.violations d =
      if UInt64.size ≤ (q.parts d).offset.toNat + (q.parts d).count.toNat ∧ (q.parts d).count ≠ 0
      then [.invalidArgument (.rowWindowOverflow (q.parts d).offset (q.parts d).count)]
      else [] := by
  rw [pageVisit, Visit.violations]
  simp only [decide_eq_true_eq, ite_not]
  rfl

/-- A query meets its violations in the order in which its clauses are written. -/
theorem draft_meets (topLevel : Bool) {q : Query} (h : ∀ e ∈ q.children, e.MeetsViolations d) :
    (q.draft d topLevel).Meets ((q.visits d).flatMap (Visit.violations d)) := by
  have hparts := Query.parts_meets h
  have hselect : ((q.select.getD []).map fun f => Visit.part f.expr).flatMap
      (Visit.violations d) = q.selectViolations d := violations_map_part _ _
  have horder : ((q.orderBy.getD []).map fun f => Visit.part f.expr).flatMap
      (Visit.violations d) = q.orderViolations d := violations_map_part _ _
  rw [Query.draft_eq]
  refine Draft.Meets.before ?_ (Meets.ite (fun _ => meets_step _) fun _ => meets_empty)
  unfold visits
  -- The two forms of a query write its clauses in different orders.
  cases q.windowed d with
  | true =>
    have hpage := hparts.windowed topLevel
    rw [← pageVisit_violations d q] at hpage
    simp only [if_true, List.flatMap_cons, apply_ite (List.flatMap (Visit.violations d)),
      List.flatMap_append, hselect, horder]
    exact hpage
  | false =>
    simp only [Bool.false_eq_true, if_false]
    rw [List.flatMap_append, List.flatMap_append, hselect, horder]
    exact hparts.plain d _

end Query

/-- The first violation of an expression is the fault of its draft. -/
theorem Expression.draft_meets (d : Dialect) (e : Expression) :
    (e.draft d).Meets (e.violations d) := by
  induction e using Expression.induction with
  | step e ih =>
    rw [violations_eq]
    cases e with
    | query q => exact (Query.draft_meets false ih).parenthesized
    | condition c =>
      rw [visits, violations_map_part]
      exact Condition.draft_meets ih
    | value v => exact meets_valueDraft v
    | table t =>
      rw [visits, List.flatMap_singleton]
      exact meets_tableDraft d t
    | column name | sql raw | operator op | null => exact meets_text _
    | zero => exact meets_empty
    | conditions items =>
      rw [draft_conditions]
      exact meets_sequenceDraft ih
    | aggregate function argument =>
      rw [visits, List.flatMap_singleton]
      exact (ih argument List.mem_cons_self).parenthesized.after (meets_text _)
    | select fields =>
      rw [draft_select, visits, violations_map_part]
      exact meets_selectDraft ih
    | source s => exact meets_sourceDraft ih
    | join j => exact meets_joinDraft ih
    | filter items | having items =>
      simp only [draft_filter, draft_having]
      exact meets_conditionsClause _ ih
    | groupBy fields =>
      rw [draft_groupBy, visits, violations_map_part]
      exact meets_listClause (meets_commaSeparated ih) _
    | orderBy fields =>
      rw [draft_orderBy, visits, violations_map_part]
      exact meets_listClause (meets_orderFields id ih) _
    | field f =>
      obtain ⟨expr, label⟩ := f
      rw [visits, List.flatMap_singleton]
      exact Field.draft_meets (ih expr List.mem_cons_self)
    -- What may not stand inside a statement is a fault.
    | _ => exact meets_fault _

/-! ### Statements that change a table -/

theorem filterDraft_meets (d : Dialect) (filter : Option (List Expression)) :
    (filterDraft d filter).Meets
      ((sequenceVisits (filter.getD [])).flatMap (Visit.violations d)) := by
  rw [filterDraft_eq]
  exact meets_conditionsClause _ fun e _ => e.draft_meets d

theorem orderDraft_meets (d : Dialect) (order : Option (List OrderField)) :
    (orderDraft d order).Meets ((order.getD []).flatMap fun f => f.expr.violations d) := by
  rw [orderDraft_eq]
  exact meets_listClause (meets_orderFields id fun e _ => e.draft_meets d) _

theorem rowLimit_meets (d : Dialect) (kind : NodeKind) (count : UInt64) :
    (rowLimit d kind count).Meets
      ((Visit.place (count == 0 || d.limitStyle != .rowNumber) kind .topLevel).violations d) := by
  rw [Visit.violations, rowLimit]
  by_cases hcount : count = 0
  · rw [if_pos hcount, if_pos (by simp [hcount])]
    exact meets_empty
  · rw [if_neg hcount]
    by_cases hstyle : d.limitStyle = .rowNumber
    · rw [if_pos hstyle, if_neg (by simp [hcount, hstyle])]
      exact meets_fault _
    · rw [if_neg hstyle, if_pos (by simp [hstyle])]
      exact (meets_step _).before (meets_text _)

theorem ensureNamed_meets (d : Dialect) (t : Table) :
    (ensureNamed t).Meets
      ((Visit.check (!t.name.isEmpty) .unnamedStatementTable).violations d) :=
  meets_ensure _ _

/-- A statement that changes rows is checked for its table and for what it sets before anything is
written. -/
theorem target_meets (d : Dialect) (t : Table) (c : Bool) (fault : ArgumentFault) :
    (ensureNamed t ++ ensure c fault).Meets
      ([Visit.check (!t.name.isEmpty) .unnamedStatementTable,
        .check c fault].flatMap (Visit.violations d)) := by
  rw [List.flatMap_cons, List.flatMap_singleton]
  exact (ensureNamed_meets d t).append (meets_ensure c fault)

/-- The checks of an insertion, and then its values. -/
theorem Insert.draft_meets (d : Dialect) (i : Insert) :
    (i.draft d).Meets ((Expression.insert i).statementViolations d) := by
  have hchecks := target_meets d i.table (!i.assignments.isEmpty)
    (.insertWithoutValues i.table.name)
  have hinto := ((hchecks.before (meets_text "INSERT INTO ")).before
    (meets_text i.table.name)).before (meets_step .blank)
  have hcolumns : (commaSeparated (i.assignments.map fun a => text a.column)).Meets [] :=
    meets_commaSeparated_nil fun a _ => meets_text a.column
  have hhead := ((hinto.before hcolumns.parenthesized).before (meets_step .lineBreak)).before
    (meets_keyword "VALUES")
  have hvalues := meets_commaSeparated (l := i.assignments) fun a _ => a.value.draft_meets d
  rw [Expression.statementViolations, Expression.statementVisits, List.flatMap_append,
    violations_map_part]
  exact (hhead.append hvalues.parenthesized).before (meets_step _)

/-- The checks of an update, its values, its conditions, its order, and its limit. -/
theorem Update.draft_meets (d : Dialect) (u : Update) :
    (u.draft d).Meets ((Expression.update u).statementViolations d) := by
  have hchecks := target_meets d u.table (!u.assignments.isEmpty)
    (.updateWithoutColumns u.table.name)
  have hupdate := (hchecks.before (meets_text "UPDATE ")).before (meets_text u.table.name)
  have hhead := (hupdate.before (meets_step .lineBreak)).before (meets_keyword "SET")
  have hvalues := meets_commaSeparated (l := u.assignments) fun a _ =>
    (a.value.draft_meets d).after ((meets_text a.column).before (meets_text " = "))
  have hclauses := ((hhead.append hvalues).append (filterDraft_meets d u.filter)).append
    (orderDraft_meets d u.orderBy)
  rw [Expression.statementViolations, Expression.statementVisits]
  simp only [List.flatMap_append, violations_map_part, List.flatMap_singleton]
  exact (hclauses.append (rowLimit_meets d .update u.count)).before (meets_step _)

theorem Delete.draft_meets (d : Dialect) (s : Delete) :
    (s.draft d).Meets ((Expression.delete s).statementViolations d) := by
  have hhead := ((ensureNamed_meets d s.table).before (meets_text "DELETE FROM ")).before
    (meets_text s.table.name)
  have hclauses := (hhead.append (filterDraft_meets d s.filter)).append
    (orderDraft_meets d s.orderBy)
  rw [Expression.statementViolations, Expression.statementVisits]
  simp only [List.flatMap_append, violations_map_part, List.flatMap_singleton]
  exact (hclauses.append (rowLimit_meets d .delete s.count)).before (meets_step _)

/-! ### Compilation -/

/-- The first violation of a statement is the fault of its draft. -/
theorem Expression.statementDraft_meets (d : Dialect) (e : Expression) :
    (e.statementDraft d).Meets (e.statementViolations d) := by
  cases e with
  | query q => exact Query.draft_meets true fun e _ => e.draft_meets d
  | insert i => exact i.draft_meets d
  | update u => exact u.draft_meets d
  | delete s => exact s.draft_meets d
  | _ => exact meets_fault _

/-- **Just the well-formed statements are compiled.** In every dialect and layout a statement is
compiled if it is well-formed, and otherwise refused with its first violation in visiting order,
which names a faulty argument or an expression that cannot stand where it does. -/
theorem compile_violations (d : Dialect) (layout : Layout) (e : Expression) :
    ((compileStatement d layout e).isOk = true ↔ e.WellFormed d) ∧
      (∀ err, compileStatement d layout e = .error err ↔
        (e.statementViolations d).head? = some err) ∧
      ∀ err ∈ e.statementViolations d, err.IsViolation := by
  refine ⟨?_, fun err => ?_, e.isViolation_of_mem_statementViolations d⟩
  · rw [← e.statementViolations_eq_nil_iff]
    rcases (e.statementDraft_meets d).assemble d layout with ⟨hok, hnil⟩ | ⟨err, rest, hes, herr⟩
    · exact iff_of_true hok hnil
    · refine iff_of_false ?_ (by simp [hes])
      simp [compileStatement, herr, Except.isOk, Except.toBool]
  · rcases (e.statementDraft_meets d).assemble d layout with ⟨hok, hnil⟩ | ⟨first, rest, hes, herr⟩
    · rw [hnil]
      refine iff_of_false (fun h => ?_) (by simp)
      rw [compileStatement] at h
      rw [h] at hok
      cases hok
    · rw [hes, compileStatement, herr, List.head?_cons, Except.error.injEq, Option.some.injEq]

end SqlTree
