import SqlTree.Proofs.Draft.Context

/-!
# Expressions in their context

An expression that has parts of its own stands in the expression that it is written in
(`Expression.standsIn_draft`) and so, from one level to the next, in the whole statement
(`Expression.Renders.standsIn_statementDraft`): what follows it there keeps apart from it.
-/

namespace SqlTree

open Draft

namespace Draft

variable (d : Dialect)

theorem standsIn_fieldDrafts {fields : List Field} {c : Expression}
    (hc : c ∈ fields.map (·.expr)) :
    (c.draft d).StandsIn (selectDraft (fields.map (Field.draft d))) := by
  obtain ⟨f, hf, rfl⟩ := List.mem_map.mp hc
  refine StandsIn.trans ?_ (standsIn_select (List.mem_map_of_mem hf))
  rw [Field.draft_eq]
  exact standsIn_field d _ _

/-- A field of an order that has parts is not a column, which could be written under another name.
-/
theorem standsIn_orderDraft (nameOf : String → String) {f : OrderField}
    (hparts : f.expr.rendered ≠ []) : (f.expr.draft d).StandsIn (f.draft d nameOf) := by
  obtain ⟨expr, direction⟩ := f
  cases expr with
  | column name => exact absurd rfl hparts
  | _ => exact standsIn_orderField _ _

/-- A column of an order is written by its name, so only another expression stands in it. -/
theorem exists_orderDraft (nameOf : String → String) {fields : List OrderField} {c : Expression}
    (hc : c ∈ fields.map (·.expr)) (hparts : c.rendered ≠ []) :
    ∃ o ∈ fields.map (OrderField.draft d nameOf), (c.draft d).StandsIn o := by
  obtain ⟨f, hf, rfl⟩ := List.mem_map.mp hc
  exact ⟨_, List.mem_map_of_mem hf, standsIn_orderDraft d nameOf hparts⟩

theorem standsIn_joinDraft {j : Join} {c : Expression} (hc : c ∈ j.conditions)
    (hparts : c.rendered ≠ []) : (c.draft d).StandsIn (j.draft d) := by
  rw [Join.draft_eq]
  exact standsIn_join j.kind j.table hc hparts

theorem standsIn_sourceDraft {s : Source} {c : Expression} (hc : c ∈ s.children)
    (hparts : c.rendered ≠ []) : (c.draft d).StandsIn (s.draft d) := by
  obtain ⟨j, hj, hc⟩ := List.mem_flatMap.mp hc
  rw [Source.draft_eq]
  exact (standsIn_joinDraft d hc hparts).trans (standsIn_source s.tables (List.mem_map_of_mem hj))

end Draft

namespace Query

variable (d : Dialect) {q : Query} {x : Draft}

/-- The tables come behind the fields on a line of their own. -/
theorem apart_sourceClause (q : Query) : (q.sourceClause d).Apart := by
  unfold sourceClause
  cases q.source with
  | none => exact .empty
  | some s =>
    show (s.draft d).Apart
    rw [Source.draft_eq]
    exact apart_source _ _

theorem apart_groupClause (q : Query) : (q.groupClause d).Apart :=
  apart_ite .empty ((apart_listClause _ _).append (apart_conditionsClause _ _ _))

theorem apart_body (q : Query) : (q.parts d).body.Apart :=
  ((apart_sourceClause d q).append (apart_conditionsClause _ _ _)).append (apart_groupClause d q)

/-- What stands in a part of a query stands in the query, numbered or not. -/
theorem standsIn_of_has (h : (q.parts d).Has x) (topLevel : Bool) :
    x.StandsIn (q.draft d topLevel) := by
  have hend : (if topLevel then step (.terminate d.terminator) else empty).Apart :=
    apart_ite (apart_step trivial) .empty
  rw [draft_eq]
  refine StandsIn.before (StandsIn.ite (fun _ => ?_) fun _ => ?_) hend
  · exact h.windowed (apart_body d q) topLevel
  · exact h.plain (apart_body d q) d _

/-- What stands in the grouping is written only if the query is grouped. -/
theorem standsIn_groupClause {c : Expression} (hgrouped : q.isGrouped = true)
    (hc : c ∈ q.groupBy.getD [] ++ q.having.getD []) (hparts : c.rendered ≠ []) :
    (c.draft d).StandsIn (q.groupClause d) := by
  have hne : (q.groupBy.getD []).isEmpty = false := by
    cases h : (q.groupBy.getD []).isEmpty with
    | false => rfl
    | true =>
      rw [isGrouped, h] at hgrouped
      cases hgrouped
  rw [groupClause, hne, if_neg Bool.false_ne_true]
  rcases List.mem_append.mp hc with hc | hc
  · exact (standsIn_listClause _ (List.mem_map_of_mem hc)).before (apart_conditionsClause _ _ _)
  · exact (standsIn_conditionsClause _ hc hparts).behind _

/-- What is written of a query stands in one of its clauses. -/
theorem has_of_rendered {c : Expression} (hc : c ∈ q.rendered) (hparts : c.rendered ≠ []) :
    (q.parts d).Has (c.draft d) := by
  have hgroups := apart_groupClause d q
  simp only [rendered, List.mem_append] at hc
  -- The field list, the clauses of the body from `FROM` to `HAVING`, and the order.
  rcases hc with (((hc | hc) | hc) | hc) | hc
  · exact .fields (standsIn_fieldDrafts d hc)
  · refine .body (((StandsIn.before ?_ (apart_conditionsClause _ _ _))).before hgroups)
    unfold sourceClause
    cases hs : q.source with
    | none =>
      rw [hs] at hc
      cases hc
    | some s =>
      rw [hs] at hc
      exact standsIn_sourceDraft d hc hparts
  · exact .body (((standsIn_conditionsClause _ hc hparts).behind _).before hgroups)
  · refine .body (StandsIn.behind ?_ _)
    split at hc
    · next hgrouped => exact standsIn_groupClause d hgrouped hc hparts
    · cases hc
  · obtain ⟨o, ho, h⟩ := exists_orderDraft d (q.orderName d) hc hparts
    exact .order ho h

end Query

/-! ### Expressions -/

namespace Expression

variable (d : Dialect) {e c p : Expression}

/-- An expression with parts of its own stands in the expression that it is written in. -/
theorem standsIn_draft (hc : c ∈ e.rendered) (hparts : c.rendered ≠ []) :
    (c.draft d).StandsIn (e.draft d) := by
  -- One case for each kind of node that renders children.
  cases e with
  | query q =>
    exact (Query.standsIn_of_has d (Query.has_of_rendered d hc hparts) false).parenthesized
  | insert _ | update _ | delete _ => exact standsIn_fault _ _
  | condition x =>
    show (c.draft d).StandsIn (x.draft d)
    obtain ⟨left, op, right⟩ := x
    rw [Condition.draft_eq]
    rcases List.mem_append.mp hc with hc | hc
    · obtain rfl := Option.mem_toList.mp hc
      exact standsIn_left _ op _
    · obtain rfl := Option.mem_toList.mp hc
      exact standsIn_right _ op hparts _
  | conditions items =>
    rw [draft_conditions]
    exact standsIn_sequence hc hparts
  | aggregate function argument =>
    obtain rfl := List.mem_singleton.mp hc
    exact (StandsIn.refl _).parenthesized.behind _
  | select fields =>
    rw [draft_select]
    exact standsIn_fieldDrafts d hc
  | source s => exact standsIn_sourceDraft d hc hparts
  | join j => exact standsIn_joinDraft d hc hparts
  | filter items | having items =>
    simp only [draft_filter, draft_having]
    exact standsIn_conditionsClause _ hc hparts
  | groupBy fields =>
    rw [draft_groupBy]
    exact standsIn_listClause _ (List.mem_map_of_mem hc)
  | orderBy fields =>
    rw [draft_orderBy]
    obtain ⟨o, ho, h⟩ := exists_orderDraft d id hc hparts
    exact h.trans (standsIn_listClause _ ho)
  | field f =>
    obtain rfl := List.mem_singleton.mp hc
    show (f.expr.draft d).StandsIn (f.draft d)
    rw [Field.draft_eq]
    exact standsIn_field d _ _
  | _ => cases hc

theorem standsIn_filterDraft {filter : Option (List Expression)} (hc : c ∈ filter.getD [])
    (hparts : c.rendered ≠ []) : (c.draft d).StandsIn (filterDraft d filter) := by
  rw [filterDraft_eq]
  exact standsIn_conditionsClause _ hc hparts

theorem standsIn_orderClause {order : Option (List OrderField)}
    (hc : c ∈ (order.getD []).map (·.expr)) (hparts : c.rendered ≠ []) :
    (c.draft d).StandsIn (orderDraft d order) := by
  obtain ⟨o, ho, h⟩ := exists_orderDraft d id hc hparts
  rw [orderDraft_eq]
  exact h.trans (standsIn_listClause _ ho)

theorem apart_orderClause (order : Option (List OrderField)) : (orderDraft d order).Apart := by
  rw [orderDraft_eq]
  exact apart_listClause _ _

theorem apart_rowLimit (kind : NodeKind) (count : UInt64) : (rowLimit d kind count).Apart :=
  apart_ite .empty (apart_ite (.fault _) (apart_lineBreak _))

/-- The same holds of a whole statement. -/
theorem standsIn_statementDraft_of_mem (hc : c ∈ e.rendered) (hparts : c.rendered ≠ []) :
    (c.draft d).StandsIn (e.statementDraft d) := by
  -- The terminator stands apart from whatever is in front of it.
  have hend : (step (.terminate d.terminator)).Apart := apart_step trivial
  cases e with
  | query q => exact Query.standsIn_of_has d (Query.has_of_rendered d hc hparts) true
  | insert i =>
    obtain ⟨a, ha, rfl⟩ := List.mem_map.mp hc
    have hvalue : (a.value.draft d).StandsIn
        (commaSeparated (i.assignments.map fun a => a.value.draft d)) :=
      standsIn_commaSeparated (List.mem_map_of_mem ha)
    exact (hvalue.parenthesized.behind _).before hend
  | update u =>
    have horder := apart_orderClause d u.orderBy
    have hlimit := apart_rowLimit d .update u.count
    have hc : c ∈ u.children := hc
    simp only [Update.children, List.mem_append] at hc
    rcases hc with (hc | hc) | hc
    · obtain ⟨a, ha, rfl⟩ := List.mem_map.mp hc
      let setting (a : Assignment) : Draft :=
        Draft.text a.column ++ Draft.text " = " ++ a.value.draft d
      have hvalue : (a.value.draft d).StandsIn (commaSeparated (u.assignments.map setting)) :=
        ((StandsIn.refl _).behind _).trans
          (standsIn_commaSeparated (List.mem_map_of_mem (f := setting) ha))
      have hfilter : (filterDraft d u.filter).Apart := apart_conditionsClause _ _ _
      exact ((((hvalue.behind _).before hfilter).before horder).before hlimit).before hend
    · have hfilter := (standsIn_filterDraft d hc hparts).behind
      exact (((hfilter _).before horder).before hlimit).before hend
    · exact (((standsIn_orderClause d hc hparts).behind _).before hlimit).before hend
  | delete s =>
    have horder := apart_orderClause d s.orderBy
    have hlimit := apart_rowLimit d .delete s.count
    have hc : c ∈ s.children := hc
    rcases List.mem_append.mp hc with hc | hc
    · have hfilter := (standsIn_filterDraft d hc hparts).behind
      exact (((hfilter _).before horder).before hlimit).before hend
    · exact (((standsIn_orderClause d hc hparts).behind _).before hlimit).before hend
  | zero => exact standsIn_fault _ _
  | _ => exact standsIn_fault _ _

theorem Renders.rendered_ne_nil (h : e.Renders p) : e.rendered ≠ [] := by
  cases h with
  | direct h => exact List.ne_nil_of_mem h
  | inside h _ => exact List.ne_nil_of_mem h

/-- From one level to the next, an expression with parts of its own stands in every expression that
it is written in. -/
theorem Renders.standsIn_draft (h : e.Renders p) (hparts : p.rendered ≠ []) :
    (p.draft d).StandsIn (e.draft d) := by
  induction h with
  | direct h => exact Expression.standsIn_draft d h hparts
  | inside h hp ih => exact (ih hparts).trans (Expression.standsIn_draft d h hp.rendered_ne_nil)

/-- What a statement renders stands somewhere in its draft. -/
theorem Renders.standsIn_statementDraft (h : e.Renders p) (hparts : p.rendered ≠ []) :
    (p.draft d).StandsIn (e.statementDraft d) := by
  cases h with
  | direct h => exact standsIn_statementDraft_of_mem d h hparts
  | inside h hp =>
    exact (hp.standsIn_draft d hparts).trans
      (standsIn_statementDraft_of_mem d h hp.rendered_ne_nil)

end Expression

end SqlTree
