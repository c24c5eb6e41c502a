import SqlTree.Proofs.Syntax.Spelled
import SqlTree.Proofs.WellFormed.Parts

/-!
# Parts in their context

`x.StandsIn whole` says that the draft `x` is written as a part of the draft `whole`, and that what
follows it there keeps apart from it: it starts with a space, a comma, a new line, a closing
parenthesis or the end of the statement (`Draft.Apart`), unless nothing follows.  It is so for the
parts of each clause (`standsIn_commaSeparated`, `standsIn_itemLines` and their siblings), and for
the clauses of a query (`QueryParts.Has`).

Only expressions that have parts of their own are followed.  A column, a value or a marker can be
written differently from what its draft says: under another name, as a list, or as a parenthesis.
-/

namespace SqlTree

open Draft

/-! ### Separators -/

/-- A call that keeps what follows apart from what has been written. -/
def Writer.Step.Separates : Writer.Step → Prop
  | .blank | .comma | .lineBreak | .closeParenthesis | .terminate _ => True
  | .write _ | .print _ | .indent _ | .openParenthesis => False

namespace Draft

/-- A draft that keeps apart from what stands in front of it. -/
inductive Apart : Draft → Prop where
  | empty : Apart empty
  | fault (e : Error) : Apart (.fault e)
  | step {s : Writer.Step} (hs : s.Separates) (y : Draft) : Apart (step s ++ y)

variable {x y z : Draft}

/-- What stands first keeps a draft apart from what is in front of it, unless it is empty. -/
theorem Apart.append (hx : x.Apart) (hy : y.Apart) : (x ++ y).Apart := by
  cases hx with
  | empty => rwa [empty_append]
  | fault e => exact .fault e
  | step hs z =>
    rw [append_assoc]
    exact .step hs (z ++ y)

/-- Blanks, commas, line breaks and closing parentheses keep apart what stands behind them. -/
theorem apart_blank (y : Draft) : (blank ++ y).Apart := .step (s := .blank) trivial y

theorem apart_comma (y : Draft) : (Draft.step .comma ++ y).Apart := .step (s := .comma) trivial y

theorem apart_lineBreak (y : Draft) : (lineBreak ++ y).Apart := .step (s := .lineBreak) trivial y

theorem apart_closing (y : Draft) : (Draft.step .closeParenthesis ++ y).Apart :=
  .step (s := .closeParenthesis) trivial y

theorem apart_step {s : Writer.Step} (hs : s.Separates) : (step s).Apart := by
  rw [← append_empty (step s)]
  exact .step hs empty

/-- A check writes nothing, and so it keeps apart what stands in front from what stands behind. -/
theorem apart_ensure (c : Bool) (fault : ArgumentFault) : (ensure c fault).Apart := by
  cases c with
  | true => exact .empty
  | false => exact .fault _

theorem apart_ite {c : Prop} [Decidable c] (hx : x.Apart) (hy : y.Apart) :
    (if c then x else y).Apart := by
  split
  · exact hx
  · exact hy

theorem apart_concat {l : List Draft} (h : ∀ x ∈ l, x.Apart) : (concat l).Apart := by
  induction l with
  | nil => exact .empty
  | cons x rest ih =>
    exact (h x List.mem_cons_self).append (ih fun y hy => h y (List.mem_cons_of_mem x hy))

/-! ### Parts -/

/-- A draft is a part of another one and is kept apart from what follows it there. -/
def StandsIn (x whole : Draft) : Prop :=
  ∃ front back, back.Apart ∧ whole = front ++ x ++ back

/-- A draft stands in itself, between nothing and nothing. -/
theorem StandsIn.refl (x : Draft) : x.StandsIn x :=
  ⟨empty, empty, .empty, by rw [append_empty, empty_append]⟩

/-- A draft that fails has no text in which anything could be out of place. -/
theorem standsIn_fault (x : Draft) (e : Error) : x.StandsIn (.fault e) :=
  ⟨.fault e, empty, .empty, rfl⟩

/-- One context inside another is a context. -/
theorem StandsIn.trans (hx : x.StandsIn y) (hy : y.StandsIn z) : x.StandsIn z := by
  obtain ⟨front, back, hback, rfl⟩ := hx
  obtain ⟨front', back', hback', rfl⟩ := hy
  refine ⟨front' ++ front, back ++ back', hback.append hback', ?_⟩
  simp only [append_assoc]

/-- What stands in front does not matter. -/
theorem StandsIn.behind (h : x.StandsIn y) (front : Draft) : x.StandsIn (front ++ y) := by
  obtain ⟨front', back, hback, rfl⟩ := h
  refine ⟨front ++ front', back, hback, ?_⟩
  simp only [append_assoc]

/-- What follows has to keep apart. -/
theorem StandsIn.before (h : x.StandsIn y) (hz : z.Apart) : x.StandsIn (y ++ z) := by
  obtain ⟨front, back, hback, rfl⟩ := h
  refine ⟨front, back ++ z, hback.append hz, ?_⟩
  simp only [append_assoc]

/-- A parenthesis keeps apart whatever follows it. -/
theorem StandsIn.parenthesized_append (h : x.StandsIn y) (z : Draft) :
    x.StandsIn (parenthesized y ++ z) := by
  rw [parenthesized, append_assoc]
  exact (h.behind _).before (apart_closing z)

theorem StandsIn.parenthesized (h : x.StandsIn y) : x.StandsIn (parenthesized y) := by
  have h := h.parenthesized_append empty
  rwa [append_empty] at h

theorem StandsIn.ite {c : Prop} [Decidable c] (hy : c → x.StandsIn y) (hz : ¬ c → x.StandsIn z) :
    x.StandsIn (if c then y else z) := by
  split
  · next h => exact hy h
  · next h => exact hz h

/-- What is written of a list before one of its elements, and that what follows keeps apart. -/
theorem commaSeparated_append_cons (front : List Draft) (x : Draft) (rest : List Draft) :
    ∃ back, back.Apart ∧ commaSeparated (front ++ x :: rest) =
      concat (front.map (· ++ step .comma)) ++ x ++ back := by
  induction front with
  | nil =>
    cases rest with
    | nil => exact ⟨empty, .empty, by rw [append_empty, List.map_nil, concat, empty_append]; rfl⟩
    | cons y rest =>
      refine ⟨step .comma ++ commaSeparated (y :: rest), apart_comma _, ?_⟩
      rw [List.map_nil, concat, empty_append, ← append_assoc]
      rfl
  | cons a front ih =>
    obtain ⟨back, hback, heq⟩ := ih
    refine ⟨back, hback, ?_⟩
    -- An element follows, so that there is a comma.
    have hcons : commaSeparated (a :: (front ++ x :: rest)) =
        a ++ step .comma ++ commaSeparated (front ++ x :: rest) := by
      cases front with
      | nil => rfl
      | cons b front => rfl
    rw [List.cons_append, hcons, heq, List.map_cons, concat]
    simp only [append_assoc]

/-- Commas keep the items of a list apart. -/
theorem standsIn_commaSeparated {l : List Draft} (hx : x ∈ l) : x.StandsIn (commaSeparated l) := by
  obtain ⟨front, rest, rfl⟩ := List.append_of_mem hx
  obtain ⟨back, hback, heq⟩ := commaSeparated_append_cons front x rest
  exact ⟨_, back, hback, heq⟩

/-- In a row of parts that are kept apart each one stands as it is. -/
theorem StandsIn.concat {l : List Draft} (hl : ∀ y ∈ l, y.Apart) (hy : y ∈ l)
    (h : x.StandsIn y) : x.StandsIn (concat l) := by
  induction l with
  | nil => cases hy
  | cons a rest ih =>
    have hrest : ∀ y ∈ rest, y.Apart := fun y hy => hl y (List.mem_cons_of_mem a hy)
    rcases List.mem_cons.mp hy with rfl | hy
    · exact h.before (apart_concat hrest)
    · exact (ih hrest hy).behind a

/-! ### Conditions -/

/-- A marker has no parts. -/
theorem rendered_of_isMarker {e : Expression} (h : e.isMarker = true) : e.rendered = [] := by
  cases e with
  | sql raw => rfl
  | _ => cases h

/-- An item that has parts is no marker, and is written as it is. -/
theorem itemDraft_of_rendered {e : Expression} (he : e.rendered ≠ []) (body : Draft) :
    itemDraft e body = body := by
  have hmarker : e.isMarker = false := by
    cases h : e.isMarker with
    | false => rfl
    | true => exact absurd (rendered_of_isMarker h) he
  obtain ⟨hopens, hcloses⟩ := Bool.or_eq_false_iff.mp hmarker
  rw [itemDraft, hopens, hcloses, if_neg Bool.false_ne_true, if_neg Bool.false_ne_true]

section Items

variable {part : Expression → Draft} {items : List Expression} {e : Expression}

/-- Every item but the first starts a new line. -/
theorem apart_itemLines (depth : Nat) (l : List (Expression × Draft)) :
    (itemLines depth false l).Apart := by
  cases l with
  | nil => exact .empty
  | cons item rest =>
    rw [itemLines, if_neg Bool.false_ne_true, append_assoc, append_assoc]
    exact apart_lineBreak _

/-- Items stand on lines of their own. -/
theorem standsIn_itemLines (he : e ∈ items) (hparts : e.rendered ≠ []) (depth : Nat)
    (first : Bool) :
    (part e).StandsIn (itemLines depth first (items.zip (items.map part))) := by
  induction items generalizing depth first with
  | nil => cases he
  | cons item rest ih =>
    rw [List.map_cons, List.zip_cons_cons, itemLines]
    rcases List.mem_cons.mp he with rfl | he
    · rw [itemDraft_of_rendered hparts]
      exact ((StandsIn.refl _).behind _).before (apart_itemLines _ _)
    · exact (ih he _ _).behind _

theorem standsIn_sequence (he : e ∈ items) (hparts : e.rendered ≠ []) :
    (part e).StandsIn (sequenceDraft items (items.map part)) :=
  (standsIn_itemLines he hparts 0 true).behind _

theorem apart_conditionsClause (word : String) (items : List Expression) (bodies : List Draft) :
    (conditionsClause word items bodies).Apart := by
  refine apart_ite .empty ?_
  rw [append_assoc, append_assoc]
  exact apart_lineBreak _

theorem standsIn_conditionsClause (word : String) (he : e ∈ items) (hparts : e.rendered ≠ []) :
    (part e).StandsIn (conditionsClause word items (items.map part)) := by
  have hne : items.isEmpty = false :=
    List.isEmpty_eq_false_iff.mpr (List.ne_nil_of_mem he)
  rw [conditionsClause, hne, if_neg Bool.false_ne_true]
  exact (standsIn_sequence he hparts).behind _

/-- The conditions of a join are written one behind the other, with a blank between them. -/
theorem standsIn_join (kind : JoinKind) (table : Table) (he : e ∈ items)
    (hparts : e.rendered ≠ []) :
    (part e).StandsIn (joinDraft kind table items (items.map part)) := by
  have hne : items.isEmpty = false :=
    List.isEmpty_eq_false_iff.mpr (List.ne_nil_of_mem he)
  rw [joinDraft, hne, if_neg Bool.false_ne_true, zip_map_self, List.map_map]
  refine StandsIn.behind (StandsIn.behind ?_ _) _
  -- Each condition brings its blank along.
  refine StandsIn.concat ?_ (List.mem_map_of_mem he) ?_
  · intro y hy
    obtain ⟨item, -, rfl⟩ := List.mem_map.mp hy
    exact apart_blank _
  · show (part e).StandsIn (blank ++ itemDraft e (part e))
    rw [itemDraft_of_rendered hparts]
    exact (StandsIn.refl _).behind _

end Items

theorem standsIn_enclosed (e : Expression) (body : Draft) : body.StandsIn (enclosed e body) := by
  cases e with
  | query q => exact .refl _
  | _ => exact (StandsIn.refl _).parenthesized

/-- An expression with parts is no value, and is written as it is between parentheses. -/
theorem standsIn_memberList {e : Expression} (he : e.rendered ≠ []) (body : Draft) :
    body.StandsIn (memberList e body) := by
  cases e with
  | value v => exact absurd rfl he
  | query q => exact .refl _
  | _ => exact (StandsIn.refl _).parenthesized

/-- The left side of a condition stands in front of the operator, in all its forms. -/
theorem standsIn_left (left : Draft) (op : Operator) (right : Option (Expression × Draft)) :
    left.StandsIn (conditionDraft (some left) op right) := by
  cases right with
  | none =>
    show left.StandsIn (left ++ blank ++ text op.sql)
    rw [append_assoc]
    exact (StandsIn.refl _).before (apart_blank _)
  | some r =>
    obtain ⟨e, body⟩ := r
    show left.StandsIn (left ++ blank ++ keyword op.sql ++ _)
    rw [append_assoc, append_assoc]
    exact (StandsIn.refl _).before (apart_blank _)

/-- The right side of a condition stands behind the operator; what has parts is not null. -/
theorem standsIn_right (left : Option Draft) (op : Operator) {e : Expression}
    (he : e.rendered ≠ []) (body : Draft) :
    body.StandsIn (conditionDraft left op (some (e, body))) := by
  cases left with
  | none => exact (standsIn_enclosed e body).behind _
  | some left =>
    refine StandsIn.behind (StandsIn.ite (fun _ => ?_) fun _ => .refl _) _
    exact standsIn_memberList he body

/-! ### Fields and clauses -/

theorem standsIn_field (d : Dialect) (expr : Draft) (label : Option String) :
    expr.StandsIn (fieldDraft d expr label) := by
  unfold fieldDraft
  split
  · simp only [append_assoc]
    exact (StandsIn.refl _).before (apart_blank _)
  · exact .refl _

theorem standsIn_orderField (expr : Draft) (direction : SortOrder) :
    expr.StandsIn (orderFieldDraft expr direction) := by
  rw [orderFieldDraft, append_assoc]
  exact (StandsIn.refl _).before (apart_blank _)

theorem standsIn_select {l : List Draft} (hx : x ∈ l) : x.StandsIn (selectDraft l) := by
  have hne : l.isEmpty = false :=
    List.isEmpty_eq_false_iff.mpr (List.ne_nil_of_mem hx)
  rw [selectDraft, hne, if_neg Bool.false_ne_true]
  exact standsIn_commaSeparated hx

/-- Clauses start with a line break, if they are written at all. -/
theorem apart_listClause (word : String) (l : List Draft) : (listClause word l).Apart := by
  refine apart_ite .empty ?_
  rw [append_assoc]
  exact apart_lineBreak _

theorem standsIn_listClause (word : String) {l : List Draft} (hx : x ∈ l) :
    x.StandsIn (listClause word l) := by
  have hne : l.isEmpty = false :=
    List.isEmpty_eq_false_iff.mpr (List.ne_nil_of_mem hx)
  rw [listClause, hne, if_neg Bool.false_ne_true]
  exact (standsIn_commaSeparated hx).behind _

theorem apart_source (tables : List Table) (joins : List Draft) :
    (sourceDraft tables joins).Apart := by
  unfold sourceDraft
  simp only [append_assoc]
  exact (apart_ensure _ _).append (apart_lineBreak _)

theorem standsIn_source (tables : List Table) {joins : List Draft} (hx : x ∈ joins) :
    x.StandsIn (sourceDraft tables joins) := by
  refine StandsIn.behind ?_ _
  refine StandsIn.concat ?_ (List.mem_map_of_mem hx) ((StandsIn.refl x).behind lineBreak)
  intro y hy
  obtain ⟨join, -, rfl⟩ := List.mem_map.mp hy
  exact apart_lineBreak join

end Draft

/-! ### Queries -/

namespace QueryParts

/-- A draft stands in one of the clauses of a query, or in an element of its order. -/
inductive Has (p : QueryParts) (x : Draft) : Prop where
  | fields (h : x.StandsIn p.fields)
  | body (h : x.StandsIn p.body)
  | order {o : Draft} (ho : o ∈ p.order) (h : x.StandsIn o)

variable {p : QueryParts} {x : Draft}

theorem apart_limitClause (d : Dialect) (p : QueryParts) : (p.limitClause d).Apart :=
  apart_lineBreak _

theorem apart_rowNumber (p : QueryParts) : p.rowNumber.Apart := by
  rw [rowNumber, append_assoc, append_assoc]
  exact apart_comma _

/-- What a page is ordered by stands between the parentheses of the row number. -/
theorem standsIn_rowNumber {o : Draft} (ho : o ∈ p.order) : o.StandsIn p.rowNumber := by
  have hne : p.order.isEmpty = false :=
    List.isEmpty_eq_false_iff.mpr (List.ne_nil_of_mem ho)
  rw [rowNumber, append_assoc, hne, if_neg Bool.false_ne_true]
  exact (((standsIn_commaSeparated ho).behind _).parenthesized_append _).behind _

/-- Behind the fields there is a row number, kept apart by a comma, or the source. -/
theorem standsIn_projection_fields (hbody : p.body.Apart) {extra : Draft} (hextra : extra.Apart) :
    p.fields.StandsIn (p.projection extra) :=
  (((StandsIn.refl _).behind _).before hextra).before hbody

theorem standsIn_projection_body (extra : Draft) : p.body.StandsIn (p.projection extra) :=
  (StandsIn.refl _).behind _

/-- Everything that a query has stands in it when it is written without numbered rows. -/
theorem Has.plain (h : p.Has x) (hbody : p.body.Apart) (d : Dialect) (limited : Bool) :
    x.StandsIn (p.plain d limited) := by
  have hlimit : (if limited then p.limitClause d else empty).Apart :=
    apart_ite (apart_limitClause d p) .empty
  have horder := apart_listClause "ORDER BY" p.order
  cases h with
  | fields h =>
    exact ((h.trans (standsIn_projection_fields hbody .empty)).before horder).before hlimit
  | body h => exact ((h.trans (standsIn_projection_body empty)).before horder).before hlimit
  | order ho h => exact ((h.trans (standsIn_listClause _ ho)).behind _).before hlimit

/-- With numbered rows the order stands among the fields, or in front of the different rows. -/
theorem Has.numberedRows (h : p.Has x) (hbody : p.body.Apart) : x.StandsIn p.numberedRows := by
  have hnumber := apart_rowNumber p
  unfold QueryParts.numberedRows
  -- Different rows are numbered outside of the subquery that selects them.
  split
  · -- The rows are numbered in front of the derived table that has the clauses.
    cases h with
    | fields h =>
      rw [append_assoc]
      exact ((h.trans (standsIn_projection_fields hbody .empty)).parenthesized_append _).behind _
    | body h =>
      rw [append_assoc]
      exact ((h.trans (standsIn_projection_body empty)).parenthesized_append _).behind _
    | order ho h =>
      simp only [append_assoc]
      exact ((h.trans (standsIn_rowNumber ho)).before (apart_lineBreak _)).behind _
  · cases h with
    | fields h => exact h.trans (standsIn_projection_fields hbody hnumber)
    | body h => exact h.trans (standsIn_projection_body _)
    | order ho h => exact ((h.trans (standsIn_rowNumber ho)).behind _).before hbody

theorem Has.windowed (h : p.Has x) (hbody : p.body.Apart) (topLevel : Bool) :
    x.StandsIn (p.windowed topLevel) := by
  refine StandsIn.ite (fun _ => standsIn_fault x _) fun _ => ?_
  simp only [append_assoc]
  exact ((((h.numberedRows hbody).parenthesized_append _).behind _).behind _).behind _

end QueryParts

end SqlTree
