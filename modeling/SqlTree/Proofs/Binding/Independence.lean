import SqlTree.Compiler
import SqlTree.Proofs.Draft.Values
import SqlTree.Proofs.Procedure.Parts
import SqlTree.Proofs.Syntax.Children
import SqlTree.Proofs.Syntax.MapValues
import SqlTree.Proofs.Value.Shape

/-!
# Bound values never influence the text

Main statement, `compile_mapValues`: if `f` keeps shapes, an expression whose values are changed by
`f` compiles to the same text with the changed arguments, or is refused with the same error.

Each clause is drafted from the drafts of its parts and from marks that `f` does not touch.  So
drafting commutes with `mapValues` clause by clause, and `Expression.draft_mapValues` follows by
induction.  Only a membership test looks at a value, and there at its shape alone
(`mapValues_memberList`).
-/

namespace SqlTree

open Draft (empty step text blank lineBreak argument concat joined commaSeparated parenthesized
  ensure keyword)
open Value (KeepsShape)

variable (f : Value → Value)

/-! ### Clauses -/

/-- Tables bind no values.  The parts of a statement are handled in the order in which they are
defined: a part commutes with a change of values if its own parts do. -/
theorem mapValues_tableDraft (t : Table) : t.draft.mapValues f = t.draft := by
  unfold Table.draft
  split <;> rfl

theorem mapValues_fieldDraft (d : Dialect) (x : Draft) (label : Option String) :
    (fieldDraft d x label).mapValues f = fieldDraft d (x.mapValues f) label := by
  unfold fieldDraft
  split
  · simp only [Draft.mapValues_append, Draft.mapValues_blank, Draft.mapValues_text]
  · rfl

theorem mapValues_selectDraft (fields : List Draft) :
    (selectDraft fields).mapValues f = selectDraft (fields.map (Draft.mapValues f)) := by
  simp only [selectDraft, Draft.mapValues_ite, Draft.mapValues_text, Draft.mapValues_commaSeparated,
    List.isEmpty_map]

theorem mapValues_orderFieldDraft (x : Draft) (direction : SortOrder) :
    (orderFieldDraft x direction).mapValues f = orderFieldDraft (x.mapValues f) direction := by
  simp only [orderFieldDraft, Draft.mapValues_append, Draft.mapValues_blank, Draft.mapValues_text]

theorem mapValues_enclosed (e : Expression) (body : Draft) :
    (enclosed e body).mapValues f = enclosed (e.mapValues f) (body.mapValues f) := by
  cases e <;> first | rfl | exact Draft.mapValues_parenthesized f body

theorem mapValues_listClause (word : String) (items : List Draft) :
    (listClause word items).mapValues f = listClause word (items.map (Draft.mapValues f)) := by
  simp only [listClause, Draft.mapValues_ite, Draft.mapValues_append, Draft.mapValues_empty,
    Draft.mapValues_lineBreak, Draft.mapValues_keyword, Draft.mapValues_commaSeparated,
    List.isEmpty_map]

/-- Whether an item opens or closes a group, and so how far it is set in, does not depend on values.
-/
theorem mapValues_itemDraft (item : Expression) (body : Draft) :
    (itemDraft item body).mapValues f = itemDraft (item.mapValues f) (body.mapValues f) := by
  simp only [itemDraft, Draft.mapValues_ite, Draft.mapValues_step, Expression.opensGroup_mapValues,
    Expression.closesGroup_mapValues]

/-- The depth at which an item stands is counted from the markers in front of it. -/
theorem mapValues_itemLines (depth : Nat) (first : Bool) (l : List (Expression × Draft)) :
    (itemLines depth first l).mapValues f =
      itemLines depth first (l.map (Prod.map (Expression.mapValues f) (Draft.mapValues f))) := by
  -- Along the items: each one hands the depth on to those behind it.
  induction l generalizing depth first with
  | nil => rfl
  | cons item rest ih =>
    obtain ⟨item, body⟩ := item
    simp only [itemLines, List.map_cons, Prod.map, Draft.mapValues_append, Draft.mapValues_ite,
      Draft.mapValues_empty, Draft.mapValues_lineBreak, Draft.mapValues_step, mapValues_itemDraft,
      Expression.opensGroup_mapValues, Expression.closesGroup_mapValues, ih]

theorem mapValues_sequenceDraft (items : List Expression) (bodies : List Draft) :
    (sequenceDraft items bodies).mapValues f =
      sequenceDraft (items.map (Expression.mapValues f)) (bodies.map (Draft.mapValues f)) := by
  rw [sequenceDraft, sequenceDraft, Draft.mapValues_append, Draft.mapValues_ensure,
    mapValues_itemLines, Conditions.balanced_mapValues, List.zip_map]

/-- Whether a clause of conditions is written, and whether its groups are nested, does not depend on
values. -/
theorem mapValues_conditionsClause (word : String) (items : List Expression)
    (bodies : List Draft) :
    (conditionsClause word items bodies).mapValues f =
      conditionsClause word (items.map (Expression.mapValues f))
        (bodies.map (Draft.mapValues f)) := by
  simp only [conditionsClause, Draft.mapValues_ite, Draft.mapValues_append, Draft.mapValues_empty,
    Draft.mapValues_lineBreak, Draft.mapValues_text, mapValues_sequenceDraft, List.isEmpty_map]

theorem mapValues_joinDraft (kind : JoinKind) (table : Table) (items : List Expression)
    (bodies : List Draft) :
    (joinDraft kind table items bodies).mapValues f =
      joinDraft kind table (items.map (Expression.mapValues f))
        (bodies.map (Draft.mapValues f)) := by
  simp only [joinDraft, Draft.mapValues_append, Draft.mapValues_ite, Draft.mapValues_empty,
    Draft.mapValues_keyword, Draft.mapValues_ensure, Draft.mapValues_blank, Draft.mapValues_text,
    Draft.mapValues_concat, mapValues_tableDraft, Conditions.balanced_mapValues, List.isEmpty_map,
    List.zip_map, List.map_map, Function.comp_def, Prod.map, mapValues_itemDraft]

theorem mapValues_sourceDraft (tables : List Table) (joins : List Draft) :
    (sourceDraft tables joins).mapValues f =
      sourceDraft tables (joins.map (Draft.mapValues f)) := by
  simp only [sourceDraft, Draft.mapValues_append, Draft.mapValues_ensure, Draft.mapValues_lineBreak,
    Draft.mapValues_keyword, Draft.mapValues_commaSeparated, Draft.mapValues_concat, List.map_map,
    Function.comp_def, mapValues_tableDraft]

/-! ### Pages -/

namespace QueryParts

/-- Changes every value in the clauses of a query. -/
def mapValues (p : QueryParts) : QueryParts :=
  { p with
    fields := p.fields.mapValues f
    body := p.body.mapValues f
    order := p.order.map (Draft.mapValues f) }

theorem mapValues_projection (p : QueryParts) (extra : Draft) :
    (p.projection extra).mapValues f = (p.mapValues f).projection (extra.mapValues f) := by
  simp only [projection, Draft.mapValues_append, Draft.mapValues_ite, Draft.mapValues_text,
    Draft.mapValues_blank, Draft.mapValues_empty]
  rfl

/-- The numbers of a page are written as they are and not bound. -/
theorem mapValues_limitClause (d : Dialect) (p : QueryParts) :
    (p.limitClause d).mapValues f = (p.mapValues f).limitClause d := by
  unfold limitClause
  cases d.limitStyle <;>
    simp only [Draft.mapValues_append, Draft.mapValues_ite, Draft.mapValues_lineBreak,
      Draft.mapValues_text, Draft.mapValues_blank, Draft.mapValues_empty] <;>
    rfl

theorem mapValues_plain (d : Dialect) (limited : Bool) (p : QueryParts) :
    (p.plain d limited).mapValues f = (p.mapValues f).plain d limited := by
  simp only [plain, Draft.mapValues_append, Draft.mapValues_ite, Draft.mapValues_empty,
    mapValues_projection, mapValues_limitClause, mapValues_listClause]
  rfl

theorem mapValues_rowNumber (p : QueryParts) :
    p.rowNumber.mapValues f = (p.mapValues f).rowNumber := by
  simp only [rowNumber, mapValues, Draft.mapValues_append, Draft.mapValues_step,
    Draft.mapValues_keyword, Draft.mapValues_parenthesized, Draft.mapValues_ite,
    Draft.mapValues_text, Draft.mapValues_commaSeparated, List.isEmpty_map]

theorem mapValues_numberedRows (p : QueryParts) :
    p.numberedRows.mapValues f = (p.mapValues f).numberedRows := by
  simp only [numberedRows, Draft.mapValues_ite, Draft.mapValues_append, Draft.mapValues_text,
    Draft.mapValues_lineBreak, Draft.mapValues_keyword, Draft.mapValues_parenthesized,
    Draft.mapValues_empty, mapValues_projection, mapValues_rowNumber]
  rfl

/-- The page that numbers its rows, with the query it is taken from. -/
theorem mapValues_windowed (topLevel : Bool) (p : QueryParts) :
    (p.windowed topLevel).mapValues f = (p.mapValues f).windowed topLevel := by
  simp only [windowed, Draft.mapValues_ite, Draft.mapValues_fault, Draft.mapValues_append,
    Draft.mapValues_keyword, Draft.mapValues_parenthesized, Draft.mapValues_text,
    Draft.mapValues_lineBreak, Draft.mapValues_empty, mapValues_numberedRows]
  rfl

end QueryParts

/-! ### Values -/

variable {f}

/-- Null is written and a scalar bound, which a change that keeps shapes does not confuse; a list is
bound item by item. -/
theorem mapValues_valueDraft (hf : KeepsShape f) (v : Value) :
    v.draft.mapValues f = (f v).draft := by
  simp only [Value.draft, Draft.mapValues_ite, Draft.mapValues_text, Draft.mapValues_argument,
    hf.isNull_eq]

/-- A scalar in a membership test is enclosed like any other expression. -/
theorem memberList_scalar {v : Value} (h : v.isScalar = true) (body : Draft) :
    memberList (.value v) body = parenthesized body := by
  cases v with
  | null | list _ => simp [Value.isScalar] at h
  | _ => rfl

/-- Null stands for no members and a list for its items, so a value has to keep its shape. -/
theorem mapValues_memberList (hf : KeepsShape f) (e : Expression) (body : Draft) :
    (memberList e body).mapValues f = memberList (e.mapValues f) (body.mapValues f) := by
  cases e with
  | value v =>
    show _ = memberList (.value (f v)) _
    -- A membership test takes null, lists and scalars apart, as `f` does.
    cases v with
    | null =>
      rw [hf.null]
      rfl
    | list items =>
      rw [hf.list]
      show (parenthesized (commaSeparated (items.map Value.draft))).mapValues f =
        parenthesized (commaSeparated ((items.map f).map Value.draft))
      simp only [Draft.mapValues_parenthesized, Draft.mapValues_commaSeparated, List.map_map,
        Function.comp_def, mapValues_valueDraft hf]
    | _ =>
      rw [memberList_scalar rfl, memberList_scalar (hf.scalar _ rfl),
        Draft.mapValues_parenthesized]
  | query q => rfl
  | _ => exact Draft.mapValues_parenthesized f body

/-- Which form a condition has depends on the sides that are there and on whether the right one is
null or a list. -/
theorem mapValues_conditionDraft (hf : KeepsShape f) (left : Option Draft) (op : Operator)
    (right : Option (Expression × Draft)) :
    (conditionDraft left op right).mapValues f =
      conditionDraft (left.map (Draft.mapValues f)) op
        (right.map (Prod.map (Expression.mapValues f) (Draft.mapValues f))) := by
  cases left <;> cases right <;>
    simp only [conditionDraft, Option.map_none, Option.map_some, Prod.map, Draft.mapValues_append,
      Draft.mapValues_text, Draft.mapValues_blank, Draft.mapValues_keyword, Draft.mapValues_ite,
      mapValues_enclosed, mapValues_memberList hf]

/-! ### Expressions -/

/-- The draft of the changed expression is the changed draft. -/
def Expression.Commutes (f : Value → Value) (d : Dialect) (e : Expression) : Prop :=
  (e.mapValues f).draft d = (e.draft d).mapValues f

variable {d : Dialect}

/-- What holds of each of several expressions holds of their drafts, in this order. -/
theorem map_draft_mapValues (items : List Expression) (h : ∀ e ∈ items, e.Commutes f d) :
    (items.map (Expression.mapValues f)).map (Expression.draft d) =
      (items.map (Expression.draft d)).map (Draft.mapValues f) := by
  rw [List.map_map, List.map_map]
  exact List.map_congr_left h

/-- From here on the parts are those of a tree, whose expressions commute with the change by the
induction over the tree. -/
theorem Field.draft_mapValues {x : Field} (h : x.expr.Commutes f d) :
    (x.mapValues f).draft d = (x.draft d).mapValues f := by
  obtain ⟨expr, label⟩ := x
  rw [Field.draft_eq, Field.draft_eq, mapValues_fieldDraft]
  exact congrArg (fieldDraft d · label) h

theorem map_fieldDraft_mapValues (fields : List Field)
    (h : ∀ e ∈ fields.map (·.expr), e.Commutes f d) :
    (fields.map (Field.mapValues f)).map (Field.draft d) =
      (fields.map (Field.draft d)).map (Draft.mapValues f) := by
  rw [List.map_map, List.map_map]
  exact List.map_congr_left fun x hx => Field.draft_mapValues (h _ (List.mem_map_of_mem hx))

theorem OrderField.draft_mapValues (nameOf : String → String) {x : OrderField}
    (h : x.expr.Commutes f d) :
    (x.mapValues f).draft d nameOf = (x.draft d nameOf).mapValues f := by
  obtain ⟨expr, direction⟩ := x
  -- A column is written by name, whatever its draft; every other expression by its draft.
  cases expr with
  | column name => rfl
  | _ =>
    refine Eq.trans ?_ (mapValues_orderFieldDraft f _ direction).symm
    exact congrArg (orderFieldDraft · direction) h

theorem map_orderDraft_mapValues (nameOf : String → String) (fields : List OrderField)
    (h : ∀ e ∈ fields.map (·.expr), e.Commutes f d) :
    (fields.map (OrderField.mapValues f)).map (OrderField.draft d nameOf) =
      (fields.map (OrderField.draft d nameOf)).map (Draft.mapValues f) := by
  rw [List.map_map, List.map_map]
  exact List.map_congr_left fun x hx =>
    OrderField.draft_mapValues nameOf (h _ (List.mem_map_of_mem hx))

theorem Join.draft_mapValues {j : Join} (h : ∀ e ∈ j.conditions, e.Commutes f d) :
    (j.mapValues f).draft d = (j.draft d).mapValues f := by
  obtain ⟨kind, table, conditions⟩ := j
  rw [Join.draft_eq, Join.draft_eq, mapValues_joinDraft, ← map_draft_mapValues conditions h]
  rw [Join.mapValues, mapItemValues_eq_map]

theorem Source.draft_mapValues {s : Source} (h : ∀ e ∈ s.children, e.Commutes f d) :
    (s.mapValues f).draft d = (s.draft d).mapValues f := by
  obtain ⟨tables, joins⟩ := s
  rw [Source.draft_eq, Source.draft_eq, mapValues_sourceDraft, Source.mapValues,
    mapJoinValues_eq_map]
  simp only [List.map_map]
  congr 1
  exact List.map_congr_left fun j hj => Join.draft_mapValues (Source.forall_conditions h hj)

/-- A condition looks at its right side before it visits it, and so the shape of that side has to be
kept too. -/
theorem Condition.draft_mapValues (hf : KeepsShape f) {c : Condition}
    (h : ∀ e ∈ c.children, e.Commutes f d) :
    (c.mapValues f).draft d = (c.draft d).mapValues f := by
  have hleft := Condition.forall_left h
  have hright := Condition.forall_right h
  obtain ⟨left, op, right⟩ := c
  rw [Condition.draft_eq, Condition.draft_eq, mapValues_conditionDraft hf, Condition.mapValues_eq]
  simp only [Option.map_map]
  congr 1
  · exact Option.map_congr fun e he => hleft e he
  · exact Option.map_congr fun e he => congrArg (Prod.mk _) (hright e he)

/-- The clauses of the changed query are the changed clauses. -/
theorem Query.parts_mapValues {q : Query} (h : ∀ e ∈ q.children, e.Commutes f d) :
    (q.mapValues f).parts d = (q.parts d).mapValues f := by
  have hq := Query.throughout h
  -- The order of a page may refer to a field by name, and names are those of columns and aliases.
  have hname : (q.mapValues f).orderName d = q.orderName d := by
    rw [Query.mapValues_eq, orderName, orderName, getD_map_map, outputName_mapValues]
    rfl
  have hfields := map_fieldDraft_mapValues (q.select.getD []) hq.fields
  have hfilter := map_draft_mapValues (q.filter.getD []) hq.filter
  have hgroup := map_draft_mapValues (q.groupBy.getD []) hq.groupBy
  have hhaving := map_draft_mapValues (q.having.getD []) hq.having
  have horder := map_orderDraft_mapValues (q.orderName d) (q.orderBy.getD []) hq.orderBy
  have hsource : (q.mapValues f).sourceClause d = (q.sourceClause d).mapValues f := by
    simp only [sourceClause, Query.mapValues_eq, Option.map_map]
    cases hs : q.source with
    | none => rfl
    | some s => exact Source.draft_mapValues (hq.source s hs)
  have hgroups : (q.mapValues f).groupClause d = (q.groupClause d).mapValues f := by
    simp only [groupClause, Query.mapValues_eq, getD_map_map, Draft.mapValues_ite,
      Draft.mapValues_empty, Draft.mapValues_append, mapValues_listClause,
      mapValues_conditionsClause, hgroup, hhaving, List.isEmpty_map]
  rw [parts, hname, hsource, hgroups]
  simp only [Query.mapValues_eq, getD_map_map, hfields, hfilter, horder, outputColumns?_mapValues]
  simp only [parts, QueryParts.mapValues, mapValues_selectDraft, Draft.mapValues_append,
    mapValues_conditionsClause]

/-- The parts of a query are the only thing that its drafts are made of. -/
theorem Query.draft_mapValues (topLevel : Bool) {q : Query}
    (h : ∀ e ∈ q.children, e.Commutes f d) :
    (q.mapValues f).draft d topLevel = (q.draft d topLevel).mapValues f := by
  have hoffset : (q.mapValues f).offset = q.offset := by rw [Query.mapValues_eq]
  have hcount : (q.mapValues f).count = q.count := by rw [Query.mapValues_eq]
  have hwindowed : (q.mapValues f).windowed d = q.windowed d := by
    rw [windowed, windowed, hoffset, hcount]
  rw [Query.draft_eq, Query.draft_eq, Query.parts_mapValues h, hwindowed, hoffset, hcount]
  simp only [Draft.mapValues_append, Draft.mapValues_ite, Draft.mapValues_step,
    Draft.mapValues_empty, QueryParts.mapValues_windowed, QueryParts.mapValues_plain]

/-- Drafting an expression commutes with a change of its values that keeps shapes. -/
theorem Expression.draft_mapValues (hf : KeepsShape f) (d : Dialect) (e : Expression) :
    (e.mapValues f).draft d = (e.draft d).mapValues f := by
  induction e using Expression.induction with
  | step e ih =>
    -- Every kind of tree is made of parts that are handled above; those left over bind nothing.
    cases e with
    | query q =>
      show parenthesized ((q.mapValues f).draft d false) = _
      rw [Query.draft_mapValues false ih, draft_query, Draft.mapValues_parenthesized]
    | condition c => exact Condition.draft_mapValues hf ih
    | value v => exact (mapValues_valueDraft hf v).symm
    | table t => exact (mapValues_tableDraft f t).symm
    | conditions items =>
      simp only [mapValues, mapItemValues_eq_map, draft_conditions, mapValues_sequenceDraft,
        map_draft_mapValues items ih]
    | aggregate function argument =>
      have hargument := ih argument List.mem_cons_self
      simp only [mapValues, draft_aggregate, Draft.mapValues_append, Draft.mapValues_text,
        Draft.mapValues_parenthesized, hargument]
    | select fields =>
      simp only [mapValues, mapFieldValues_eq_map, draft_select, mapValues_selectDraft,
        map_fieldDraft_mapValues fields ih]
    | source s => exact Source.draft_mapValues ih
    | join j => exact Join.draft_mapValues ih
    | filter items | having items =>
      simp only [mapValues, mapItemValues_eq_map, draft_filter, draft_having,
        mapValues_conditionsClause, map_draft_mapValues items ih]
    | groupBy fields =>
      simp only [mapValues, mapItemValues_eq_map, draft_groupBy, mapValues_listClause,
        map_draft_mapValues fields ih]
    | orderBy fields =>
      simp only [mapValues, mapOrderValues_eq_map, draft_orderBy, mapValues_listClause,
        map_orderDraft_mapValues id fields ih]
    | field x => exact Field.draft_mapValues (ih x.expr List.mem_cons_self)
    | _ => rfl

/-! ### Statements that change a table -/

theorem filterDraft_mapValues (hf : KeepsShape f) (d : Dialect)
    (filter : Option (List Expression)) :
    filterDraft d (filter.map (List.map (Expression.mapValues f))) =
      (filterDraft d filter).mapValues f := by
  rw [filterDraft_eq, filterDraft_eq, getD_map_map, mapValues_conditionsClause,
    map_draft_mapValues _ fun e _ => e.draft_mapValues hf d]

theorem orderDraft_mapValues (hf : KeepsShape f) (d : Dialect)
    (order : Option (List OrderField)) :
    orderDraft d (order.map (List.map (OrderField.mapValues f))) =
      (orderDraft d order).mapValues f := by
  rw [orderDraft_eq, orderDraft_eq, getD_map_map, mapValues_listClause,
    map_orderDraft_mapValues id _ fun e _ => e.draft_mapValues hf d]

theorem mapValues_rowLimit (d : Dialect) (kind : NodeKind) (count : UInt64) :
    (rowLimit d kind count).mapValues f = rowLimit d kind count := by
  simp only [rowLimit, Draft.mapValues_ite, Draft.mapValues_empty, Draft.mapValues_fault,
    Draft.mapValues_append, Draft.mapValues_lineBreak, Draft.mapValues_text]

theorem Assignment.column_mapValues (a : Assignment) : (a.mapValues f).column = a.column := by
  cases a
  rfl

theorem Assignment.value_mapValues (a : Assignment) :
    (a.mapValues f).value = a.value.mapValues f := by
  cases a
  rfl

/-- An insertion binds the values of its assignments, behind its columns. -/
theorem Insert.draft_mapValues (hf : KeepsShape f) (d : Dialect) (i : Insert) :
    (i.mapValues f).draft d = (i.draft d).mapValues f := by
  obtain ⟨table, assignments⟩ := i
  simp only [Insert.mapValues, mapAssignmentValues_eq_map, Insert.draft, ensureNamed,
    Draft.mapValues_append, Draft.mapValues_ensure, Draft.mapValues_text, Draft.mapValues_blank,
    Draft.mapValues_parenthesized, Draft.mapValues_commaSeparated, Draft.mapValues_lineBreak,
    Draft.mapValues_keyword, Draft.mapValues_step, List.isEmpty_map, List.map_map,
    Function.comp_def, Assignment.column_mapValues, Assignment.value_mapValues,
    Expression.draft_mapValues hf]

/-- An update binds the values of its assignments, then those of its filter and of its order. -/
theorem Update.draft_mapValues (hf : KeepsShape f) (d : Dialect) (u : Update) :
    (u.mapValues f).draft d = (u.draft d).mapValues f := by
  obtain ⟨table, assignments, filter, orderBy, count⟩ := u
  simp only [Update.mapValues, mapAssignmentValues_eq_map, mapFilterValues_eq_map,
    mapOrderByValues_eq_map, Update.draft, ensureNamed, Draft.mapValues_append,
    Draft.mapValues_ensure, Draft.mapValues_text, Draft.mapValues_commaSeparated,
    Draft.mapValues_lineBreak, Draft.mapValues_keyword, Draft.mapValues_step, List.isEmpty_map,
    List.map_map, Function.comp_def, Assignment.column_mapValues, Assignment.value_mapValues,
    Expression.draft_mapValues hf, filterDraft_mapValues hf, orderDraft_mapValues hf,
    mapValues_rowLimit]

theorem Delete.draft_mapValues (hf : KeepsShape f) (d : Dialect) (s : Delete) :
    (s.mapValues f).draft d = (s.draft d).mapValues f := by
  obtain ⟨table, filter, orderBy, count⟩ := s
  simp only [Delete.mapValues, mapFilterValues_eq_map, mapOrderByValues_eq_map, Delete.draft,
    ensureNamed, Draft.mapValues_append, Draft.mapValues_ensure, Draft.mapValues_text,
    Draft.mapValues_step, filterDraft_mapValues hf, orderDraft_mapValues hf, mapValues_rowLimit]

/-- What may stand as a statement is told from the root of a tree. -/
theorem Expression.statementDraft_mapValues (hf : KeepsShape f) (d : Dialect) (e : Expression) :
    (e.mapValues f).statementDraft d = (e.statementDraft d).mapValues f := by
  cases e with
  | query q => exact Query.draft_mapValues true fun e _ => e.draft_mapValues hf d
  | insert i => exact i.draft_mapValues hf d
  | update u => exact u.draft_mapValues hf d
  | delete s => exact s.draft_mapValues hf d
  | _ => rfl

/-! ### Templates -/

/-- A map of the values of a dictionary keeps its keys. -/
theorem Dictionary.find?_map {α β : Type} (g : α → β) (dict : Dictionary α) (key : String) :
    (dict.map g).find? key = (dict.find? key).map g := by
  obtain ⟨entries, increasing⟩ := dict
  -- A look-up does not ask whether the keys increase, so the induction need not either.
  show (entries.map fun e => (e.1, g e.2)).lookup key = (entries.lookup key).map g
  clear increasing
  induction entries with
  | nil => rfl
  | cons e rest ih =>
    obtain ⟨k, a⟩ := e
    simp only [List.map_cons, List.lookup_cons]
    cases key == k with
    | true => rfl
    | false => exact ih

/-- A name in braces stands for the changed value just when it stood for the value. -/
theorem Template.placeholder_mapValues (parameters : Dictionary Parameter) (offset : Nat)
    (identifier : List Char) :
    placeholder (parameters.map (Parameter.mapValue f)) offset identifier =
      (placeholder parameters offset identifier).mapValues f := by
  simp only [placeholder, Dictionary.find?_map, Draft.mapValues_ite, Draft.mapValues_fault]
  split
  · rfl
  · cases parameters.find? (String.ofList (Text.trim identifier)) <;> rfl

/-- Where the placeholders of a template are is read off the text, with no regard to the values. -/
theorem Template.scan_mapValues (parameters : Dictionary Parameter) (offset : Nat)
    (opened : Option (Nat × List Char)) (cs : List Char) :
    scan (parameters.map (Parameter.mapValue f)) offset opened cs =
      (scan parameters offset opened cs).mapValues f := by
  -- Along the text, with any name that is being read.
  induction cs generalizing offset opened with
  | nil =>
    cases opened <;> rfl
  | cons c rest ih =>
    cases opened with
    | none =>
      simp only [scan, ih, Draft.mapValues_ite, Draft.mapValues_append, Draft.mapValues_text]
    | some o =>
      obtain ⟨start, name⟩ := o
      simp only [scan, ih, placeholder_mapValues, Draft.mapValues_ite, Draft.mapValues_append]

theorem Template.draft_mapValues (t : Template) :
    (t.mapValues f).draft = t.draft.mapValues f := by
  simp only [draft, mapValues, scan_mapValues, Draft.mapValues_ite, Draft.mapValues_fault]

/-! ### Procedure calls -/

namespace Procedure

/-- Parameters are picked by their directions, which a change of values keeps. -/
theorem withDirection_mapValues (call : Procedure) (p : Direction → Bool) :
    (call.mapValues f).withDirection p = (call.withDirection p).map (Parameter.mapValue f) := by
  show (call.parameters.map (Parameter.mapValue f)).filter (fun x => p x.direction) = _
  rw [List.filter_map]
  rfl

theorem results_mapValues (call : Procedure) :
    (call.mapValues f).results = call.results.map (Parameter.mapValue f) :=
  withDirection_mapValues call (· == .result)

theorem sessionVariable_mapValue (call : Procedure) (p : Parameter) :
    (call.mapValues f).sessionVariable (p.mapValue f) = (call.sessionVariable p).mapValues f := by
  simp only [sessionVariable, Draft.mapValues_ite, Draft.mapValues_fault, Draft.mapValues_text]
  rfl

theorem seed_mapValue (d : Dialect) (call : Procedure) (p : Parameter) :
    (call.mapValues f).seed d (p.mapValue f) = (call.seed d p).mapValues f := by
  rw [seed, sessionVariable_mapValue]
  simp only [seed, Draft.mapValues_append, Draft.mapValues_text, Draft.mapValues_step,
    Draft.mapValues_lineBreak]
  rfl

theorem slot_mapValue (call : Procedure) (p : Parameter) :
    (call.mapValues f).slot (p.mapValue f) = (call.slot p).mapValues f := by
  rw [slot, slot, sessionVariable_mapValue, Draft.mapValues_ite]
  rfl

theorem nativeSlot_mapValue (p : Parameter) :
    nativeSlot (p.mapValue f) = (nativeSlot p).mapValues f := by
  rw [nativeSlot, nativeSlot, Draft.mapValues_ite]
  rfl

theorem opening_mapValues (call : Procedure) :
    (call.mapValues f).opening = call.opening.mapValues f := by
  rw [opening, opening, results_mapValues, List.head?_map]
  cases call.results.head? with
  | none => rfl
  | some result =>
    show text "SET " ++ (call.mapValues f).sessionVariable (result.mapValue f) ++ _ ++ _ = _
    rw [sessionVariable_mapValue]
    simp only [Draft.mapValues_append, Draft.mapValues_text]
    rfl

theorem readBack_mapValues (d : Dialect) (call : Procedure) (outputs : List Parameter) :
    (call.mapValues f).readBack d (outputs.map (Parameter.mapValue f)) =
      (call.readBack d outputs).mapValues f := by
  simp only [readBack, List.isEmpty_map, List.map_map, Function.comp_def, sessionVariable_mapValue,
    Draft.mapValues_ite, Draft.mapValues_empty, Draft.mapValues_append, Draft.mapValues_lineBreak,
    Draft.mapValues_text, Draft.mapValues_blank, Draft.mapValues_joined, Draft.mapValues_step]

theorem session_mapValues (d : Dialect) (call : Procedure) :
    (call.mapValues f).session d = (call.session d).mapValues f := by
  simp only [session_eq, withDirection_mapValues, opening_mapValues, readBack_mapValues,
    seed_mapValue, slot_mapValue, List.map_map, Function.comp_def, Draft.mapValues_append,
    Draft.mapValues_concat, Draft.mapValues_parenthesized, Draft.mapValues_commaSeparated,
    Draft.mapValues_step]

/-- The call that passes everything in its slots. -/
theorem native_mapValues (d : Dialect) (call : Procedure) :
    (call.mapValues f).native d = (call.native d).mapValues f := by
  have hslots : (call.mapValues f).hasNativeSlot = call.hasNativeSlot := by
    funext x
    rw [hasNativeSlot, hasNativeSlot, results_mapValues, List.isEmpty_map]
  simp only [native_eq, hslots, withDirection_mapValues, results_mapValues, nativeSlot_mapValue,
    List.isEmpty_map, List.map_map, Function.comp_def, Draft.mapValues_append,
    Draft.mapValues_parenthesized, Draft.mapValues_commaSeparated, Draft.mapValues_step,
    Draft.mapValues_text]
  rfl

theorem draft_mapValues (d : Dialect) (call : Procedure) :
    (call.mapValues f).draft d = (call.draft d).mapValues f := by
  unfold draft
  rw [results_mapValues, List.length_map, session_mapValues, native_mapValues]
  cases d.procedureStyle <;>
    simp only [Draft.mapValues_append, Draft.mapValues_ensure] <;>
    rfl

end Procedure

/-! ### Compilers -/

/-- A draft that commutes with a change of values is assembled to the same text, with the changed
values. -/
theorem compileStatement_mapValues (hf : KeepsShape f) (d : Dialect) (layout : Layout)
    (e : Expression) :
    compileStatement d layout (e.mapValues f) =
      (compileStatement d layout e).map (Compiled.mapArguments f) := by
  rw [compileStatement, Expression.statementDraft_mapValues hf, Draft.assemble_mapValues]
  rfl

/-- Every compiler commutes with a change of values: statements, templates and calls alike. -/
theorem Compiler.compile_map (hf : KeepsShape f) (c : Compiler) (e : Expression) :
    c.compile (e.mapValues f) = (c.compile e).map (Compiled.mapArguments f) := by
  have hstatement := compileStatement_mapValues hf c.dialect c.layout e
  -- Templates and procedures are compiled by themselves, all other trees as statements.
  cases e with
  | text t =>
    show (t.mapValues f).draft.assemble c.dialect .pretty = _
    rw [Template.draft_mapValues, Draft.assemble_mapValues]
    rfl
  | procedure p =>
    show ((p.mapValues f).draft c.dialect).assemble c.dialect c.layout = _
    rw [Procedure.draft_mapValues, Draft.assemble_mapValues]
    rfl
  | _ => exact hstatement

/-- **Bound values never influence the text.** A change of values that keeps null, scalars and lists
apart leaves the text of every statement, template and call, or the error, as it was, and changes
the arguments in place. -/
theorem compile_mapValues (hf : KeepsShape f) (c : Compiler) (e : Expression) :
    c.compile (e.mapValues f) = (c.compile e).map (Compiled.mapArguments f) :=
  c.compile_map hf e

/-- Every value of a list in a membership test turns into `true`; its null keeps its place without
a placeholder. -/
theorem compile_mapValues_membership :
    KeepsShape (Value.mapScalars fun _ => .bool true) ∧
      Compiler.compile ⟨.ansi, .compact⟩
          (Expression.mapValues (Value.mapScalars fun _ => .bool true)
            (.query {
              source := some { tables := [{ name := "t" }] }
              filter := some [.condition {
                left := some (.column "a")
                op := .isIn
                right := some (.value (.list [.int 1, .null, .string "x"])) }] })) =
        .ok ⟨"SELECT * FROM t WHERE a IN (?, NULL, ?);", [.bool true, .bool true]⟩ :=
  ⟨Value.keepsShape_mapScalars fun _ _ => rfl,
    (compile_mapValues (Value.keepsShape_mapScalars fun _ _ => rfl) _ _).trans rfl⟩

end SqlTree
