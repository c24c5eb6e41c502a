import SqlTree.Proofs.Statement.Visit
import SqlTree.Proofs.Syntax.Children

/-!
# What a draft asks of its dialect

Drafts are made before placeholders are chosen, so they ask a dialect how identifiers are quoted,
how pages are written, how procedures are called and how a statement ends, and nothing else.
Dialects that answer these alike (`Dialect.WritesAlike`) make the same draft of every statement and
every call (`Expression.statementDraft_congr`, `Procedure.draft_congr`).
-/

namespace SqlTree

open Draft (empty step text blank lineBreak commaSeparated parenthesized ensure keyword)

/-- Two dialects that write everything alike except placeholders. -/
structure Dialect.WritesAlike (d d' : Dialect) : Prop where
  /-- They quote identifiers alike. -/
  quote : d.quote = d'.quote
  /-- They write pages alike. -/
  limitStyle : d.limitStyle = d'.limitStyle
  /-- They call procedures alike. -/
  procedureStyle : d.procedureStyle = d'.procedureStyle
  /-- They end statements alike. -/
  terminator : d.terminator = d'.terminator

variable {d d' : Dialect}

/-! ### Clauses -/

theorem fieldDraft_congr (h : d.WritesAlike d') : fieldDraft d = fieldDraft d' := by
  funext x label
  rw [fieldDraft, fieldDraft, h.quote]

theorem outputName_congr (h : d.WritesAlike d') : outputName d = outputName d' := by
  funext fields column
  rw [outputName_eq, outputName_eq, h.quote]

theorem outputColumns?_congr (h : d.WritesAlike d') : outputColumns? d = outputColumns? d' := by
  have hcolumn : Field.outputColumn? d = Field.outputColumn? d' := by
    funext f
    rw [Field.outputColumn?, Field.outputColumn?, h.quote]
  funext fields
  rw [outputColumns?, outputColumns?, hcolumn]

theorem QueryParts.limitClause_congr (h : d.WritesAlike d') (p : QueryParts) :
    p.limitClause d = p.limitClause d' := by
  rw [limitClause, limitClause, h.limitStyle]

theorem QueryParts.plain_congr (h : d.WritesAlike d') (limited : Bool) (p : QueryParts) :
    p.plain d limited = p.plain d' limited := by
  rw [plain, plain, limitClause_congr h]

theorem Query.windowed_congr (h : d.WritesAlike d') (q : Query) : q.windowed d = q.windowed d' := by
  rw [windowed, windowed, isWindowed, isWindowed, h.limitStyle]

/-! ### Expressions -/

/-- The two dialects draft an expression alike. -/
def Expression.DraftedAlike (d d' : Dialect) (e : Expression) : Prop := e.draft d = e.draft d'

theorem map_draft_congr (items : List Expression) (hi : ∀ e ∈ items, e.DraftedAlike d d') :
    items.map (Expression.draft d) = items.map (Expression.draft d') :=
  List.map_congr_left hi

theorem Field.draft_congr (h : d.WritesAlike d') {f : Field} (hf : f.expr.DraftedAlike d d') :
    f.draft d = f.draft d' := by
  rw [Field.draft_eq, Field.draft_eq, fieldDraft_congr h, hf]

theorem map_fieldDraft_congr (h : d.WritesAlike d') (fields : List Field)
    (hf : ∀ e ∈ fields.map (·.expr), e.DraftedAlike d d') :
    fields.map (Field.draft d) = fields.map (Field.draft d') :=
  List.map_congr_left fun _ hx => Field.draft_congr h (hf _ (List.mem_map_of_mem hx))

theorem OrderField.draft_congr (nameOf : String → String) {f : OrderField}
    (hf : f.expr.DraftedAlike d d') : f.draft d nameOf = f.draft d' nameOf := by
  obtain ⟨expr, direction⟩ := f
  cases expr with
  | column name => rfl
  | _ => exact congrArg (orderFieldDraft · direction) hf

theorem map_orderDraft_congr (nameOf : String → String) (fields : List OrderField)
    (hf : ∀ e ∈ fields.map (·.expr), e.DraftedAlike d d') :
    fields.map (OrderField.draft d nameOf) = fields.map (OrderField.draft d' nameOf) :=
  List.map_congr_left fun _ hx => OrderField.draft_congr nameOf (hf _ (List.mem_map_of_mem hx))

theorem Join.draft_congr {j : Join} (hj : ∀ e ∈ j.conditions, e.DraftedAlike d d') :
    j.draft d = j.draft d' := by
  rw [Join.draft_eq, Join.draft_eq, map_draft_congr _ hj]

theorem Source.draft_congr {s : Source} (hs : ∀ e ∈ s.children, e.DraftedAlike d d') :
    s.draft d = s.draft d' := by
  rw [Source.draft_eq, Source.draft_eq]
  refine congrArg (sourceDraft s.tables) (List.map_congr_left fun j hj => ?_)
  exact Join.draft_congr (Source.forall_conditions hs hj)

theorem Condition.draft_congr {c : Condition} (hc : ∀ e ∈ c.children, e.DraftedAlike d d') :
    c.draft d = c.draft d' := by
  have hleft : c.left.map (Expression.draft d) = c.left.map (Expression.draft d') :=
    Option.map_congr (Condition.forall_left hc)
  have hright : (c.right.map fun e => (e, e.draft d)) = c.right.map fun e => (e, e.draft d') :=
    Option.map_congr fun e he => congrArg (Prod.mk e) (Condition.forall_right hc e he)
  rw [Condition.draft_eq, Condition.draft_eq, hleft, hright]

/-- The parts of a query look at the dialect only for quotes and limits. -/
theorem Query.parts_congr (h : d.WritesAlike d') {q : Query}
    (hq : ∀ e ∈ q.children, e.DraftedAlike d d') : q.parts d = q.parts d' := by
  have hclauses := Query.throughout hq
  have hname : q.orderName d = q.orderName d' := by
    rw [orderName, orderName, windowed_congr h, outputName_congr h]
  have hsource : q.sourceClause d = q.sourceClause d' := by
    unfold sourceClause
    cases hs : q.source with
    | none => rfl
    | some s => exact Source.draft_congr (hclauses.source s hs)
  -- The clauses, one by one.
  have hfields := map_fieldDraft_congr h (q.select.getD []) hclauses.fields
  have hfilter := map_draft_congr (q.filter.getD []) hclauses.filter
  have hgroup := map_draft_congr (q.groupBy.getD []) hclauses.groupBy
  have hhaving := map_draft_congr (q.having.getD []) hclauses.having
  have horder := map_orderDraft_congr (q.orderName d') (q.orderBy.getD []) hclauses.orderBy
  rw [parts, parts, groupClause, groupClause, hname, hsource, hfields, hfilter, hgroup, hhaving,
    horder, outputColumns?_congr h]

theorem Query.draft_congr (h : d.WritesAlike d') (topLevel : Bool) {q : Query}
    (hq : ∀ e ∈ q.children, e.DraftedAlike d d') : q.draft d topLevel = q.draft d' topLevel := by
  rw [Query.draft_eq, Query.draft_eq, windowed_congr h, parts_congr h hq,
    QueryParts.plain_congr h, h.terminator]

/-- Dialects that write alike draft every expression alike. -/
theorem Expression.draft_congr (h : d.WritesAlike d') (e : Expression) :
    e.draft d = e.draft d' := by
  induction e using Expression.induction with
  | step e ih =>
    -- One case for each kind of node, with the same draft for all its children.
    cases e with
    | query q => exact congrArg parenthesized (Query.draft_congr h false ih)
    | condition c => exact Condition.draft_congr ih
    | conditions items => rw [draft_conditions, draft_conditions, map_draft_congr items ih]
    | aggregate function argument =>
      rw [draft_aggregate, draft_aggregate, ih argument List.mem_cons_self]
    | select fields => rw [draft_select, draft_select, map_fieldDraft_congr h _ ih]
    | source s => exact Source.draft_congr ih
    | join j => exact Join.draft_congr ih
    | filter items => rw [draft_filter, draft_filter, map_draft_congr items ih]
    | groupBy fields => rw [draft_groupBy, draft_groupBy, map_draft_congr fields ih]
    | having items => rw [draft_having, draft_having, map_draft_congr items ih]
    | orderBy fields => rw [draft_orderBy, draft_orderBy, map_orderDraft_congr id _ ih]
    | field f => exact Field.draft_congr h (ih f.expr List.mem_cons_self)
    | _ => rfl

/-! ### Statements and calls -/

theorem filterDraft_congr (h : d.WritesAlike d') : filterDraft d = filterDraft d' := by
  funext filter
  rw [filterDraft_eq, filterDraft_eq, map_draft_congr _ fun e _ => e.draft_congr h]

theorem orderDraft_congr (h : d.WritesAlike d') : orderDraft d = orderDraft d' := by
  funext order
  rw [orderDraft_eq, orderDraft_eq, map_orderDraft_congr id _ fun e _ => e.draft_congr h]

theorem rowLimit_congr (h : d.WritesAlike d') : rowLimit d = rowLimit d' := by
  funext kind count
  rw [rowLimit, rowLimit, h.limitStyle]

/-- Dialects that write alike draft every statement alike. -/
theorem Expression.statementDraft_congr (h : d.WritesAlike d') (e : Expression) :
    e.statementDraft d = e.statementDraft d' := by
  have hdraft : Expression.draft d = Expression.draft d' := funext fun e => e.draft_congr h
  cases e with
  | query q => exact Query.draft_congr h true fun e _ => e.draft_congr h
  | insert i =>
    show i.draft d = i.draft d'
    rw [Insert.draft, Insert.draft, hdraft, h.terminator]
  | update u =>
    show u.draft d = u.draft d'
    rw [Update.draft, Update.draft, hdraft, filterDraft_congr h, orderDraft_congr h,
      rowLimit_congr h, h.terminator]
  | delete s =>
    show s.draft d = s.draft d'
    rw [Delete.draft, Delete.draft, filterDraft_congr h, orderDraft_congr h, rowLimit_congr h,
      h.terminator]
  | _ => rfl

/-- Dialects that write alike draft every procedure call alike. -/
theorem Procedure.draft_congr (h : d.WritesAlike d') (call : Procedure) :
    call.draft d = call.draft d' := by
  have hseed : call.seed d = call.seed d' := by
    funext p
    rw [seed, seed, h.terminator]
  have hsession : call.session d = call.session d' := by
    rw [session, session, hseed, h.terminator]
  have hnative : call.native d = call.native d' := by
    rw [native, native, h.terminator]
  rw [draft, draft, h.procedureStyle, hsession, hnative]

end SqlTree
