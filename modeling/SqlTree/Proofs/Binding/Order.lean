import SqlTree.Proofs.Draft.Binds
import SqlTree.Proofs.Statement.Visit
import SqlTree.Proofs.Syntax.BoundValues

/-!
# The order of the arguments

Main statement, `compile_arguments`: the arguments of a compiled statement are the values of the
tree in reading order.

The draft of a clause binds what its parts bind, in the order in which they are written; that is the
order in which a reader meets them except in a numbered page, which writes its order in front
(`QueryParts.Binds`).  `Expression.draft_binds` then follows by induction.
-/

namespace SqlTree

open Draft

/-! ### Leaves -/

/-- A value binds itself, or its items when it is a list; null binds nothing. -/
theorem binds_valueDraft (v : Value) : v.draft.Binds v.bound := by
  unfold Value.draft Value.bound
  cases v.isNull
  · exact binds_argument none v
  · exact binds_text _

theorem binds_tableDraft (t : Table) : t.draft.Binds [] := by
  unfold Table.draft
  split
  · exact binds_fault _ _
  · exact ((binds_text _).before (binds_text _)).before (binds_text _)
  · exact binds_text _
  · exact binds_text _

/-! ### Clauses -/

section Clauses

variable {x : Draft} {vs : List Value}

/-- An alias binds nothing. -/
theorem binds_fieldDraft (hx : x.Binds vs) (d : Dialect) (label : Option String) :
    (fieldDraft d x label).Binds vs := by
  unfold fieldDraft
  split
  · have hword := (hx.before (binds_step .blank)).before (binds_text "AS")
    exact (hword.before (binds_step _)).before (binds_text _)
  · exact hx

theorem binds_orderFieldDraft (hx : x.Binds vs) (direction : SortOrder) :
    (orderFieldDraft x direction).Binds vs :=
  (hx.before (binds_step _)).before (binds_text _)

theorem binds_enclosed (hx : x.Binds vs) (e : Expression) : (enclosed e x).Binds vs := by
  cases e <;> first | exact hx | exact hx.parenthesized

/-- A list in a membership test binds its elements, whatever its own draft binds. -/
theorem binds_memberList {e : Expression} (hx : x.Binds vs) (hnull : e = .value .null → vs = []) :
    (memberList e x).Binds (memberValues e vs) := by
  -- Null stands for the empty list, a list for its items, and a query brings its own parentheses.
  cases e with
  | value v =>
    cases v with
    | null =>
      show (parenthesized empty).Binds vs
      rw [hnull rfl]
      exact binds_empty.parenthesized
    | list items => exact (binds_commaSeparated fun v _ => binds_valueDraft v).parenthesized
    | _ => exact hx.parenthesized
  | query q => exact hx
  | _ => exact hx.parenthesized

/-- A clause made of a list binds what the list binds. -/
theorem binds_listClause {items : List Draft} (h : (commaSeparated items).Binds vs)
    (word : String) : (listClause word items).Binds vs := by
  apply Binds.ite
  · intro hempty
    obtain rfl : items = [] := List.isEmpty_iff.mp hempty
    exact h
  · intro _
    exact h.after ((binds_step _).before (binds_keyword word))

end Clauses

/-! ### Expressions -/

variable {d : Dialect} {numbered : Bool}

/-- The draft of an expression binds the values of the expression in reading order. -/
def Expression.BindsInOrder (d : Dialect) (numbered : Bool) (e : Expression) : Prop :=
  (e.draft d).Binds (e.boundValues numbered)

/-- Expressions separated by commas bind what they bind one after the other. -/
theorem binds_expressions (items : List Expression)
    (h : ∀ e ∈ items, e.BindsInOrder d numbered) :
    (commaSeparated (items.map (Expression.draft d))).Binds
      (items.flatMap (Expression.boundValues numbered)) :=
  binds_commaSeparated h

theorem Field.draft_binds {f : Field} (h : f.expr.BindsInOrder d numbered) :
    (f.draft d).Binds (f.expr.boundValues numbered) := by
  rw [Field.draft_eq]
  exact binds_fieldDraft h d f.label

/-- A star binds nothing, and fields bind their values in the order in which they are selected. -/
theorem binds_selectDraft {fields : List Field}
    (h : ∀ e ∈ fields.map (·.expr), e.BindsInOrder d numbered) :
    (selectDraft (fields.map (Field.draft d))).Binds
      (fields.flatMap fun f => f.expr.boundValues numbered) := by
  apply Binds.ite
  · intro hempty
    obtain rfl : fields = [] := List.map_eq_nil_iff.mp (List.isEmpty_iff.mp hempty)
    exact binds_text _
  · intro _
    exact binds_commaSeparated fun f hf => Field.draft_binds (h _ (List.mem_map_of_mem hf))

theorem OrderField.draft_binds (nameOf : String → String) {f : OrderField}
    (h : f.expr.BindsInOrder d numbered) :
    (f.draft d nameOf).Binds (f.expr.boundValues numbered) := by
  obtain ⟨expr, direction⟩ := f
  -- A column binds nothing under any name.
  cases expr with
  | column name => exact binds_orderFieldDraft (binds_text (nameOf name)) direction
  | _ => exact binds_orderFieldDraft h direction

theorem binds_orderFields (nameOf : String → String) {fields : List OrderField}
    (h : ∀ e ∈ fields.map (·.expr), e.BindsInOrder d numbered) :
    (commaSeparated (fields.map (OrderField.draft d nameOf))).Binds
      (fields.flatMap fun f => f.expr.boundValues numbered) :=
  binds_commaSeparated fun _ hf => OrderField.draft_binds nameOf (h _ (List.mem_map_of_mem hf))

/-! ### Conditions -/

/-- The markers of groups bind nothing, so that an item binds its values whether it is one or not.
-/
theorem binds_itemDraft {item : Expression} (h : item.BindsInOrder d numbered) :
    (itemDraft item (item.draft d)).Binds (item.boundValues numbered) := by
  cases item with
  | sql raw =>
    unfold itemDraft
    split
    · exact binds_step _
    · split
      · exact binds_step _
      · exact h
  | _ => exact h

/-- Line breaks and indentation stand between items and bind nothing. -/
theorem binds_itemLines (depth : Nat) (first : Bool) {items : List Expression}
    (h : ∀ e ∈ items, e.BindsInOrder d numbered) :
    (itemLines depth first (items.zip (items.map (Expression.draft d)))).Binds
      (items.flatMap (Expression.boundValues numbered)) := by
  -- Along the items; what stands between two of them depends on whether there is one in front.
  induction items generalizing depth first with
  | nil => exact binds_empty
  | cons item rest ih =>
    rw [List.flatMap_cons]
    have hitem := binds_itemDraft (h item List.mem_cons_self)
    have hrest := fun depth => ih depth false fun e he => h e (List.mem_cons_of_mem item he)
    have hline : (if first then empty else lineBreak).Binds [] :=
      Binds.ite (fun _ => binds_empty) fun _ => binds_step _
    exact (hitem.after (hline.before (binds_step _))).append (hrest _)

theorem binds_sequenceDraft {items : List Expression}
    (h : ∀ e ∈ items, e.BindsInOrder d numbered) :
    (sequenceDraft items (items.map (Expression.draft d))).Binds
      (items.flatMap (Expression.boundValues numbered)) :=
  (binds_itemLines 0 true h).after (binds_ensure _ _)

/-- A clause without conditions is not written; otherwise it binds what its conditions do. -/
theorem binds_conditionsClause (word : String) {items : List Expression}
    (h : ∀ e ∈ items, e.BindsInOrder d numbered) :
    (conditionsClause word items (items.map (Expression.draft d))).Binds
      (items.flatMap (Expression.boundValues numbered)) := by
  apply Binds.ite
  · intro hempty
    obtain rfl : items = [] := List.isEmpty_iff.mp hempty
    exact binds_empty
  · intro _
    have hword := ((binds_step .lineBreak).before (binds_text word)).before (binds_step .lineBreak)
    exact (binds_sequenceDraft h).after hword

/-- A condition binds the values of its left side first, in every form that it may have. -/
theorem Condition.draft_binds {c : Condition} (h : ∀ e ∈ c.children, e.BindsInOrder d numbered) :
    (c.draft d).Binds (c.boundValues numbered) := by
  have hleft := Condition.forall_left h
  have hright := Condition.forall_right h
  obtain ⟨left, op, right⟩ := c
  rw [Condition.draft_eq, Condition.boundValues_eq]
  cases left with
  | none =>
    cases right with
    | none => exact binds_text _
    | some r => exact (binds_enclosed (hright r rfl) r).after (binds_keyword _)
  | some l =>
    have hl := (hleft l rfl).before (binds_step .blank)
    cases right with
    | none => exact hl.append (binds_text _)
    | some r =>
      refine (hl.before (binds_keyword _)).append ?_
      -- Only the right side of a membership test is read as a list.
      apply Binds.ite
      · intro hop
        have hnull : r = .value .null → r.boundValues numbered = [] := by
          rintro rfl
          rfl
        simp only [Option.isSome_some, hop, Bool.and_self, if_true]
        exact binds_memberList (hright r rfl) hnull
      · intro hop
        rw [Bool.not_eq_true] at hop
        simp only [Option.isSome_some, hop, Bool.and_false]
        exact hright r rfl

/-! ### Clauses of a query -/

/-- A join binds the values of its conditions, whose items are written one after the other. -/
theorem Join.draft_binds {j : Join} (h : ∀ e ∈ j.conditions, e.BindsInOrder d numbered) :
    (j.draft d).Binds (j.boundValues numbered) := by
  rw [Join.draft_eq, Join.boundValues_eq]
  refine Binds.after ?_ ((binds_keyword _).before (binds_tableDraft _))
  apply Binds.ite
  · intro hempty
    rw [List.isEmpty_iff.mp hempty]
    exact binds_empty
  · intro _
    have hword := ((binds_ensure (Conditions.balanced j.conditions) .unbalancedGroups).before
      (binds_step .blank)).before (binds_text "ON")
    refine Binds.after ?_ hword
    rw [zip_map_self, List.map_map]
    apply binds_concat
    intro e he
    exact (binds_itemDraft (h e he)).after (binds_step _)

/-- A source binds the values of its joins, in their order. -/
theorem Source.draft_binds {s : Source} (h : ∀ e ∈ s.children, e.BindsInOrder d numbered) :
    (s.draft d).Binds (s.boundValues numbered) := by
  rw [Source.draft_eq, Source.boundValues_eq]
  have htables : (commaSeparated (s.tables.map Table.draft)).Binds [] :=
    binds_commaSeparated_nil fun t _ => binds_tableDraft t
  have hword : (keyword "FROM").Binds [] := binds_keyword _
  refine Binds.after ?_ (htables.after (((binds_ensure _ _).before (binds_step _)).before hword))
  rw [List.map_map]
  refine binds_concat fun j hj => Binds.after ?_ (binds_step _)
  exact Join.draft_binds (Source.forall_conditions h hj)

/-! ### Pages -/

/-- What the clauses of a query bind: the field list, the clauses from `FROM` to `HAVING`, and the
order. -/
structure QueryParts.Binds (p : QueryParts) (fields body order : List Value) : Prop where
  /-- What the field list binds. -/
  fields : p.fields.Binds fields
  /-- What the clauses from `FROM` to `HAVING` bind. -/
  body : p.body.Binds body
  /-- What the order binds. -/
  order : (commaSeparated p.order).Binds order

namespace QueryParts.Binds

variable {p : QueryParts} {fields body order : List Value}

/-- Where something stands behind the fields, its values stand between theirs and those of the
source. -/
theorem projection (hp : p.Binds fields body order) {extra : Draft} {vs : List Value}
    (hx : extra.Binds vs) : (p.projection extra).Binds (fields ++ vs ++ body) := by
  have hdistinct : (if p.distinct then blank ++ text "DISTINCT" else empty).Binds [] :=
    Binds.ite (fun _ => (binds_step _).before (binds_text _)) fun _ => binds_empty
  have hselect := ((binds_text "SELECT").before hdistinct).before (binds_step .blank)
  exact ((hp.fields.after hselect).append hx).append hp.body

/-- The numbers of a page are written and not bound. -/
theorem limitClause (d : Dialect) (p : QueryParts) : (p.limitClause d).Binds [] := by
  have hsome (c : Prop) [Decidable c] {x : Draft} (hx : x.Binds []) :
      (if c then x else empty).Binds [] := Binds.ite (fun _ => hx) fun _ => binds_empty
  unfold QueryParts.limitClause
  refine (binds_step _).append ?_
  split
  · exact binds_text _
  · exact (hsome _ (binds_text _)).before (hsome _ ((binds_step _).before (binds_text _)))
  · exact (hsome _ (binds_text _)).before (hsome _ ((binds_step _).before (binds_text _)))

/-- Without numbered rows the values stand in the order of the clauses. -/
theorem plain (hp : p.Binds fields body order) (d : Dialect) (limited : Bool) :
    (p.plain d limited).Binds (fields ++ body ++ order) := by
  have hrows := hp.projection binds_empty
  rw [List.append_nil] at hrows
  refine (hrows.append (binds_listClause hp.order "ORDER BY")).before ?_
  exact Binds.ite (fun _ => limitClause d p) fun _ => binds_empty

/-- The numbers of the rows are ordered by what the query is ordered by. -/
theorem rowNumber (hp : p.Binds fields body order) : p.rowNumber.Binds order := by
  have hover := (binds_step .comma).before (binds_keyword "ROW_NUMBER() OVER")
  refine (Binds.after (Binds.parenthesized ?_) hover).before (binds_text _)
  refine Binds.after (Binds.ite (fun hempty => ?_) fun _ => hp.order) (binds_keyword _)
  -- Without an order any text will do, since there is nothing to bind.
  obtain rfl : [] = order := hp.order [] (by rw [List.isEmpty_iff.mp hempty]; rfl)
  exact binds_text _

/-- The order of a page is bound where the rows are numbered: among the fields, or in front of the
subquery with the different rows. -/
theorem numberedRows (hp : p.Binds fields body order) :
    p.numberedRows.Binds (if p.distinct then order ++ fields ++ body
      else fields ++ order ++ body) := by
  unfold QueryParts.numberedRows
  -- Different rows are selected inside, and numbered outside of that.
  cases p.distinct with
  | false => exact hp.projection hp.rowNumber
  | true =>
    have hrows := hp.projection binds_empty
    rw [List.append_nil] at hrows
    have hnumber := hp.rowNumber.after (binds_text "SELECT __distinct.*")
    have hfrom := (hnumber.before (binds_step .lineBreak)).before (binds_keyword "FROM")
    show Draft.Binds _ (order ++ fields ++ body)
    rw [List.append_assoc]
    exact (hfrom.append hrows.parenthesized).before (binds_text _)

theorem windowed (hp : p.Binds fields body order) (topLevel : Bool) :
    (p.windowed topLevel).Binds (if p.distinct then order ++ fields ++ body
      else fields ++ order ++ body) := by
  refine Binds.ite (fun _ => binds_fault _ _) fun _ => ?_
  have hselect := ((binds_keyword "SELECT").before (binds_keyword p.columns)).before
    (binds_keyword "FROM")
  have hpage := (hp.numberedRows.parenthesized.after hselect).before (binds_text " AS __paged")
  refine ((hpage.before (binds_step .lineBreak)).before (binds_text p.rowBounds)).before ?_
  exact Binds.ite (fun _ => (binds_step _).before (binds_text _)) fun _ => binds_empty

end QueryParts.Binds

/-! ### Queries -/

/-- Whether a dialect chooses pages by row number. -/
def Dialect.numbersRows (d : Dialect) : Bool := d.limitStyle == .rowNumber

/-- The values of a query fall into those of its fields, of its rows and of its order. -/
theorem Query.parts_binds {q : Query} (h : ∀ e ∈ q.children, e.BindsInOrder d numbered) :
    (q.parts d).Binds (q.selectValues numbered) (q.rowValues numbered)
      (q.orderByValues numbered) := by
  have hq := Query.throughout h
  -- The fields, the rows and the order.
  refine ⟨?_, ?_, ?_⟩
  · exact binds_selectDraft hq.fields
  · rw [rowValues, List.append_assoc]
    refine (Draft.Binds.append ?_ ?_).append ?_
    · unfold sourceClause
      cases hs : q.source with
      | none => exact binds_empty
      | some s => exact Source.draft_binds (hq.source s hs)
    · exact binds_conditionsClause _ hq.filter
    · unfold groupClause
      cases hempty : (q.groupBy.getD []).isEmpty with
      | true =>
        rw [List.isEmpty_iff.mp hempty]
        exact binds_empty
      | false =>
        have hgroup := binds_expressions (q.groupBy.getD []) hq.groupBy
        exact (binds_listClause hgroup "GROUP BY").append (binds_conditionsClause _ hq.having)
  · exact binds_orderFields _ hq.orderBy

/-- A dialect that numbers rows does so for queries with a page alone. -/
theorem Query.draft_binds (topLevel : Bool) {q : Query}
    (h : ∀ e ∈ q.children, e.BindsInOrder d d.numbersRows) :
    (q.draft d topLevel).Binds (q.boundValues d.numbersRows) := by
  have hwindowed : q.windowed d = (d.numbersRows && isLimited q.offset q.count) := Bool.and_comm ..
  have hparts := Query.parts_binds h
  rw [Query.draft_eq, Query.boundValues_eq, hwindowed]
  refine Draft.Binds.before ?_ (Binds.ite (fun _ => binds_step _) fun _ => binds_empty)
  cases d.numbersRows && isLimited q.offset q.count with
  | true => exact hparts.windowed topLevel
  | false => exact hparts.plain d _

/-- The draft of an expression binds the values of the expression in reading order. -/
theorem Expression.draft_binds (d : Dialect) (e : Expression) :
    (e.draft d).Binds (e.boundValues d.numbersRows) := by
  induction e using Expression.induction with
  | step e ih =>
    -- What may not be visited binds nothing, since it is refused.
    cases e with
    | query q => exact (Query.draft_binds false ih).parenthesized
    | condition c => exact Condition.draft_binds ih
    | value v => exact binds_valueDraft v
    | table t => exact binds_tableDraft t
    | column name | sql raw | operator op | null => exact binds_text _
    | zero => exact binds_empty
    | conditions items =>
      rw [draft_conditions, boundValues, itemValues_eq_flatMap]
      exact binds_sequenceDraft ih
    | aggregate function argument =>
      exact (ih argument List.mem_cons_self).parenthesized.after (binds_text _)
    | select fields =>
      rw [draft_select, boundValues, fieldValues_eq_flatMap]
      exact binds_selectDraft ih
    | source s => exact Source.draft_binds ih
    | join j => exact Join.draft_binds ih
    | filter items | having items =>
      simp only [draft_filter, draft_having, boundValues, itemValues_eq_flatMap]
      exact binds_conditionsClause _ ih
    | groupBy fields =>
      rw [draft_groupBy, boundValues, itemValues_eq_flatMap]
      exact binds_listClause (binds_expressions fields ih) _
    | orderBy fields =>
      rw [draft_orderBy, boundValues, orderValues_eq_flatMap]
      exact binds_listClause (binds_orderFields id ih) _
    | field f =>
      obtain ⟨expr, label⟩ := f
      exact Field.draft_binds (ih expr List.mem_cons_self)
    | _ => exact binds_fault _ _

/-! ### Statements that change a table -/

/-- The clauses that updates and deletions share with queries. -/
theorem filterDraft_binds (d : Dialect) (filter : Option (List Expression)) :
    (filterDraft d filter).Binds
      ((filter.getD []).flatMap (Expression.boundValues d.numbersRows)) := by
  rw [filterDraft_eq]
  exact binds_conditionsClause _ fun e _ => e.draft_binds d

theorem orderDraft_binds (d : Dialect) (order : Option (List OrderField)) :
    (orderDraft d order).Binds
      ((order.getD []).flatMap fun f => f.expr.boundValues d.numbersRows) := by
  rw [orderDraft_eq]
  exact binds_listClause (binds_orderFields id fun e _ => e.draft_binds d) _

theorem rowLimit_binds (d : Dialect) (kind : NodeKind) (count : UInt64) :
    (rowLimit d kind count).Binds [] := by
  refine Binds.ite (fun _ => binds_empty) fun _ => ?_
  exact Binds.ite (fun _ => binds_fault _ _) fun _ => (binds_step _).before (binds_text _)

theorem ensureNamed_binds (t : Table) : (ensureNamed t).Binds [] := binds_ensure _ _

/-- An insertion binds the values of its assignments, whose columns stand in front of all of them.
-/
theorem Insert.draft_binds (d : Dialect) (i : Insert) :
    (i.draft d).Binds (i.boundValues d.numbersRows) := by
  rw [Insert.boundValues_eq]
  have hchecks := (ensureNamed_binds i.table).before
    (binds_ensure (!i.assignments.isEmpty) (.insertWithoutValues i.table.name))
  have hinto := ((hchecks.before (binds_text "INSERT INTO ")).before
    (binds_text i.table.name)).before (binds_step .blank)
  have hcolumns : (commaSeparated (i.assignments.map fun a => text a.column)).Binds [] :=
    binds_commaSeparated_nil fun a _ => binds_text a.column
  have hhead := ((hinto.before hcolumns.parenthesized).before (binds_step .lineBreak)).before
    (binds_keyword "VALUES")
  have hvalues := binds_commaSeparated (l := i.assignments) fun a _ => a.value.draft_binds d
  exact (hvalues.parenthesized.after hhead).before (binds_step _)

/-- An update binds the values of its assignments, those of its filter and those of its order. -/
theorem Update.draft_binds (d : Dialect) (u : Update) :
    (u.draft d).Binds (u.boundValues d.numbersRows) := by
  rw [Update.boundValues_eq]
  -- From the left: each part is put in front of those behind it.
  have hchecks := (ensureNamed_binds u.table).before
    (binds_ensure (!u.assignments.isEmpty) (.updateWithoutColumns u.table.name))
  have hupdate := (hchecks.before (binds_text "UPDATE ")).before (binds_text u.table.name)
  have hhead := (hupdate.before (binds_step .lineBreak)).before (binds_keyword "SET")
  have hvalues := binds_commaSeparated (l := u.assignments) fun a _ =>
    (a.value.draft_binds d).after ((binds_text a.column).before (binds_text " = "))
  have hclauses := ((hvalues.after hhead).append (filterDraft_binds d u.filter)).append
    (orderDraft_binds d u.orderBy)
  exact (hclauses.before (rowLimit_binds _ _ _)).before (binds_step _)

theorem Delete.draft_binds (d : Dialect) (s : Delete) :
    (s.draft d).Binds (s.boundValues d.numbersRows) := by
  rw [Delete.boundValues_eq]
  have hhead := ((ensureNamed_binds s.table).before (binds_text "DELETE FROM ")).before
    (binds_text s.table.name)
  have hclauses := ((filterDraft_binds d s.filter).after hhead).append
    (orderDraft_binds d s.orderBy)
  exact (hclauses.before (rowLimit_binds _ _ _)).before (binds_step _)

/-! ### Compilers -/

/-- A statement ends with a terminator, which binds nothing. -/
theorem Expression.statementDraft_binds (d : Dialect) (e : Expression) :
    (e.statementDraft d).Binds (e.boundValues d.numbersRows) := by
  cases e with
  | query q => exact Query.draft_binds true fun e _ => e.draft_binds d
  | insert i => exact i.draft_binds d
  | update u => exact u.draft_binds d
  | delete s => exact s.draft_binds d
  | _ => exact binds_fault _ _

/-- **The arguments are the values of the tree in reading order.** Whenever a query or a statement
that changes a table compiles, its arguments are the values that it binds, clause after clause; only
in a numbered page does the order come early, and then too the same values are bound. -/
theorem compile_arguments {c : Compiler} {e : Expression} {r : Compiled}
    (he : e.isStatement = true) (hr : c.compile e = .ok r) :
    r.arguments = e.boundValues c.dialect.numbersRows ∧
      r.arguments.Perm (e.boundValues false) := by
  rw [compile_of_isStatement he] at hr
  have harguments := (e.statementDraft_binds c.dialect).arguments hr
  exact ⟨harguments, harguments ▸ e.boundValues_perm _⟩

/-- In a numbered page of different rows the value in the order is bound before the field list, and
the elements of the list in the filter come last without the null. -/
theorem compile_arguments_page :
    ∃ r, Compiler.compile ⟨{ Dialect.ansi with limitStyle := .rowNumber }, .compact⟩
        (.query {
          distinct := true
          select := some [{ expr := .value (.int 1), label := some "one" }]
          source := some { tables := [{ name := "t" }] }
          filter := some [.condition {
            left := some (.column "a")
            op := .isIn
            right := some (.value (.list [.int 2, .null, .int 3])) }]
          orderBy := some [{ expr := .aggregate .max (.value (.int 4)) }]
          count := 5 }) = .ok r ∧
      r.arguments = [.int 4, .int 1, .int 2, .int 3] :=
  Exists.imp (fun _ hr => ⟨hr, (compile_arguments rfl hr).1⟩) ⟨_, rfl⟩

end SqlTree
