import Mathlib.Data.List.Perm.Basic
import SqlTree.Proofs.Codec.Value
import SqlTree.Proofs.Syntax.Children

/-!
# Statement trees read back as themselves

Main statement, `Expression.reads`: an expression whose floats are all finite is read back from its
document, the members of objects in any order.

There is one lemma for each record, under the assumption that the expressions in it are read back;
the induction over the tree is the one of `Expression.Finite`.
-/

namespace SqlTree

open Json (Reads Reorders)

/-! ### Finite floats -/

/-- The values that an expression holds itself. -/
def Expression.ownValues : Expression → List Value
  | .value v => [v]
  | .parameter p => [p.value]
  | .text t => t.parameters.entries.map (·.2.value)
  | .procedure p => p.parameters.map (·.value)
  | _ => []

/-- All floats in an expression are finite. -/
inductive Expression.Finite : Expression → Prop
  | intro {e : Expression} (values : ∀ v ∈ e.ownValues, v.Finite)
    (children : ∀ c ∈ e.children, c.Finite) : e.Finite

/-! ### Lists of documents -/

/-- Lists are written one by one; the definitions recurse on the lists themselves, so that the
recursion over the tree is structural. -/
theorem expressionsToJson_eq_map (es : List Expression) :
    expressionsToJson es = es.map Expression.toJson := by
  induction es with
  | nil => rfl
  | cons e es ih => rw [expressionsToJson, ih, List.map_cons]

theorem fieldsToJson_eq_map (fs : List Field) : fieldsToJson fs = fs.map Field.toJson := by
  induction fs with
  | nil => rfl
  | cons f fs ih => rw [fieldsToJson, ih, List.map_cons]

theorem joinsToJson_eq_map (js : List Join) : joinsToJson js = js.map Join.toJson := by
  induction js with
  | nil => rfl
  | cons j js ih => rw [joinsToJson, ih, List.map_cons]

theorem orderToJson_eq_map (fs : List OrderField) : orderToJson fs = fs.map OrderField.toJson := by
  induction fs with
  | nil => rfl
  | cons f fs ih => rw [orderToJson, ih, List.map_cons]

theorem assignmentsToJson_eq_map (l : List Assignment) :
    assignmentsToJson l = l.map Assignment.toJson := by
  induction l with
  | nil => rfl
  | cons a l ih => rw [assignmentsToJson, ih, List.map_cons]

section Reading

variable {c : Json → Json}

/-! ### Records of names and values -/

/-- The records of a tree are read back field by field, whatever order their members stand in. -/
theorem Table.reads (hc : Reorders c) (t : Table) : Reads c Table.nested? t.toJson t := by
  refine hc.record (by simp) fun n j _ hfields => ?_
  simp only [List.map_cons, List.map_nil] at hfields
  simp [Table.nested?, Table.ofJson?, hfields, hc.read_string, hc.read_alias]

/-- A parameter holds a value, which is read back if its floats are finite. -/
theorem Parameter.reads (hc : Reorders c) {p : Parameter} (hp : p.value.Finite) :
    Reads c Parameter.ofJson? p.toJson p := by
  refine hc.record (by simp) fun n j hdepth hfields => ?_
  simp only [List.map_cons, List.map_nil, List.forall_mem_cons] at hdepth hfields
  simp [Parameter.ofJson?, hfields, hc.read_string, hc.read_word (Direction.ofName?_name _),
    Value.reads hc hp n hdepth.2.2.1]

/-- The parameters of a procedure are a list, in the order of their declaration. -/
theorem Procedure.reads (hc : Reorders c) {p : Procedure}
    (hp : ∀ x ∈ p.parameters, x.value.Finite) : Reads c Procedure.ofJson? p.toJson p := by
  have hlist : Reads c (Json.list? · Parameter.ofJson?) (.array (p.parameters.map Parameter.toJson))
      p.parameters := hc.list (fun _ _ => rfl) fun x hx => Parameter.reads hc (hp x hx)
  refine hc.record (by simp) fun n j hdepth hfields => ?_
  simp only [List.map_cons, List.map_nil, List.forall_mem_cons] at hdepth hfields
  have hparameters := hlist n hdepth.2.1
  simp [Procedure.ofJson?, hfields, hc.read_string, hparameters]

/-- Parameters under their names are read back in whatever order they stand. -/
theorem Parameter.reads_dictionary (hc : Reorders c) {d : Dictionary Parameter}
    (hd : ∀ e ∈ d.entries, e.2.value.Finite) :
    Reads c Parameter.dictionary? (.object (d.entries.map fun e => (e.1, e.2.toJson))) d := by
  intro levels hlevels
  have hkeys : ((d.entries.map fun e => (e.1, e.2.toJson)).map (·.1)).Nodup := by
    rw [List.map_map]
    exact d.nodup_keys
  obtain ⟨members, hobject, hmembers⟩ := hc.object _ hkeys
  rw [List.map_map] at hmembers
  -- The members are the image of the entries in some order.
  obtain ⟨entries, rfl, hperm⟩ :=
    (congrFun₂ (List.eq_map_comp_perm _) members d.entries).mpr hmembers
  rw [hobject] at hlevels ⊢
  obtain ⟨n, rfl, hdepth⟩ := Json.exists_levels_of_object hlevels
  show Option.bind (List.mapM _ (entries.map _)) _ = _
  rw [mapM_map_eq_some]
  · exact congrArg some (Dictionary.ofList_of_perm hperm)
  · intro e he
    have hread := Parameter.reads hc (hd e (hperm.mem_iff.mp he)) n
      (hdepth _ (List.mem_map_of_mem he))
    show (Parameter.ofJson? n (c e.2.toJson)).map _ = some e
    rw [hread, Option.map_some]

/-- The parameters of a template are a dictionary, which has no order. -/
theorem Template.reads (hc : Reorders c) {t : Template}
    (ht : ∀ e ∈ t.parameters.entries, e.2.value.Finite) :
    Reads c Template.ofJson? t.toJson t := by
  refine hc.record (by simp) fun n j hdepth hfields => ?_
  simp only [List.map_cons, List.map_nil, List.forall_mem_cons] at hdepth hfields
  have hparameters := Parameter.reads_dictionary hc ht n hdepth.2.1
  simp [Template.ofJson?, hfields, hc.read_string, hparameters]

/-! ### Records with expressions -/

/-- An expression that is read back. -/
def Expression.Reads (c : Json → Json) (e : Expression) : Prop :=
  Json.Reads c Expression.ofJson? e.toJson e

/-- A record with an expression is read back if the expression is: the induction over trees gives
that of every part. -/
theorem Field.reads (hc : Reorders c) {f : Field} (h : f.expr.Reads c) :
    Json.Reads c Field.ofJson? f.toJson f := by
  obtain ⟨expr, label⟩ := f
  rw [Field.toJson]
  refine hc.record (by simp) fun n j hdepth hfields => ?_
  simp only [List.map_cons, List.map_nil, List.forall_mem_cons] at hdepth hfields
  simp [Field.ofJson?, hfields, h n hdepth.1, hc.read_alias]

theorem OrderField.reads (hc : Reorders c) {f : OrderField} (h : f.expr.Reads c) :
    Json.Reads c OrderField.ofJson? f.toJson f := by
  obtain ⟨expr, direction⟩ := f
  rw [OrderField.toJson]
  refine hc.record (by simp) fun n j hdepth hfields => ?_
  simp only [List.map_cons, List.map_nil, List.forall_mem_cons] at hdepth hfields
  simp [OrderField.ofJson?, hfields, h n hdepth.1, hc.read_word (SortOrder.ofName?_name _)]

theorem Assignment.reads (hc : Reorders c) {a : Assignment} (h : a.value.Reads c) :
    Json.Reads c Assignment.ofJson? a.toJson a := by
  obtain ⟨column, value⟩ := a
  rw [Assignment.toJson]
  refine hc.record (by simp) fun n j hdepth hfields => ?_
  simp only [List.map_cons, List.map_nil, List.forall_mem_cons] at hdepth hfields
  simp [Assignment.ofJson?, hfields, hc.read_string, h n hdepth.2.1]

theorem reads_expressions (hc : Reorders c) {es : List Expression} (h : ∀ e ∈ es, e.Reads c) :
    Json.Reads c expressions? (.array (expressionsToJson es)) es := by
  rw [expressionsToJson_eq_map]
  exact hc.list (fun _ _ => rfl) h

theorem reads_assignments (hc : Reorders c) {l : List Assignment} (h : ∀ a ∈ l, a.value.Reads c) :
    Json.Reads c assignments? (.array (assignmentsToJson l)) l := by
  rw [assignmentsToJson_eq_map]
  exact hc.list (fun _ _ => rfl) fun a ha => Assignment.reads hc (h a ha)

/-- Lists of parts stand in records of one member. -/
theorem reads_fieldsRecord (hc : Reorders c) {fs : List Field} (h : ∀ f ∈ fs, f.expr.Reads c) :
    Json.Reads c fieldsRecord? (Json.listRecord "fields" (fieldsToJson fs)) fs := by
  have hlist : Json.Reads c fieldList? (.array (fieldsToJson fs)) fs := by
    rw [fieldsToJson_eq_map]
    exact hc.list (fun _ _ => rfl) fun f hf => Field.reads hc (h f hf)
  exact hc.record_of_one (fun n j j' hj => by rw [fieldsRecord?, hj]; rfl) hlist

theorem reads_orderRecord (hc : Reorders c) {fs : List OrderField} (h : ∀ f ∈ fs, f.expr.Reads c) :
    Json.Reads c orderRecord? (Json.listRecord "fields" (orderToJson fs)) fs := by
  have hlist : Json.Reads c orderFields? (.array (orderToJson fs)) fs := by
    rw [orderToJson_eq_map]
    exact hc.list (fun _ _ => rfl) fun f hf => OrderField.reads hc (h f hf)
  exact hc.record_of_one (fun n j j' hj => by rw [orderRecord?, hj]; rfl) hlist

theorem reads_expressionsRecord (hc : Reorders c) {es : List Expression} (h : ∀ e ∈ es, e.Reads c) :
    Json.Reads c expressionsRecord? (Json.listRecord "fields" (expressionsToJson es)) es :=
  hc.record_of_one (fun n j j' hj => by rw [expressionsRecord?, hj]; rfl) (reads_expressions hc h)

theorem Conditions.reads (hc : Reorders c) {es : List Expression} (h : ∀ e ∈ es, e.Reads c) :
    Json.Reads c Conditions.ofJson? (Json.listRecord "items" (expressionsToJson es)) es :=
  hc.record_of_one (fun n j j' hj => by rw [Conditions.ofJson?, hj]; rfl) (reads_expressions hc h)

/-- The conditions of a clause stand in two records, one inside the other. -/
theorem Conditions.reads_clause (hc : Reorders c) {es : List Expression} (h : ∀ e ∈ es, e.Reads c) :
    Json.Reads c Conditions.clause? (Json.conditionsRecord (expressionsToJson es)) es :=
  hc.record_of_one (fun n j j' hj => by rw [Conditions.clause?, hj]; rfl) (Conditions.reads hc h)

/-- A join reads a kind, a table and its conditions. -/
theorem Join.reads (hc : Reorders c) {x : Join} (h : ∀ e ∈ x.conditions, e.Reads c) :
    Json.Reads c Join.ofJson? x.toJson x := by
  obtain ⟨kind, table, conditions⟩ := x
  rw [Join.toJson]
  refine hc.record (by simp) fun n j hdepth hfields => ?_
  simp only [List.map_cons, List.map_nil, List.forall_mem_cons] at hdepth hfields
  obtain ⟨-, htable, hconditions, -⟩ := hdepth
  simp [Join.ofJson?, hfields, hc.read_word (JoinKind.ofName?_name _), table.reads hc n htable,
    Conditions.reads hc h n hconditions]

/-- The joins of a source are read back if all conditions of all of them are. -/
theorem Source.reads (hc : Reorders c) {s : Source} (h : ∀ e ∈ s.children, e.Reads c) :
    Json.Reads c Source.ofJson? s.toJson s := by
  obtain ⟨tables, joins⟩ := s
  have htables : Json.Reads c (Json.list? · Table.nested?) (.array (tables.map Table.toJson))
      tables := hc.list (fun _ _ => rfl) fun t _ => t.reads hc
  have hjoins : Json.Reads c joins? (.array (joinsToJson joins)) joins := by
    rw [joinsToJson_eq_map]
    exact hc.list (fun _ _ => rfl) fun x hx => Join.reads hc (Source.forall_conditions h hx)
  -- The levels of nesting that a list may have are those that the record leaves over.
  rw [Source.toJson]
  refine hc.record (by simp) fun n j hdepth hfields => ?_
  simp only [List.map_cons, List.map_nil, List.forall_mem_cons] at hdepth hfields
  have htables := htables n hdepth.1
  simp [Source.ofJson?, hfields, htables, hjoins n hdepth.2.1]

/-! ### Optional clauses -/

/-- No expression is written as null, which stands for an absent one. -/
theorem Expression.toJson_ne_null (hc : Reorders c) (e : Expression) : c e.toJson ≠ .null := by
  cases e with
  | null | zero =>
    rw [toJson, hc.string]
    exact Json.noConfusion
  | _ => exact hc.object_ne_null (List.pairwise_singleton _ _)

/-- Parts that may be absent are null then; a part that is there is not written as null, and so the
two are told apart. -/
theorem nullable_side (hc : Reorders c) {o : Option Expression} (h : ∀ e ∈ o, e.Reads c) (n : Nat)
    (hn : (c (sideToJson o)).depth ≤ n) :
    Json.nullable? (Expression.ofJson? n) (c (sideToJson o)) = some o :=
  hc.nullable rfl (fun e _ => e.toJson_ne_null hc) h n hn

theorem nullable_source (hc : Reorders c) {o : Option Source}
    (h : ∀ s ∈ o, ∀ e ∈ s.children, e.Reads c) (n : Nat) (hn : (c (sourceToJson o)).depth ≤ n) :
    Json.nullable? (Source.ofJson? n) (c (sourceToJson o)) = some o := by
  refine hc.nullable rfl (fun s _ => ?_) (fun s hs => Source.reads hc (h s hs)) n hn
  obtain ⟨tables, joins⟩ := s
  rw [sourceToJson, Source.toJson]
  exact hc.object_ne_null (by simp)

/-- An absent selection is not the empty one. -/
theorem nullable_select (hc : Reorders c) {o : Option (List Field)}
    (h : ∀ e ∈ (o.getD []).map (·.expr), e.Reads c) (n : Nat)
    (hn : (c (selectToJson o)).depth ≤ n) :
    Json.nullable? (fieldsRecord? n) (c (selectToJson o)) = some o :=
  hc.nullable_list rfl (fun _ => rfl) (reads_fieldsRecord hc (List.forall_mem_map.mp h)) n hn

/-- An absent filter is not the empty one; `HAVING` is read in the same way. -/
theorem nullable_filter (hc : Reorders c) {o : Option (List Expression)}
    (h : ∀ e ∈ o.getD [], e.Reads c) (n : Nat) (hn : (c (filterToJson o)).depth ≤ n) :
    Json.nullable? (Conditions.clause? n) (c (filterToJson o)) = some o :=
  hc.nullable_list rfl (fun _ => rfl) (Conditions.reads_clause hc h) n hn

theorem nullable_groupBy (hc : Reorders c) {o : Option (List Expression)}
    (h : ∀ e ∈ o.getD [], e.Reads c) (n : Nat) (hn : (c (groupByToJson o)).depth ≤ n) :
    Json.nullable? (expressionsRecord? n) (c (groupByToJson o)) = some o :=
  hc.nullable_list rfl (fun _ => rfl) (reads_expressionsRecord hc h) n hn

theorem nullable_orderBy (hc : Reorders c) {o : Option (List OrderField)}
    (h : ∀ e ∈ (o.getD []).map (·.expr), e.Reads c) (n : Nat)
    (hn : (c (orderByToJson o)).depth ≤ n) :
    Json.nullable? (orderRecord? n) (c (orderByToJson o)) = some o :=
  hc.nullable_list rfl (fun _ => rfl) (reads_orderRecord hc (List.forall_mem_map.mp h)) n hn

/-! ### Statements -/

/-- Both sides of a condition may be absent. -/
theorem Condition.reads (hc : Reorders c) {x : Condition} (h : ∀ e ∈ x.children, e.Reads c) :
    Json.Reads c Condition.ofJson? x.toJson x := by
  have hleft := nullable_side hc (Condition.forall_left h)
  have hright := nullable_side hc (Condition.forall_right h)
  obtain ⟨left, op, right⟩ := x
  rw [Condition.toJson]
  refine hc.record (by simp) fun n j hdepth hfields => ?_
  simp only [List.map_cons, List.map_nil, List.forall_mem_cons] at hdepth hfields
  simp [Condition.ofJson?, hfields, hleft n hdepth.1, hc.read_word (Operator.ofName?_name _),
    hright n hdepth.2.2.1]

/-- All clauses of a query may be absent. -/
theorem Query.reads (hc : Reorders c) {q : Query} (h : ∀ e ∈ q.children, e.Reads c) :
    Json.Reads c Query.ofJson? q.toJson q := by
  -- What holds of all parts of a query is handed to its clauses.
  have h := Query.throughout h
  have hselect := nullable_select hc h.fields
  have hsource := nullable_source hc h.source
  have hfilter := nullable_filter hc h.filter
  have hgroupBy := nullable_groupBy hc h.groupBy
  have hhaving := nullable_filter hc h.having
  have horderBy := nullable_orderBy hc h.orderBy
  obtain ⟨distinct, select, source, filter, groupBy, having, orderBy, offset, count⟩ := q
  rw [Query.toJson]
  refine hc.record (by simp) fun n j hdepth hfields => ?_
  simp only [List.map_cons, List.map_nil, List.forall_mem_cons] at hdepth hfields
  obtain ⟨-, dselect, dsource, dfilter, dgroupBy, dhaving, dorderBy, -⟩ := hdepth
  simp [Query.ofJson?, hfields, hc.read_bool, hselect n dselect, hsource n dsource,
    hfilter n dfilter, hgroupBy n dgroupBy, hhaving n dhaving, horderBy n dorderBy, hc.read_uint64]

theorem Insert.reads (hc : Reorders c) {i : Insert} (h : ∀ e ∈ i.children, e.Reads c) :
    Json.Reads c Insert.ofJson? i.toJson i := by
  obtain ⟨table, assignments⟩ := i
  rw [Insert.toJson]
  refine hc.record (by simp) fun n j hdepth hfields => ?_
  simp only [List.map_cons, List.map_nil, List.forall_mem_cons] at hdepth hfields
  simp [Insert.ofJson?, hfields, table.reads hc n hdepth.1,
    reads_assignments hc (List.forall_mem_map.mp h) n hdepth.2.1]

/-- The expressions of an update are its assigned values, its filter and its order. -/
theorem Update.reads (hc : Reorders c) {u : Update} (h : ∀ e ∈ u.children, e.Reads c) :
    Json.Reads c Update.ofJson? u.toJson u := by
  rw [Update.children, List.forall_mem_append, List.forall_mem_append] at h
  obtain ⟨⟨hassignments, hfilter⟩, horderBy⟩ := h
  have hassignments := reads_assignments hc (List.forall_mem_map.mp hassignments)
  have hfilter := nullable_filter hc hfilter
  have horderBy := nullable_orderBy hc horderBy
  -- The record is taken apart only now, so that the facts above speak of its fields.
  obtain ⟨table, assignments, filter, orderBy, count⟩ := u
  rw [Update.toJson]
  refine hc.record (by simp) fun n j hdepth hfields => ?_
  simp only [List.map_cons, List.map_nil, List.forall_mem_cons] at hdepth hfields
  obtain ⟨dtable, dassignments, dfilter, dorderBy, -⟩ := hdepth
  simp [Update.ofJson?, hfields, table.reads hc n dtable, hassignments n dassignments,
    hfilter n dfilter, horderBy n dorderBy, hc.read_uint64]

theorem Delete.reads (hc : Reorders c) {s : Delete} (h : ∀ e ∈ s.children, e.Reads c) :
    Json.Reads c Delete.ofJson? s.toJson s := by
  rw [Delete.children, List.forall_mem_append] at h
  have hfilter := nullable_filter hc h.1
  have horderBy := nullable_orderBy hc h.2
  obtain ⟨table, filter, orderBy, count⟩ := s
  rw [Delete.toJson]
  refine hc.record (by simp) fun n j hdepth hfields => ?_
  simp only [List.map_cons, List.map_nil, List.forall_mem_cons] at hdepth hfields
  obtain ⟨dtable, dfilter, dorderBy, -⟩ := hdepth
  simp [Delete.ofJson?, hfields, table.reads hc n dtable, hfilter n dfilter, horderBy n dorderBy,
    hc.read_uint64]

/-- An aggregate is written as a record of its function and its argument. -/
theorem Expression.reads_aggregate (hc : Reorders c) (function : AggregateFunction)
    {argument : Expression} (h : argument.Reads c) :
    Json.Reads c Aggregate.ofJson? (.object [("func", .string function.name),
      ("expr", argument.toJson)]) (.aggregate function argument) := by
  refine hc.record (by simp) fun n j hdepth hfields => ?_
  simp only [List.map_cons, List.map_nil, List.forall_mem_cons] at hdepth hfields
  simp [Aggregate.ofJson?, hfields, hc.read_word (AggregateFunction.ofName?_name _),
    h n hdepth.2.1]

/-- **An expression with finite floats is read back from its document.** -/
theorem Expression.reads (hc : Reorders c) {e : Expression} (he : e.Finite) : e.Reads c := by
  induction he with
  | @intro e values children ih =>
    -- What is left of the children is that they are read back.
    clear children
    unfold Expression.Reads
    cases e with
    | query q => exact hc.alternative_map (fun _ _ => rfl) (q.reads hc ih)
    | insert i => exact hc.alternative_map (fun _ _ => rfl) (i.reads hc ih)
    | update u => exact hc.alternative_map (fun _ _ => rfl) (u.reads hc ih)
    | delete s => exact hc.alternative_map (fun _ _ => rfl) (s.reads hc ih)
    | text t =>
      exact hc.alternative_map (fun _ _ => rfl) (t.reads hc (List.forall_mem_map.mp values))
    | procedure p =>
      exact hc.alternative_map (fun _ _ => rfl) (p.reads hc (List.forall_mem_map.mp values))
    | table t => exact hc.alternative_map (fun _ _ => rfl) (t.reads hc)
    | column name => exact hc.alternative_map (fun _ _ => rfl) fun _ _ => hc.read_string name
    | value v =>
      exact hc.alternative_map (fun _ _ => rfl) (v.reads hc (values v List.mem_cons_self))
    | parameter p =>
      exact hc.alternative_map (fun _ _ => rfl) (p.reads hc (values _ List.mem_cons_self))
    | output name => exact hc.alternative_map (fun _ _ => rfl) fun _ _ => hc.read_string name
    | condition x => exact hc.alternative_map (fun _ _ => rfl) (x.reads hc ih)
    | conditions items => exact hc.alternative_map (fun _ _ => rfl) (Conditions.reads hc ih)
    | aggregate function argument =>
      have hcontent := reads_aggregate hc function (ih argument List.mem_cons_self)
      exact hc.alternative fun n hn => hcontent n hn
    | select fields =>
      exact hc.alternative_map (fun _ _ => rfl) (reads_fieldsRecord hc (List.forall_mem_map.mp ih))
    | source s => exact hc.alternative_map (fun _ _ => rfl) (s.reads hc ih)
    | join x => exact hc.alternative_map (fun _ _ => rfl) (x.reads hc ih)
    | filter items => exact hc.alternative_map (fun _ _ => rfl) (Conditions.reads_clause hc ih)
    | groupBy items => exact hc.alternative_map (fun _ _ => rfl) (reads_expressionsRecord hc ih)
    | having items => exact hc.alternative_map (fun _ _ => rfl) (Conditions.reads_clause hc ih)
    | orderBy fields =>
      exact hc.alternative_map (fun _ _ => rfl) (reads_orderRecord hc (List.forall_mem_map.mp ih))
    | field f => exact hc.alternative_map (fun _ _ => rfl) (f.reads hc (ih _ List.mem_cons_self))
    | sql raw => exact hc.alternative_map (fun _ _ => rfl) fun _ _ => hc.read_string raw
    | operator op =>
      exact hc.alternative_map (fun _ _ => rfl) fun n _ => hc.read_word op.ofName?_name n
    | null | zero =>
      intro levels _
      rw [toJson, hc.string]
      cases levels <;> rfl

end Reading

end SqlTree
