import SqlTree.Proofs.Codec.Expression
import SqlTree.Proofs.Codec.Float

/-!
# What is read can be written and read again

Main statement, `Expression.decode_toJson`: a tree with finite floats is read back from its document
as it is, and from the document with its members in order; so is every tree that was read from a
document with finite floats.

`Json.Yields P read` says that a reader finds nothing but what satisfies `P` in documents with
finite floats.  The readers of trees call each other, each one with fewer levels of nesting;
`FiniteAt` says of all of them what they find at a number of levels, and the induction is on the
levels.
-/

namespace SqlTree

variable {α β : Type}

namespace Json

/-! ### Documents with finite floats -/

/-- All floats in a document are finite. -/
inductive Finite : Json → Prop
  | null : Finite .null
  | bool (b : Bool) : Finite (.bool b)
  | int (n : Int) : Finite (.int n)
  | float {x : Float} (h : x.isFinite = true) : Finite (.float x)
  | string (s : String) : Finite (.string s)
  | array {items : List Json} (h : ∀ j ∈ items, Finite j) : Finite (.array items)
  | object {members : List (String × Json)} (h : ∀ m ∈ members, Finite m.2) :
    Finite (.object members)
  | unreadable : Finite .unreadable

/-- What a reader finds in documents with finite floats. -/
def Yields (P : α → Prop) (value? : Json → Option α) : Prop :=
  ∀ j : Json, j.Finite → ∀ a ∈ value? j, P a

variable {P : α → Prop} {value? : Json → Option α}

/-- The fields of a record are members of the document, or its items when it is written as a list.
-/
theorem Finite.fields {j : Json} (hj : j.Finite) {keys : List String} {fs : List (Option Json)}
    (h : j.fields? keys = some fs) : ∀ o ∈ fs, ∀ v ∈ o, v.Finite := by
  cases hj with
  | @array items hitems =>
    rw [fields?] at h
    split at h
    · obtain rfl := Option.some.inj h
      intro o ho v hv
      rw [Option.mem_def] at hv
      subst hv
      -- The fields that the list is too short for are missing.
      rcases List.mem_append.mp ho with ho | ho
      · obtain ⟨j, hj, heq⟩ := List.mem_map.mp ho
        obtain rfl := Option.some.inj heq
        exact hitems j hj
      · cases List.eq_of_mem_replicate ho
    · cases h
  | @object members hmembers =>
    rw [fields?] at h
    split at h
    · cases h
    · obtain rfl := Option.some.inj h
      intro o ho v hv
      obtain ⟨key, -, rfl⟩ := List.mem_map.mp ho
      exact hmembers _ (Dictionary.mem_of_lookup hv)
  | _ => cases h

/-- A whole number is read as a float as well, which is finite since it has sixty-four bits at most.
-/
theorem Finite.isFinite_float? {j : Json} (hj : j.Finite) {x : Float} (h : j.float? = some x) :
    x.isFinite = true := by
  cases hj with
  | int n =>
    obtain rfl := Option.some.inj h
    exact isFinite_floatOfInt n
  | float hx =>
    obtain rfl := Option.some.inj h
    exact hx
  | _ => cases h

/-- What a reader finds may be packed into something else. -/
theorem Yields.map (h : Yields P value?) {f : α → β} {Q : β → Prop} (hf : ∀ a, P a → Q (f a))
    {j : Json} (hj : j.Finite) : ∀ b ∈ (value? j).map f, Q b := by
  intro b hb
  obtain ⟨a, ha, rfl⟩ := Option.map_eq_some_iff.mp hb
  exact hf a (h j hj a ha)

/-- A field that has to be there is read from one of the parts of the document. -/
theorem Yields.required (h : Yields P value?) {o : Option Json} (ho : ∀ j ∈ o, j.Finite) :
    ∀ a ∈ Json.required value? o, P a := by
  cases o with
  | none => exact fun a ha => by cases ha
  | some j => exact h j (ho j rfl)

/-- A field that may be missing is read, or has the value that stands for an absent one. -/
theorem Yields.optional (h : Yields P value?) {absent : α} (habsent : P absent) {o : Option Json}
    (ho : ∀ j ∈ o, j.Finite) : ∀ a ∈ Json.optional absent value? o, P a := by
  cases o with
  | none =>
    intro a ha
    obtain rfl := Option.some.inj ha
    exact habsent
  | some j => exact h j (ho j rfl)

/-- Null stands for an absent part, about which there is nothing to say. -/
theorem Yields.nullable (h : Yields P value?) :
    Yields (fun o : Option α => ∀ a ∈ o, P a) (nullable? value?) := by
  intro j hj o ho a ha
  rw [Option.mem_def] at ha
  subst ha
  unfold nullable? at ho
  split at ho
  · cases ho
  · obtain ⟨b, hb, heq⟩ := Option.map_eq_some_iff.mp ho
    obtain rfl := Option.some.inj heq
    exact h j hj b hb

/-- Along a list, every item is read from an item. -/
theorem Yields.mapM (h : Yields P value?) {items : List Json} (hitems : ∀ j ∈ items, j.Finite) :
    ∀ l ∈ items.mapM value?, ∀ a ∈ l, P a := by
  intro l hl a ha
  obtain ⟨j, hj, hread⟩ := exists_of_mem_mapM hl a ha
  exact h j (hitems j hj) a hread

theorem Yields.list (h : Yields P value?) {list? : Json → Option (List α)}
    (hlist : ∀ j, list? j = match j with
      | .array items => items.mapM value?
      | _ => none) : Yields (fun l => ∀ a ∈ l, P a) list? := by
  intro j hj l hl
  rw [hlist] at hl
  cases hj with
  | array hitems => exact h.mapM hitems l hl
  | _ => cases hl

/-- A record yields what its body makes of finite fields. -/
theorem yields_record {read : Json → Option α} {keys : List String}
    {body : List (Option Json) → Option α} (hread : ∀ j, read j = (j.fields? keys).bind body)
    (h : ∀ fields, (∀ o ∈ fields, ∀ j ∈ o, j.Finite) → ∀ a ∈ body fields, P a) :
    Yields P read := by
  intro j hj a ha
  rw [hread] at ha
  obtain ⟨fields, hfields, ha⟩ := Option.bind_eq_some_iff.mp ha
  exact h fields (hj.fields hfields) a ha

/-- A record of one field yields what its field does. -/
theorem Yields.record_of_one (h : Yields P value?) {key : String} {absent : α} (habsent : P absent)
    {read : Json → Option α}
    (hread : ∀ j, read j = (j.fields? [key]).bind fun fields =>
      match fields with
      | [field] => Json.optional absent value? field
      | _ => none) : Yields P read := by
  refine yields_record hread fun fields hfinite a ha => ?_
  split at ha
  · exact h.optional habsent (hfinite _ List.mem_cons_self) a ha
  · cases ha

end Json

open Json (Yields)
open List (forall_mem_append forall_mem_cons forall_mem_map forall_mem_nil forall_mem_singleton)

/-! ### Values and parameters -/

/-- Only numbers yield floats, and those of documents are finite. -/
theorem Value.yields (n : Nat) : Yields Value.Finite (ofJson? n) := by
  -- A list is read two levels above its items.
  induction n using Nat.strongRecOn with
  | ind n ih =>
    intro j hj v hv
    unfold ofJson? at hv
    split at hv
    · split at hv
      · obtain rfl := Option.some.inj hv
        exact .null
      · cases hv
    · split at hv
      · obtain ⟨b, -, rfl⟩ := Option.map_eq_some_iff.mp hv
        exact .bool b
      · obtain ⟨m, -, rfl⟩ := Option.map_eq_some_iff.mp hv
        exact .int m
      · obtain ⟨x, hx, rfl⟩ := Option.map_eq_some_iff.mp hv
        cases hj with
        | object hmembers => exact .float ((hmembers _ List.mem_cons_self).isFinite_float? hx)
      · obtain ⟨s, -, rfl⟩ := Option.map_eq_some_iff.mp hv
        exact .string s
      · obtain ⟨content, -, rfl⟩ := Option.map_eq_some_iff.mp hv
        exact .bytes content
      · obtain ⟨d, -, rfl⟩ := Option.map_eq_some_iff.mp hv
        exact .date d
      · obtain ⟨t, -, rfl⟩ := Option.map_eq_some_iff.mp hv
        exact .dateTime t
      · obtain ⟨u, -, rfl⟩ := Option.map_eq_some_iff.mp hv
        exact .uuid u
      · split at hv
        · cases hv
        · next levels items _ n =>
          obtain ⟨vs, hvs, rfl⟩ := Option.map_eq_some_iff.mp hv
          cases hj with
          | object hmembers =>
            cases hmembers _ List.mem_cons_self with
            | array hitems => exact .list ((ih n (by omega)).mapM hitems vs hvs)
      · split at hv
        · obtain rfl := Option.some.inj hv
          exact .null
        · cases hv

/-- A parameter has the value that it is given, or null. -/
theorem Parameter.yields (n : Nat) : Yields (fun p => p.value.Finite) (Parameter.ofJson? n) := by
  cases n with
  | zero => exact fun _ _ _ h => by cases h
  | succ n =>
    refine Json.yields_record (fun _ => rfl) fun fields hfinite p hp => ?_
    split at hp
    · simp only [Option.bind_eq_bind, Option.mem_def, Option.bind_eq_some_iff, Option.pure_def,
        Option.some.injEq, forall_mem_cons] at hfinite hp
      obtain ⟨-, -, -, -, value, hvalue, rfl⟩ := hp
      exact (Value.yields n).optional .null hfinite.2.2.1 value hvalue
    · cases hp

/-- The parameters of a template come from the members of an object. -/
theorem Parameter.yields_dictionary (n : Nat) :
    Yields (fun d : Dictionary Parameter => ∀ e ∈ d.entries, e.2.value.Finite)
      (Parameter.dictionary? n) := by
  intro j hj d hd e he
  cases n with
  | zero => cases hd
  | succ n =>
    cases hj with
    | @object members hmembers =>
      obtain ⟨entries, hentries, hd⟩ := Option.bind_eq_some_iff.mp hd
      obtain rfl := Option.some.inj hd
      obtain ⟨m, hm, he⟩ := exists_of_mem_mapM hentries e (Dictionary.mem_of_mem_ofList he)
      obtain ⟨p, hp, rfl⟩ := Option.map_eq_some_iff.mp he
      exact Parameter.yields n m.2 (hmembers m hm) p hp
    | _ => cases hd

/-- A template holds nothing but its parameters. -/
theorem Template.yields (n : Nat) :
    Yields (fun t => ∀ e ∈ t.parameters.entries, e.2.value.Finite) (Template.ofJson? n) := by
  cases n with
  | zero => exact fun _ _ _ h => by cases h
  | succ n =>
    refine Json.yields_record (fun _ => rfl) fun fields hfinite t ht => ?_
    split at ht
    · simp only [Option.bind_eq_bind, Option.mem_def, Option.bind_eq_some_iff, Option.pure_def,
        Option.some.injEq, forall_mem_cons] at hfinite ht
      obtain ⟨-, -, parameters, hparameters, rfl⟩ := ht
      exact (Parameter.yields_dictionary n).optional (forall_mem_nil _) hfinite.2.1 parameters
        hparameters
    · cases ht

/-- A procedure holds the values of its parameters. -/
theorem Procedure.yields (n : Nat) :
    Yields (fun p => ∀ x ∈ p.parameters, x.value.Finite) (Procedure.ofJson? n) := by
  have hlist (n : Nat) :
      Yields (fun l => ∀ x ∈ l, x.value.Finite) (Json.list? n Parameter.ofJson?) := by
    cases n with
    | zero => exact fun j _ _ h => by cases j <;> cases h
    | succ n => exact (Parameter.yields n).list fun j => by cases j <;> rfl
  cases n with
  | zero => exact fun _ _ _ h => by cases h
  | succ n =>
    refine Json.yields_record (fun _ => rfl) fun fields hfinite p hp => ?_
    split at hp
    · simp only [Option.bind_eq_bind, Option.mem_def, Option.bind_eq_some_iff, Option.pure_def,
        Option.some.injEq, forall_mem_cons] at hfinite hp
      obtain ⟨-, -, parameters, hparameters, rfl⟩ := hp
      exact (hlist n).optional (forall_mem_nil _) hfinite.2.1 parameters hparameters
    · cases hp

/-! ### Trees -/

/-- An expression that holds no values of its own is finite if its parts are. -/
theorem Expression.Finite.node {e : Expression} (hvalues : e.ownValues = [])
    (hchildren : ∀ c ∈ e.children, c.Finite) : e.Finite :=
  .intro (by rw [hvalues]; exact forall_mem_nil _) hchildren

/-- An expression that has no parts is finite if its own values are. -/
theorem Expression.Finite.content {e : Expression} (hvalues : ∀ v ∈ e.ownValues, v.Finite)
    (hchildren : e.children = []) : e.Finite :=
  .intro hvalues (by rw [hchildren]; exact forall_mem_nil _)

theorem Expression.Finite.leaf {e : Expression} (hvalues : e.ownValues = [])
    (hchildren : e.children = []) : e.Finite :=
  .node hvalues (by rw [hchildren]; exact forall_mem_nil _)

theorem forall_getD {P : α → Prop} {o : Option (List α)} (h : ∀ l ∈ o, ∀ a ∈ l, P a) :
    ∀ a ∈ o.getD [], P a := by
  cases o with
  | none => exact forall_mem_nil _
  | some l => exact h l rfl

/-- What readers of trees find in finite documents of a number of levels. -/
structure FiniteAt (n : Nat) : Prop where
  expression : Yields Expression.Finite (Expression.ofJson? n)
  query : Yields (fun q => ∀ e ∈ q.children, e.Finite) (Query.ofJson? n)
  insert : Yields (fun i => ∀ e ∈ i.children, e.Finite) (Insert.ofJson? n)
  update : Yields (fun u => ∀ e ∈ u.children, e.Finite) (Update.ofJson? n)
  delete : Yields (fun s => ∀ e ∈ s.children, e.Finite) (Delete.ofJson? n)
  condition : Yields (fun x => ∀ e ∈ x.children, e.Finite) (Condition.ofJson? n)
  aggregate : Yields Expression.Finite (Aggregate.ofJson? n)
  field : Yields (fun f => f.expr.Finite) (Field.ofJson? n)
  source : Yields (fun s => ∀ e ∈ s.children, e.Finite) (Source.ofJson? n)
  join : Yields (fun x => ∀ e ∈ x.conditions, e.Finite) (Join.ofJson? n)
  orderField : Yields (fun f => f.expr.Finite) (OrderField.ofJson? n)
  assignment : Yields (fun a => a.value.Finite) (Assignment.ofJson? n)
  conditions : Yields (fun es => ∀ e ∈ es, e.Finite) (Conditions.ofJson? n)
  clause : Yields (fun es => ∀ e ∈ es, e.Finite) (Conditions.clause? n)
  expressionsRecord : Yields (fun es => ∀ e ∈ es, e.Finite) (expressionsRecord? n)
  fieldsRecord : Yields (fun fs => ∀ f ∈ fs, f.expr.Finite) (fieldsRecord? n)
  orderRecord : Yields (fun fs => ∀ f ∈ fs, f.expr.Finite) (orderRecord? n)
  expressions : Yields (fun es => ∀ e ∈ es, e.Finite) (expressions? n)
  fieldList : Yields (fun fs => ∀ f ∈ fs, f.expr.Finite) (fieldList? n)
  joins : Yields (fun l => ∀ x ∈ l, ∀ e ∈ x.conditions, e.Finite) (joins? n)
  orderFields : Yields (fun fs => ∀ f ∈ fs, f.expr.Finite) (orderFields? n)
  assignments : Yields (fun l => ∀ a ∈ l, a.value.Finite) (assignments? n)

/-- Without any levels of nesting nothing but a bare word is read. -/
theorem finiteAt_zero : FiniteAt 0 where
  expression := by
    intro j _ e he
    unfold Expression.ofJson? at he
    split at he
    · obtain rfl := Option.some.inj he
      exact .leaf rfl rfl
    · obtain rfl := Option.some.inj he
      exact .leaf rfl rfl
    · cases he
  query _ _ _ h := by cases h
  insert _ _ _ h := by cases h
  update _ _ _ h := by cases h
  delete _ _ _ h := by cases h
  condition _ _ _ h := by cases h
  aggregate _ _ _ h := by cases h
  field _ _ _ h := by cases h
  source _ _ _ h := by cases h
  join _ _ _ h := by cases h
  orderField _ _ _ h := by cases h
  assignment _ _ _ h := by cases h
  conditions _ _ _ h := by cases h
  clause _ _ _ h := by cases h
  expressionsRecord _ _ _ h := by cases h
  fieldsRecord _ _ _ h := by cases h
  orderRecord _ _ _ h := by cases h
  expressions _ _ _ h := by cases h
  fieldList _ _ _ h := by cases h
  joins _ _ _ h := by cases h
  orderFields _ _ _ h := by cases h
  assignments _ _ _ h := by cases h

namespace FiniteAt

variable {n : Nat}

/-- A query is read from parts that are one level further down. -/
theorem query_succ (ih : FiniteAt n) :
    Yields (fun q => ∀ e ∈ q.children, e.Finite) (Query.ofJson? (n + 1)) := by
  refine Json.yields_record (fun _ => rfl) fun fields hfinite q h => ?_
  split at h
  · simp only [Option.bind_eq_bind, Option.mem_def, Option.bind_eq_some_iff, Option.pure_def,
      Option.some.injEq, forall_mem_cons] at hfinite h
    -- Each field is read by its own reader, and each is missing or not.
    obtain ⟨-, -, select, hselect, source, hsource, filter, hfilter, groupBy, hgroupBy, having,
      hhaving, orderBy, horderBy, -, -, -, -, rfl⟩ := h
    obtain ⟨-, fselect, fsource, ffilter, fgroupBy, fhaving, forderBy, -⟩ := hfinite
    have hselect := ih.fieldsRecord.nullable.optional (by simp) fselect select hselect
    have hsource := ih.source.nullable.optional (by simp) fsource source hsource
    have hfilter := ih.clause.nullable.optional (by simp) ffilter filter hfilter
    have hgroupBy := ih.expressionsRecord.nullable.optional (by simp) fgroupBy groupBy hgroupBy
    have hhaving := ih.clause.nullable.optional (by simp) fhaving having hhaving
    have horderBy := ih.orderRecord.nullable.optional (by simp) forderBy orderBy horderBy
    refine Query.Throughout.forall_children ⟨?_, hsource, forall_getD hfilter, forall_getD hgroupBy,
      forall_getD hhaving, ?_⟩
    · exact forall_mem_map.mpr (forall_getD hselect)
    · exact forall_mem_map.mpr (forall_getD horderBy)
  · cases h

theorem insert_succ (ih : FiniteAt n) :
    Yields (fun i => ∀ e ∈ i.children, e.Finite) (Insert.ofJson? (n + 1)) := by
  refine Json.yields_record (fun _ => rfl) fun fields hfinite i h => ?_
  split at h
  · simp only [Option.bind_eq_bind, Option.mem_def, Option.bind_eq_some_iff, Option.pure_def,
      Option.some.injEq, forall_mem_cons] at hfinite h
    obtain ⟨-, -, assignments, hassignments, rfl⟩ := h
    have hassignments := ih.assignments.optional (forall_mem_nil _) hfinite.2.1 assignments
      hassignments
    exact forall_mem_map.mpr hassignments
  · cases h

/-- An update is read from its assignments, its filter and its order. -/
theorem update_succ (ih : FiniteAt n) :
    Yields (fun u => ∀ e ∈ u.children, e.Finite) (Update.ofJson? (n + 1)) := by
  refine Json.yields_record (fun _ => rfl) fun fields hfinite u h => ?_
  split at h
  · simp only [Option.bind_eq_bind, Option.mem_def, Option.bind_eq_some_iff, Option.pure_def,
      Option.some.injEq, forall_mem_cons] at hfinite h
    obtain ⟨-, -, assignments, hassignments, filter, hfilter, orderBy, horderBy, -, -, rfl⟩ := h
    obtain ⟨-, fassignments, ffilter, forderBy, -⟩ := hfinite
    have hassignments := ih.assignments.optional (forall_mem_nil _) fassignments assignments
      hassignments
    have hfilter := ih.clause.nullable.optional (by simp) ffilter filter hfilter
    have horderBy := ih.orderRecord.nullable.optional (by simp) forderBy orderBy horderBy
    rw [Update.children, forall_mem_append, forall_mem_append]
    exact ⟨⟨forall_mem_map.mpr hassignments, forall_getD hfilter⟩,
      forall_mem_map.mpr (forall_getD horderBy)⟩
  · cases h

theorem delete_succ (ih : FiniteAt n) :
    Yields (fun s => ∀ e ∈ s.children, e.Finite) (Delete.ofJson? (n + 1)) := by
  refine Json.yields_record (fun _ => rfl) fun fields hfinite s h => ?_
  split at h
  · simp only [Option.bind_eq_bind, Option.mem_def, Option.bind_eq_some_iff, Option.pure_def,
      Option.some.injEq, forall_mem_cons] at hfinite h
    obtain ⟨-, -, filter, hfilter, orderBy, horderBy, -, -, rfl⟩ := h
    obtain ⟨-, ffilter, forderBy, -⟩ := hfinite
    have hfilter := ih.clause.nullable.optional (by simp) ffilter filter hfilter
    have horderBy := ih.orderRecord.nullable.optional (by simp) forderBy orderBy horderBy
    rw [Delete.children, forall_mem_append]
    exact ⟨forall_getD hfilter, forall_mem_map.mpr (forall_getD horderBy)⟩
  · cases h

/-- A condition is read from its sides, if they are there. -/
theorem condition_succ (ih : FiniteAt n) :
    Yields (fun x => ∀ e ∈ x.children, e.Finite) (Condition.ofJson? (n + 1)) := by
  refine Json.yields_record (fun _ => rfl) fun fields hfinite x h => ?_
  split at h
  · simp only [Option.bind_eq_bind, Option.mem_def, Option.bind_eq_some_iff, Option.pure_def,
      Option.some.injEq, forall_mem_cons] at hfinite h
    obtain ⟨left, hleft, -, -, right, hright, rfl⟩ := h
    have hleft := ih.expression.nullable.optional (by simp) hfinite.1 left hleft
    have hright := ih.expression.nullable.optional (by simp) hfinite.2.2.1 right hright
    rw [Condition.children, forall_mem_append]
    exact ⟨fun e he => hleft e (Option.mem_toList.mp he),
      fun e he => hright e (Option.mem_toList.mp he)⟩
  · cases h

theorem aggregate_succ (ih : FiniteAt n) :
    Yields (fun e => e.Finite) (Aggregate.ofJson? (n + 1)) := by
  refine Json.yields_record (fun _ => rfl) fun fields hfinite e h => ?_
  split at h
  · simp only [Option.bind_eq_bind, Option.mem_def, Option.bind_eq_some_iff, Option.pure_def,
      Option.some.injEq, forall_mem_cons] at hfinite h
    obtain ⟨-, -, argument, hargument, rfl⟩ := h
    have hargument := ih.expression.required hfinite.2.1 argument hargument
    exact .node rfl (forall_mem_singleton.mpr hargument)
  · cases h

theorem field_succ (ih : FiniteAt n) :
    Yields (fun f => f.expr.Finite) (Field.ofJson? (n + 1)) := by
  refine Json.yields_record (fun _ => rfl) fun fields hfinite f h => ?_
  split at h
  · simp only [Option.bind_eq_bind, Option.mem_def, Option.bind_eq_some_iff, Option.pure_def,
      Option.some.injEq, forall_mem_cons] at hfinite h
    obtain ⟨expr, hexpr, -, -, rfl⟩ := h
    exact ih.expression.required hfinite.1 expr hexpr
  · cases h

/-- A source is read from its joins; its tables hold no values. -/
theorem source_succ (ih : FiniteAt n) :
    Yields (fun s => ∀ e ∈ s.children, e.Finite) (Source.ofJson? (n + 1)) := by
  refine Json.yields_record (fun _ => rfl) fun fields hfinite s h => ?_
  split at h
  · simp only [Option.bind_eq_bind, Option.mem_def, Option.bind_eq_some_iff, Option.pure_def,
      Option.some.injEq, forall_mem_cons] at hfinite h
    obtain ⟨-, -, joins, hjoins, rfl⟩ := h
    have hjoins := ih.joins.optional (forall_mem_nil _) hfinite.2.1 joins hjoins
    intro e he
    obtain ⟨x, hx, he⟩ := List.mem_flatMap.mp he
    exact hjoins x hx e he
  · cases h

theorem join_succ (ih : FiniteAt n) :
    Yields (fun x => ∀ e ∈ x.conditions, e.Finite) (Join.ofJson? (n + 1)) := by
  refine Json.yields_record (fun _ => rfl) fun fields hfinite x h => ?_
  split at h
  · simp only [Option.bind_eq_bind, Option.mem_def, Option.bind_eq_some_iff, Option.pure_def,
      Option.some.injEq, forall_mem_cons] at hfinite h
    obtain ⟨-, -, -, -, conditions, hconditions, rfl⟩ := h
    exact ih.conditions.optional (forall_mem_nil _) hfinite.2.2.1 conditions hconditions
  · cases h

theorem orderField_succ (ih : FiniteAt n) :
    Yields (fun f => f.expr.Finite) (OrderField.ofJson? (n + 1)) := by
  refine Json.yields_record (fun _ => rfl) fun fields hfinite f h => ?_
  split at h
  · simp only [Option.bind_eq_bind, Option.mem_def, Option.bind_eq_some_iff, Option.pure_def,
      Option.some.injEq, forall_mem_cons] at hfinite h
    obtain ⟨expr, hexpr, -, -, rfl⟩ := h
    exact ih.expression.required hfinite.1 expr hexpr
  · cases h

theorem assignment_succ (ih : FiniteAt n) :
    Yields (fun a => a.value.Finite) (Assignment.ofJson? (n + 1)) := by
  refine Json.yields_record (fun _ => rfl) fun fields hfinite a h => ?_
  split at h
  · simp only [Option.bind_eq_bind, Option.mem_def, Option.bind_eq_some_iff, Option.pure_def,
      Option.some.injEq, forall_mem_cons] at hfinite h
    obtain ⟨-, -, value, hvalue, rfl⟩ := h
    exact ih.expression.required hfinite.2.1 value hvalue
  · cases h

/-- An expression stands under the name of its kind, and the kind decides which reader reads it. -/
theorem expression_succ (ih : FiniteAt n) :
    Yields Expression.Finite (Expression.ofJson? (n + 1)) := by
  intro j hj e he
  unfold Expression.ofJson? at he
  split at he
  · next hzero => cases hzero
  · next levels kind j hlevels =>
    obtain rfl : n = levels := Nat.succ.inj hlevels
    have hj : j.Finite := by
      cases hj with
      | object hmembers => exact hmembers _ List.mem_cons_self
    obtain ⟨kind, -, he⟩ := Option.bind_eq_some_iff.mp he
    -- What is one level down is finite by the induction, for every reader that the kind may call.
    cases kind with
    | query => exact ih.query.map (fun _ h => .node rfl h) hj e he
    | insert => exact ih.insert.map (fun _ h => .node rfl h) hj e he
    | update => exact ih.update.map (fun _ h => .node rfl h) hj e he
    | delete => exact ih.delete.map (fun _ h => .node rfl h) hj e he
    | text => exact (Template.yields n).map (fun _ h => .content (forall_mem_map.mpr h) rfl) hj e he
    | procedure =>
      exact (Procedure.yields n).map (fun _ h => .content (forall_mem_map.mpr h) rfl) hj e he
    | value =>
      exact (Value.yields n).map (fun _ h => .content (forall_mem_singleton.mpr h) rfl) hj e he
    | parameter =>
      exact (Parameter.yields n).map (fun _ h => .content (forall_mem_singleton.mpr h) rfl) hj e he
    | condition => exact ih.condition.map (fun _ h => .node rfl h) hj e he
    | conditions => exact ih.conditions.map (fun _ h => .node rfl h) hj e he
    | aggregate => exact ih.aggregate j hj e he
    | select => exact ih.fieldsRecord.map (fun _ h => .node rfl (forall_mem_map.mpr h)) hj e he
    | source => exact ih.source.map (fun _ h => .node rfl h) hj e he
    | join => exact ih.join.map (fun _ h => .node rfl h) hj e he
    | filter => exact ih.clause.map (fun _ h => .node rfl h) hj e he
    | groupBy => exact ih.expressionsRecord.map (fun _ h => .node rfl h) hj e he
    | having => exact ih.clause.map (fun _ h => .node rfl h) hj e he
    | orderBy => exact ih.orderRecord.map (fun _ h => .node rfl (forall_mem_map.mpr h)) hj e he
    | field => exact ih.field.map (fun _ h => .node rfl (forall_mem_singleton.mpr h)) hj e he
    | table | column | output | sql | operator =>
      obtain ⟨x, -, rfl⟩ := Option.map_eq_some_iff.mp he
      exact .leaf rfl rfl
    | null | zero =>
      cases j with
      | null =>
        obtain rfl := Option.some.inj he
        exact .leaf rfl rfl
      | _ => cases he
  · obtain rfl := Option.some.inj he
    exact .leaf rfl rfl
  · obtain rfl := Option.some.inj he
    exact .leaf rfl rfl
  · cases he

/-- One more level of nesting. -/
theorem succ (ih : FiniteAt n) : FiniteAt (n + 1) where
  -- The readers of lists and of records of one member are built from those of their parts.
  expression := ih.expression_succ
  query := ih.query_succ
  insert := ih.insert_succ
  update := ih.update_succ
  delete := ih.delete_succ
  condition := ih.condition_succ
  aggregate := ih.aggregate_succ
  field := ih.field_succ
  source := ih.source_succ
  join := ih.join_succ
  orderField := ih.orderField_succ
  assignment := ih.assignment_succ
  conditions := ih.expressions.record_of_one (forall_mem_nil _) fun _ => rfl
  clause := ih.conditions.record_of_one (forall_mem_nil _) fun _ => rfl
  expressionsRecord := ih.expressions.record_of_one (forall_mem_nil _) fun _ => rfl
  fieldsRecord := ih.fieldList.record_of_one (forall_mem_nil _) fun _ => rfl
  orderRecord := ih.orderFields.record_of_one (forall_mem_nil _) fun _ => rfl
  expressions := ih.expression.list fun j => by cases j <;> rfl
  fieldList := ih.field.list fun j => by cases j <;> rfl
  joins := ih.join.list fun j => by cases j <;> rfl
  orderFields := ih.orderField.list fun j => by cases j <;> rfl
  assignments := ih.assignment.list fun j => by cases j <;> rfl

end FiniteAt

/-- Readers of trees find nothing but finite trees in finite documents, with any number of levels.
-/
theorem finiteAt (n : Nat) : FiniteAt n := by
  induction n with
  | zero => exact finiteAt_zero
  | succ n ih => exact ih.succ

/-! ### Decoding undoes encoding -/

namespace Expression

/-- A document is read with as many levels as it has, which is enough. -/
theorem decode?_reordered {c : Json → Json} (hc : Json.Reorders c) {e : Expression}
    (he : e.Finite) : decode? (c e.toJson) = some e :=
  reads hc he (c e.toJson).depth (Nat.le_refl _)

/-- **Decoding undoes encoding.**  A tree with finite floats is read back from its document, and
from the document with the members of every object in order; so is every tree that was read from a
document with finite floats, with any number of levels. -/
theorem decode_toJson :
    (∀ e : Expression, e.Finite → decode? e.toJson = some e ∧ decode? e.toJson.canonical = some e) ∧
    ∀ (levels : Nat) (j : Json) (e : Expression), j.Finite → ofJson? levels j = some e →
      decode? e.toJson = some e ∧ decode? e.toJson.canonical = some e := by
  have hfinite (e : Expression) (he : e.Finite) :
      decode? e.toJson = some e ∧ decode? e.toJson.canonical = some e :=
    ⟨decode?_reordered Json.reorders_id he, decode?_reordered Json.reorders_canonical he⟩
  exact ⟨hfinite, fun levels j e hj h => hfinite e ((finiteAt levels).expression j hj e h)⟩

/-- A query with an empty alias, a parameter, an empty clause and the greatest offset; and a value
that was read from a whole number. -/
theorem decode_toJson_query :
    decode? (toJson (.query
        { select := some [⟨.text ⟨"\x7bx\x7d",
            .ofList [("x", ⟨"x", .output, .list [.float 1.5, .list []]⟩)]⟩, some ""⟩],
          filter := some [], offset := 18446744073709551615 })) =
      some (.query
        { select := some [⟨.text ⟨"\x7bx\x7d",
            .ofList [("x", ⟨"x", .output, .list [.float 1.5, .list []]⟩)]⟩, some ""⟩],
          filter := some [], offset := 18446744073709551615 }) ∧
    decode? (toJson (.value (.float (Json.floatOfInt 3)))) =
      some (.value (.float (Json.floatOfInt 3))) := by
  refine ⟨(decode_toJson.1 _ ?_).1, (decode_toJson.2 2
    (.object [("Value", .object [("Float", .int 3)])]) _ ?_ rfl).1⟩
  · have hvalue : (Value.list [.float 1.5, .list []]).Finite :=
      .list (forall_mem_cons.mpr ⟨.float (by decide),
        forall_mem_singleton.mpr (.list (forall_mem_nil _))⟩)
    exact .node rfl (forall_mem_singleton.mpr
      (.content (forall_mem_singleton.mpr hvalue) rfl))
  · exact .object (forall_mem_singleton.mpr
      (.object (forall_mem_singleton.mpr (.int 3))))

/-- What is not finite is written as `null`, which is no float. -/
example : decode? (toJson (.value (.float (0.0 / 0.0)))) = none := rfl

end Expression

end SqlTree
