import SqlTree.Dictionary

/-!
# What is found in a dictionary

A dictionary holds what is found in it: its entries are the keys under which something is found, in
increasing order, so two dictionaries in which the same is found under every key are equal
(`Dictionary.ext_find?`).  The dictionary of a list of entries with different keys has these entries
(`Dictionary.perm_ofList`).
-/

namespace SqlTree.Dictionary

variable {α : Type}

/-! ### Entries -/

/-- What is looked up is an entry. -/
theorem mem_of_lookup {key : String} {value : α} {l : List (String × α)}
    (h : l.lookup key = some value) : (key, value) ∈ l := by
  induction l with
  | nil => cases h
  | cons e rest ih =>
    obtain ⟨k, v⟩ := e
    rw [List.lookup_cons] at h
    split at h
    · next heq =>
      obtain rfl := Option.some.inj h
      rw [beq_iff_eq.mp heq]
      exact List.mem_cons_self
    · exact List.mem_cons_of_mem _ (ih h)

/-- Where keys are different, every entry is found under its key. -/
theorem lookup_of_mem {key : String} {value : α} {l : List (String × α)}
    (hdistinct : (l.map (·.1)).Nodup) (h : (key, value) ∈ l) : l.lookup key = some value := by
  induction l with
  | nil => cases h
  | cons e rest ih =>
    obtain ⟨k, v⟩ := e
    obtain ⟨hk, hrest⟩ := List.nodup_cons.mp hdistinct
    rw [List.lookup_cons]
    rcases List.mem_cons.mp h with heq | hmem
    · obtain ⟨rfl, rfl⟩ := Prod.mk.inj heq
      rw [beq_self_eq_true]
    · have hne : key ≠ k := by
        rintro rfl
        exact hk (List.mem_map_of_mem (f := (·.1)) hmem)
      rw [beq_eq_false_iff_ne.mpr hne]
      exact ih hrest hmem

theorem lookup_eq_some_iff {key : String} {value : α} {l : List (String × α)}
    (h : (l.map (·.1)).Nodup) : l.lookup key = some value ↔ (key, value) ∈ l :=
  ⟨mem_of_lookup, lookup_of_mem h⟩

/-- The keys stand in increasing order. -/
theorem pairwise_keys (d : Dictionary α) : d.keys.Pairwise (· < ·) :=
  List.pairwise_map.mpr d.increasing

/-- Keys in increasing order are different. -/
theorem nodup_keys (d : Dictionary α) : d.keys.Nodup := by
  refine d.pairwise_keys.imp fun {a b} hab => ?_
  rintro rfl
  exact String.lt_irrefl _ hab

theorem find?_eq_some_iff {d : Dictionary α} {key : String} {value : α} :
    d.find? key = some value ↔ (key, value) ∈ d.entries :=
  lookup_eq_some_iff d.nodup_keys

/-- A key is one that something is found under. -/
theorem mem_keys_iff {d : Dictionary α} {key : String} :
    key ∈ d.keys ↔ ∃ value, d.find? key = some value := by
  simp only [keys, List.mem_map, find?_eq_some_iff]
  constructor
  · rintro ⟨⟨k, v⟩, hmem, rfl⟩
    exact ⟨v, hmem⟩
  · rintro ⟨v, hmem⟩
    exact ⟨(key, v), hmem, rfl⟩

theorem contains_eq_false_iff {d : Dictionary α} {key : String} :
    d.contains key = false ↔ key ∉ d.keys := by
  rw [contains, Option.isSome_eq_false_iff, Option.isNone_iff_eq_none, mem_keys_iff]
  constructor
  · rintro h ⟨v, hv⟩
    rw [h] at hv
    cases hv
  · intro h
    cases hfound : d.find? key with
    | none => rfl
    | some v => exact absurd ⟨v, hfound⟩ h

/-! ### Equality -/

/-- Entries with different keys are given by what is found among them, up to their places. -/
theorem perm_of_lookup_eq {l m : List (String × α)} (hl : (l.map (·.1)).Nodup)
    (hm : (m.map (·.1)).Nodup) (h : ∀ key, l.lookup key = m.lookup key) : l.Perm m := by
  have hnodup {l : List (String × α)} (hl : (l.map (·.1)).Nodup) : l.Nodup :=
    (List.pairwise_map.mp hl).imp fun {a b} hne heq => hne (congrArg (·.1) heq)
  refine (List.perm_ext_iff_of_nodup (hnodup hl) (hnodup hm)).mpr fun ⟨key, value⟩ => ?_
  rw [← lookup_eq_some_iff hl, ← lookup_eq_some_iff hm, h]

/-- A dictionary is determined by what is found in it, since its keys are in order. -/
theorem ext_find? {a b : Dictionary α} (h : ∀ key, a.find? key = b.find? key) : a = b := by
  have hperm : a.entries.Perm b.entries := perm_of_lookup_eq a.nodup_keys b.nodup_keys h
  have hentries : a.entries = b.entries := hperm.eq_of_pairwise
    (fun _ _ _ _ hab hba => absurd hab (String.lt_asymm hba)) a.increasing b.increasing
  cases a
  cases b
  cases hentries
  rfl

/-! ### Dictionaries of lists -/

/-- Placing an entry adds no other one. -/
theorem eq_or_mem_of_mem_place {key : String} {value : α} {l : List (String × α)}
    {e : String × α} (h : e ∈ place key value l) : e = (key, value) ∨ e ∈ l := by
  induction l with
  | nil => exact .inl (List.mem_singleton.mp h)
  | cons x rest ih =>
    unfold place at h
    split at h
    · exact List.mem_cons.mp h
    · split at h
      · rcases List.mem_cons.mp h with h | h
        · exact .inl h
        · exact .inr (List.mem_cons_of_mem x h)
      · rcases List.mem_cons.mp h with rfl | h
        · exact .inr List.mem_cons_self
        · exact (ih h).imp_right (List.mem_cons_of_mem x)

theorem mem_of_mem_foldl_set {l : List (String × α)} {d : Dictionary α} {e : String × α}
    (h : e ∈ (l.foldl (fun d e => d.set e.1 e.2) d).entries) : e ∈ l ∨ e ∈ d.entries := by
  induction l generalizing d with
  | nil => exact .inr h
  | cons x rest ih =>
    rcases ih h with h | h
    · exact .inl (List.mem_cons_of_mem x h)
    · rcases eq_or_mem_of_mem_place h with rfl | h
      · exact .inl List.mem_cons_self
      · exact .inr h

/-- A dictionary holds nothing but the entries that it is made of. -/
theorem mem_of_mem_ofList {l : List (String × α)} {e : String × α} (h : e ∈ (ofList l).entries) :
    e ∈ l :=
  (mem_of_mem_foldl_set h).resolve_right List.not_mem_nil

/-- What is set later hides what was there before. -/
theorem find?_foldl_set {l : List (String × α)} (h : (l.map (·.1)).Nodup) (d : Dictionary α)
    (key : String) :
    (l.foldl (fun d e => d.set e.1 e.2) d).find? key = (l.lookup key).or (d.find? key) := by
  -- Along the list: its keys are different, so that no entry of it hides another one.
  induction l generalizing d with
  | nil => rfl
  | cons e rest ih =>
    obtain ⟨k, v⟩ := e
    obtain ⟨hk, hrest⟩ := List.nodup_cons.mp h
    rw [List.foldl_cons, ih hrest, List.lookup_cons]
    by_cases heq : key = k
    · -- The rest has no other entry of this key.
      subst heq
      have hnone : rest.lookup key = none := by
        cases hfound : rest.lookup key with
        | none => rfl
        | some w => exact absurd (List.mem_map_of_mem (f := (·.1)) (mem_of_lookup hfound)) hk
      rw [hnone, find?_set_self, beq_self_eq_true]
      rfl
    · rw [find?_set_of_ne d v heq, beq_eq_false_iff_ne.mpr heq]

/-- In a dictionary of entries with different keys is found what the list has. -/
theorem find?_ofList {l : List (String × α)} (h : (l.map (·.1)).Nodup) (key : String) :
    (ofList l).find? key = l.lookup key := by
  rw [ofList, find?_foldl_set h, find?_empty, Option.or_none]

/-- Different keys keep their values, in another order. -/
theorem perm_ofList {l : List (String × α)} (h : (l.map (·.1)).Nodup) :
    (ofList l).entries.Perm l :=
  perm_of_lookup_eq (ofList l).nodup_keys h (find?_ofList h)

/-- The entries of a dictionary, in any order, make up the dictionary. -/
theorem ofList_of_perm {d : Dictionary α} {l : List (String × α)} (h : l.Perm d.entries) :
    ofList l = d := by
  have hkeys : (l.map (·.1)).Nodup := by
    rw [(h.map fun e => e.1).nodup_iff]
    exact d.nodup_keys
  refine ext_find? fun key => Option.ext fun value => ?_
  rw [find?_ofList hkeys, lookup_eq_some_iff hkeys, h.mem_iff, find?_eq_some_iff]

end SqlTree.Dictionary
