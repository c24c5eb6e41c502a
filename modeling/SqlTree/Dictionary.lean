/-!
# Dictionaries

Values under string keys, kept in increasing order of the keys, so that two dictionaries with the
same keys and values are equal.  `set` puts a value under a key whether or not the key is taken:
`find?_set_self` and `find?_set_of_ne` say what is found afterwards.
-/

namespace SqlTree

/-- Finitely many values under keys in strictly increasing order. -/
structure Dictionary (α : Type) where
  /-- The keys and their values. -/
  entries : List (String × α)
  /-- Each key is less than the keys after it. -/
  increasing : entries.Pairwise fun a b => a.1 < b.1

namespace Dictionary

variable {α β : Type}

/-- The dictionary without entries. -/
def empty : Dictionary α := ⟨[], List.Pairwise.nil⟩

/-- The value under a key. -/
def find? (d : Dictionary α) (key : String) : Option α := d.entries.lookup key

/-- Whether a key has a value. -/
def contains (d : Dictionary α) (key : String) : Bool := (d.find? key).isSome

/-- The keys, in increasing order. -/
def keys (d : Dictionary α) : List String := d.entries.map (·.1)

/-- Puts an entry in its place, over an entry of the same key if there is one. -/
def place (key : String) (value : α) : List (String × α) → List (String × α)
  | [] => [(key, value)]
  | (k, v) :: rest =>
    if key < k then (key, value) :: (k, v) :: rest
    else if key = k then (key, value) :: rest
    else (k, v) :: place key value rest

/-! ### The order is kept -/

theorem lt_of_not_lt_of_ne {a b : String} (h : ¬ a < b) (hne : a ≠ b) : b < a := by
  refine Classical.byContradiction fun h' => hne ?_
  exact String.le_antisymm (String.not_lt.1 h') (String.not_lt.1 h)

/-- A bound on the keys is kept if the new key is above it. -/
theorem lt_of_mem_place {bound key : String} {value : α} {l : List (String × α)}
    (hk : bound < key) (hl : ∀ e ∈ l, bound < e.1) : ∀ e ∈ place key value l, bound < e.1 := by
  induction l with
  | nil => simpa [place] using hk
  | cons e rest ih =>
    intro x hx
    unfold place at hx
    split at hx
    · rcases List.mem_cons.1 hx with rfl | hx
      · exact hk
      · exact hl x hx
    · split at hx
      · rcases List.mem_cons.1 hx with rfl | hx
        · exact hk
        · exact hl x (List.mem_cons_of_mem _ hx)
      · rcases List.mem_cons.1 hx with rfl | hx
        · exact hl _ List.mem_cons_self
        · exact ih (fun e he => hl e (List.mem_cons_of_mem _ he)) x hx

/-- Placing an entry keeps the keys in order. -/
theorem pairwise_place (key : String) (value : α) {l : List (String × α)}
    (h : l.Pairwise fun a b => a.1 < b.1) :
    (place key value l).Pairwise fun a b => a.1 < b.1 := by
  induction l with
  | nil => simp [place]
  | cons e rest ih =>
    obtain ⟨he, hrest⟩ := List.pairwise_cons.1 h
    unfold place
    split
    next hlt =>
      refine List.pairwise_cons.2 ⟨fun x hx => ?_, h⟩
      rcases List.mem_cons.1 hx with rfl | hx
      · exact hlt
      · exact String.lt_trans hlt (he x hx)
    next hlt =>
      split
      next heq => exact List.pairwise_cons.2 ⟨fun x hx => heq ▸ he x hx, hrest⟩
      next hne =>
        exact List.pairwise_cons.2 ⟨lt_of_mem_place (lt_of_not_lt_of_ne hlt hne) he, ih hrest⟩

/-- Puts a value under a key, in place of the value that was there. -/
def set (d : Dictionary α) (key : String) (value : α) : Dictionary α :=
  ⟨place key value d.entries, pairwise_place key value d.increasing⟩

/-- The dictionary of a list of entries; of two entries of one key the later one counts. -/
def ofList (l : List (String × α)) : Dictionary α :=
  l.foldl (fun d e => d.set e.1 e.2) empty

/-- Changes every value. -/
def map (f : α → β) (d : Dictionary α) : Dictionary β :=
  ⟨d.entries.map fun e => (e.1, f e.2), List.pairwise_map.2 d.increasing⟩

/-! ### Look-up after a change -/

@[simp] theorem find?_empty (key : String) : (empty : Dictionary α).find? key = none := rfl

/-- A key that has been placed is found. -/
theorem lookup_place_self (key : String) (value : α) (l : List (String × α)) :
    (place key value l).lookup key = some value := by
  induction l with
  | nil => simp [place]
  | cons e rest ih =>
    obtain ⟨k, v⟩ := e
    unfold place
    -- The entry goes in front, in place of another one, or further down.
    split
    · simp
    · split
      · simp
      next hne =>
        have hb : (key == k) = false := beq_eq_false_iff_ne.2 hne
        simp [List.lookup_cons, hb, ih]

/-- Other keys are found as before. -/
theorem lookup_place_of_ne {key other : String} (value : α) (l : List (String × α))
    (h : other ≠ key) : (place key value l).lookup other = l.lookup other := by
  have hb : (other == key) = false := beq_eq_false_iff_ne.2 h
  induction l with
  | nil => simp [place, List.lookup_cons, hb]
  | cons e rest ih =>
    obtain ⟨k, v⟩ := e
    unfold place
    split
    · simp [List.lookup_cons, hb]
    · split
      next heq => subst heq; simp [List.lookup_cons, hb]
      · simp [List.lookup_cons, ih]

@[simp] theorem find?_set_self (d : Dictionary α) (key : String) (value : α) :
    (d.set key value).find? key = some value :=
  lookup_place_self key value d.entries

theorem find?_set_of_ne (d : Dictionary α) {key other : String} (value : α) (h : other ≠ key) :
    (d.set key value).find? other = d.find? other :=
  lookup_place_of_ne value d.entries h

end Dictionary

end SqlTree
