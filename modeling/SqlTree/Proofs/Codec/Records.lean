import SqlTree.Expression.Codec
import SqlTree.Proofs.Dictionary
import SqlTree.Proofs.Lists

/-!
# Reading what was written

A document that was written is read back from any document that has the same members in its objects,
in whatever order.  `Json.Reorders` says that of a change of documents; writing as it is and
`Json.canonical` are two of them.  `Json.Reads` says that a reader gets back what was written with
as many levels of nesting as the document has, or more.

There is one lemma for each way in which documents are put together: a record, a list, a part that
may be absent, and an alternative under its name.
-/

namespace SqlTree

variable {α β : Type}

namespace Json

/-! ### Depth -/

theorem depthItems_le_iff {items : List Json} {n : Nat} :
    depthItems items ≤ n ↔ ∀ j ∈ items, j.depth ≤ n := by
  induction items with
  | nil => simp [depthItems]
  | cons j items ih => rw [depthItems, Nat.max_le, ih, List.forall_mem_cons]

theorem depthMembers_le_iff {members : List (String × Json)} {n : Nat} :
    depthMembers members ≤ n ↔ ∀ m ∈ members, m.2.depth ≤ n := by
  induction members with
  | nil => simp [depthMembers]
  | cons m members ih => rw [depthMembers, Nat.max_le, ih, List.forall_mem_cons]

/-- An array uses up one level, and leaves the others to its items. -/
theorem exists_levels_of_array {items : List Json} {levels : Nat}
    (h : (Json.array items).depth ≤ levels) :
    ∃ n, levels = n + 1 ∧ ∀ j ∈ items, j.depth ≤ n := by
  rw [depth] at h
  cases levels with
  | zero => exact absurd h (Nat.not_succ_le_zero _)
  | succ n => exact ⟨n, rfl, depthItems_le_iff.mp (Nat.le_of_succ_le_succ h)⟩

/-- An object uses up one level, and leaves the others to its members. -/
theorem exists_levels_of_object {members : List (String × Json)} {levels : Nat}
    (h : (Json.object members).depth ≤ levels) :
    ∃ n, levels = n + 1 ∧ ∀ m ∈ members, m.2.depth ≤ n := by
  rw [depth] at h
  cases levels with
  | zero => exact absurd h (Nat.not_succ_le_zero _)
  | succ n => exact ⟨n, rfl, depthMembers_le_iff.mp (Nat.le_of_succ_le_succ h)⟩

/-! ### The order of members -/

/-- A change of documents that keeps everything but the order of the members of an object. -/
structure Reorders (c : Json → Json) : Prop where
  null : c .null = .null
  bool (b : Bool) : c (.bool b) = .bool b
  int (n : Int) : c (.int n) = .int n
  float (x : Float) : c (.float x) = .float x
  string (s : String) : c (.string s) = .string s
  array (items : List Json) : c (.array items) = .array (items.map c)
  /-- An object whose keys are different has the same members afterwards. -/
  object (members : List (String × Json)) (h : (members.map (·.1)).Nodup) :
    ∃ members', c (.object members) = .object members' ∧
      members'.Perm (members.map fun m => (m.1, c m.2))

theorem reorders_id : Reorders id where
  null := rfl
  bool _ := rfl
  int _ := rfl
  float _ := rfl
  string _ := rfl
  array items := congrArg Json.array (List.map_id items).symm
  object members _ := ⟨members, rfl, by simp⟩

theorem canonicalItems_eq_map (items : List Json) : canonicalItems items = items.map canonical := by
  induction items with
  | nil => rfl
  | cons j items ih => rw [canonicalItems, ih, List.map_cons]

theorem canonicalMembers_eq_map (members : List (String × Json)) :
    canonicalMembers members = members.map fun m => (m.1, canonical m.2) := by
  induction members with
  | nil => rfl
  | cons m members ih => rw [canonicalMembers, ih, List.map_cons]

/-- Putting the members of every object in order is one way to reorder them. -/
theorem reorders_canonical : Reorders canonical where
  null := by rw [canonical]
  bool _ := by rw [canonical]
  int _ := by rw [canonical]
  float _ := by rw [canonical]
  string _ := by rw [canonical]
  array items := by rw [canonical, canonicalItems_eq_map]
  object members h := by
    rw [canonical, canonicalMembers_eq_map]
    refine ⟨_, rfl, Dictionary.perm_ofList ?_⟩
    rwa [List.map_map]

/-! ### Records -/

/-- Different keys are not repeated. -/
theorem repeats_eq_false {keys : List String} {members : List (String × Json)}
    (h : (members.map (·.1)).Nodup) : repeats keys members = false := by
  refine List.any_eq_false.mpr fun key _ => ?_
  have hcount : (members.map (·.1)).count key ≤ 1 := List.nodup_iff_count.mp h key
  rw [List.count_eq_countP, List.countP_map, List.countP_eq_length_filter] at hcount
  rw [decide_eq_true_eq, Nat.not_lt]
  exact hcount

@[simp] theorem required_some (value? : Json → Option α) (j : Json) :
    required value? (some j) = value? j := rfl

@[simp] theorem optional_some (absent : α) (value? : Json → Option α) (j : Json) :
    optional absent value? (some j) = value? j := rfl

section Reads

variable {c : Json → Json} {read : Nat → Json → Option α} {j : Json} {a : α}

/-- A reader gets back what was written, with as many levels of nesting as there are, or more. -/
def Reads (c : Json → Json) (read : Nat → Json → Option α) (j : Json) (a : α) : Prop :=
  ∀ levels, (c j).depth ≤ levels → read levels (c j) = some a

/-- A record is found by its keys, in whatever order its members stand. -/
theorem Reorders.fields? (hc : Reorders c) {members : List (String × Json)}
    (h : (members.map (·.1)).Nodup) :
    (c (.object members)).fields? (members.map (·.1)) =
      some (members.map fun m => some (c m.2)) := by
  obtain ⟨members', hobject, hperm⟩ := hc.object members h
  have hkeys : (members'.map (·.1)).Nodup := by
    rw [(hperm.map fun m => m.1).nodup_iff, List.map_map]
    exact h
  rw [hobject, Json.fields?, repeats_eq_false hkeys, if_neg Bool.false_ne_true, List.map_map]
  refine congrArg some (List.map_congr_left fun m hm => ?_)
  exact Dictionary.lookup_of_mem hkeys (hperm.mem_iff.mpr (List.mem_map_of_mem hm))

/-- A record is read one level below it, from its fields. -/
theorem Reorders.record (hc : Reorders c) {members : List (String × Json)}
    (hkeys : (members.map (·.1)).Nodup)
    (h : ∀ n j, (∀ m ∈ members, (c m.2).depth ≤ n) →
      j.fields? (members.map (·.1)) = some (members.map fun m => some (c m.2)) →
      read (n + 1) j = some a) : Reads c read (.object members) a := by
  intro levels hlevels
  obtain ⟨members', hobject, hperm⟩ := hc.object members hkeys
  obtain ⟨n, rfl, hdepth⟩ := exists_levels_of_object (hobject ▸ hlevels)
  refine h n _ (fun m hm => ?_) (hc.fields? hkeys)
  exact hdepth (m.1, c m.2) (hperm.mem_iff.mpr (List.mem_map_of_mem hm))

/-- A record of one field is read with its field. -/
theorem Reorders.record_of_one (hc : Reorders c) {key : String} {field? : Nat → Json → Option α}
    (hread : ∀ n j j', j.fields? [key] = some [some j'] → read (n + 1) j = field? n j')
    (h : Reads c field? j a) : Reads c read (.object [(key, j)]) a := by
  refine hc.record (List.pairwise_singleton _ _) fun n j' hdepth hfields => ?_
  rw [hread n j' (c j) hfields]
  exact h n (hdepth _ List.mem_cons_self)

/-- An alternative with content is read one level below its name. -/
theorem Reorders.alternative (hc : Reorders c) {name : String}
    (h : ∀ n, (c j).depth ≤ n → read (n + 1) (.object [(name, c j)]) = some a) :
    Reads c read (.object [(name, j)]) a := by
  intro levels hlevels
  obtain ⟨members', hobject, hperm⟩ := hc.object [(name, j)] (List.pairwise_singleton _ _)
  obtain rfl : members' = [(name, c j)] := List.perm_singleton.mp hperm
  obtain ⟨n, rfl, hdepth⟩ := exists_levels_of_object (hobject ▸ hlevels)
  rw [hobject]
  exact h n (hdepth _ List.mem_cons_self)

/-- An alternative that consists of its content is read with it. -/
theorem Reorders.alternative_map (hc : Reorders c) {name : String}
    {content? : Nat → Json → Option β} {node : β → α} {b : β}
    (hread : ∀ n j, read (n + 1) (.object [(name, j)]) = (content? n j).map node)
    (h : Reads c content? j b) : Reads c read (.object [(name, j)]) (node b) := by
  refine hc.alternative fun n hn => ?_
  rw [hread, h n hn, Option.map_some]

/-- A list is read item by item, one level below it. -/
theorem Reorders.list (hc : Reorders c) {write : β → Json} {item? : Nat → Json → Option β}
    {l : List β} {list? : Nat → Json → Option (List β)}
    (hlist : ∀ n items, list? (n + 1) (.array items) = items.mapM (item? n))
    (h : ∀ b ∈ l, Reads c item? (write b) b) : Reads c list? (.array (l.map write)) l := by
  intro levels hlevels
  rw [hc.array] at hlevels ⊢
  obtain ⟨n, rfl, hdepth⟩ := exists_levels_of_array hlevels
  rw [hlist, List.map_map]
  refine mapM_map_eq_some fun b hb => h b hb n (hdepth _ ?_)
  exact List.mem_map_of_mem (List.mem_map_of_mem hb)

/-- A part that may be absent is `null` only then. -/
theorem Reorders.nullable (hc : Reorders c) {write : Option β → Json}
    {value? : Nat → Json → Option β} {o : Option β} (hnone : write none = .null)
    (hnull : ∀ b ∈ o, c (write (some b)) ≠ .null) (h : ∀ b ∈ o, Reads c value? (write (some b)) b)
    (n : Nat) (hn : (c (write o)).depth ≤ n) : nullable? (value? n) (c (write o)) = some o := by
  cases o with
  | none => rw [hnone, hc.null, nullable?]
  | some b =>
    rw [nullable?, h b rfl n hn, Option.map_some]
    exact hnull b rfl

/-- An object is never null, which stands for an absent part. -/
theorem Reorders.object_ne_null (hc : Reorders c) {members : List (String × Json)}
    (h : (members.map (·.1)).Nodup) : c (.object members) ≠ .null := by
  obtain ⟨members', hobject, -⟩ := hc.object members h
  rw [hobject]
  exact Json.noConfusion

/-- A list that may be absent is read from the record that holds it. -/
theorem Reorders.nullable_list (hc : Reorders c) {write : Option (List β) → Json}
    {record : List β → String × Json} {list? : Nat → Json → Option (List β)} {o : Option (List β)}
    (hnone : write none = .null) (hsome : ∀ l, write (some l) = .object [record l])
    (h : Reads c list? (.object [record (o.getD [])]) (o.getD [])) (n : Nat)
    (hn : (c (write o)).depth ≤ n) : nullable? (list? n) (c (write o)) = some o := by
  refine hc.nullable hnone (fun l _ => ?_) (fun l hl => ?_) n hn
  · rw [hsome]
    exact hc.object_ne_null (List.pairwise_singleton _ _)
  · obtain rfl : o = some l := hl
    rw [hsome]
    exact h

/-! ### Leaves -/

theorem Reorders.read_string (hc : Reorders c) (s : String) : (c (.string s)).string? = some s := by
  rw [hc.string, string?]

theorem Reorders.read_bool (hc : Reorders c) (b : Bool) : (c (.bool b)).bool? = some b := by
  rw [hc.bool, bool?]

/-- Numbers of sixty-four bits are read back as they are. -/
theorem Reorders.read_uint64 (hc : Reorders c) (n : UInt64) :
    (c (ofUInt64 n)).uint64? = some n := by
  have hbound : (0 : Int) ≤ n.toNat ∧ (n.toNat : Int) < UInt64.size :=
    ⟨Int.natCast_nonneg _, Int.ofNat_lt.mpr n.toNat_lt⟩
  rw [ofUInt64, hc.int, uint64?, natBelow?, if_pos hbound, Option.map_some, Int.toNat_natCast,
    UInt64.ofNat_toNat]

theorem Reorders.read_byte (hc : Reorders c) (b : UInt8) :
    (c (.int b.toNat)).byte? = some b := by
  have hbound : (0 : Int) ≤ b.toNat ∧ (b.toNat : Int) < UInt8.size :=
    ⟨Int.natCast_nonneg _, Int.ofNat_lt.mpr b.toNat_lt⟩
  rw [hc.int, byte?, natBelow?, if_pos hbound, Option.map_some, Int.toNat_natCast,
    UInt8.ofNat_toNat]

theorem Reorders.read_int64 (hc : Reorders c) (n : Int64) :
    (c (.int n.toInt)).int64? = some n := by
  rw [hc.int, int64?, Int64.ofInt_toInt, if_pos rfl]

/-- An absent alias is written as null, and read back as absent. -/
theorem Reorders.read_alias (hc : Reorders c) (label : Option String) :
    (c (ofAlias label)).alias? = some label := by
  cases label with
  | none => rw [ofAlias, hc.null, alias?, nullable?]
  | some s =>
    rw [ofAlias, hc.string]
    rfl

/-- A word of a vocabulary is read by its name. -/
theorem Reorders.read_word (hc : Reorders c) {ofName? : String → Option α} {name : String}
    (h : ofName? name = some a) (levels : Nat) :
    word? ofName? levels (c (.string name)) = some a := by
  rw [hc.string, word?, plainName?]
  exact h

end Reads

end Json

end SqlTree
