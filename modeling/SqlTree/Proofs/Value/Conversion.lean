import SqlTree.Proofs.Codec.Float
import SqlTree.Proofs.Codec.Value
import SqlTree.Proofs.Json.ReadBack

/-!
# Free-form documents as values

Main statement, `Json.Printable.converted_iff`: a document that has a text is converted to one
value, which `Converted` describes kind by kind.
-/

namespace SqlTree

/-- What a document is converted to.  Whole numbers stay whole if they fit into sixty-four bits with
a sign, and are rounded to floats if they fit without one only; items are converted one by one; and
an object becomes the text without blanks that stands for it. -/
inductive Converted : Json → Value → Prop where
  | null : Converted .null .null
  | bool (b : Bool) : Converted (.bool b) (.bool b)
  | whole (n : Int64) : Converted (.int n.toInt) (.int n)
  | wide (n : UInt64) (h : 0x8000000000000000 ≤ n.toNat) :
    Converted (.int n.toNat) (.float n.toFloat)
  | float (x : Float) : Converted (.float x) (.float x)
  | string (s : String) : Converted (.string s) (.string s)
  | array {items : List Json} {values : List Value} (h : List.Forall₂ Converted items values) :
    Converted (.array items) (.list values)
  | object {members : List (String × Json)}
    (h : Json.Spells (Json.compact (.object members)) (.object members)) :
    Converted (.object members) (.string (Json.compact (.object members)))

theorem Value.ofJsonItems_eq_map (items : List Json) :
    Value.ofJsonItems items = items.map Value.ofJson := by
  induction items with
  | nil => rfl
  | cons j items ih => rw [Value.ofJsonItems, ih, List.map_cons]

/-- What is related to the items of a list one by one, if each is related to its image alone. -/
theorem forall₂_iff_eq_map {α β : Type} {R : α → β → Prop} {f : α → β} {l : List α} {m : List β}
    (h : ∀ a ∈ l, ∀ b, R a b ↔ b = f a) : List.Forall₂ R l m ↔ m = l.map f := by
  induction l generalizing m with
  | nil => rw [List.forall₂_nil_left_iff, List.map_nil]
  | cons a l ih =>
    obtain ⟨ha, hl⟩ := List.forall_mem_cons.mp h
    simp only [List.forall₂_cons_left_iff, ha, ih hl, List.map_cons]
    exact ⟨fun ⟨_, _, hb, hm, heq⟩ => by rw [heq, hb, hm], fun heq => ⟨_, _, rfl, rfl, heq⟩⟩

/-! ### Whole numbers -/

section Whole

variable {n : Int}

theorem int64?_toInt (n : Int64) : (Json.int n.toInt).int64? = some n := by
  simp [Json.int64?]

theorem ofJson_whole (n : Int64) : Value.ofJson (.int n.toInt) = .int n := by
  rw [Value.ofJson, int64?_toInt]

/-- A number above what sixty-four bits with a sign hold is rounded. -/
theorem ofJson_wide (n : UInt64) (h : 0x8000000000000000 ≤ n.toNat) :
    Value.ofJson (.int n.toNat) = .float n.toFloat := by
  have hnone : (Json.int n.toNat).int64? = none := by
    rw [Json.int64?, if_neg]
    intro heq
    have hlt := Int64.toInt_lt (Int64.ofInt n.toNat)
    omega
  have hfloat : Json.floatOfInt n.toNat = n.toFloat := by
    rw [Json.floatOfInt, if_neg (by omega), Int.natAbs_natCast]
    exact congrArg UInt64.toFloat (UInt64.ofNat_toNat)
  rw [Value.ofJson, hnone]
  exact congrArg Value.float hfloat

/-- A whole number of at most sixty-four bits has a sign or not. -/
theorem exists_whole_or_wide (hlow : -0x8000000000000000 ≤ n) (hhigh : n < 0x10000000000000000) :
    (∃ m : Int64, n = m.toInt) ∨
      ∃ m : UInt64, 0x8000000000000000 ≤ m.toNat ∧ n = m.toNat := by
  by_cases h : n < 0x8000000000000000
  · exact .inl ⟨Int64.ofInt n, (Int64.toInt_ofInt_of_le hlow h).symm⟩
  · refine .inr ⟨UInt64.ofNat n.toNat, ?_, ?_⟩
    · rw [UInt64.toNat_ofNat_of_lt' (by simp only [UInt64.size]; omega)]
      omega
    · rw [UInt64.toNat_ofNat_of_lt' (by simp only [UInt64.size]; omega)]
      omega

end Whole

namespace Json

/-- **A document that has a text is converted to one value.** -/
theorem Printable.converted_iff {j : Json} (hj : j.Printable) {v : Value} :
    Converted j v ↔ v = Value.ofJson j := by
  -- One case for each kind of document; the items of an array are converted by induction.
  induction hj generalizing v with
  | null =>
    rw [Value.ofJson]
    exact ⟨fun h => by cases h; rfl, fun h => h ▸ .null⟩
  | bool b =>
    rw [Value.ofJson]
    exact ⟨fun h => by cases h; rfl, fun h => h ▸ .bool b⟩
  | @int n low high =>
    constructor
    · intro h
      cases h with
      | whole m => exact (ofJson_whole m).symm
      | wide m hm => exact (ofJson_wide m hm).symm
    · rintro rfl
      rcases exists_whole_or_wide low high with ⟨m, rfl⟩ | ⟨m, hm, rfl⟩
      · rw [ofJson_whole]
        exact .whole m
      · rw [ofJson_wide m hm]
        exact .wide m hm
  | @float x _ =>
    rw [Value.ofJson]
    exact ⟨fun h => by cases h; rfl, fun h => h ▸ .float x⟩
  | string s =>
    rw [Value.ofJson]
    exact ⟨fun h => by cases h; rfl, fun h => h ▸ .string s⟩
  | @array items _ ih =>
    have hitems {values : List Value} :
        List.Forall₂ Converted items values ↔ values = items.map Value.ofJson :=
      forall₂_iff_eq_map fun j hj v => ih j hj
    rw [Value.ofJson, Value.ofJsonItems_eq_map]
    constructor
    · intro h
      cases h with
      | array h => rw [hitems.mp h]
    · rintro rfl
      exact .array (hitems.mpr rfl)
  | @object members hmembers _ =>
    rw [Value.ofJson]
    constructor
    · intro h
      cases h with
      | object _ => rfl
    · rintro rfl
      exact .object (Printable.object hmembers).spells_compact

/-- The floats of what a document is converted to are finite. -/
theorem Printable.finite_ofJson {j : Json} (hj : j.Printable) : (Value.ofJson j).Finite := by
  -- Only numbers become floats, and those that are written are finite.
  induction hj with
  | null =>
    rw [Value.ofJson]
    exact .null
  | bool b =>
    rw [Value.ofJson]
    exact .bool b
  | @int n low high =>
    rw [Value.ofJson]
    split
    · exact .int _
    · exact .float (isFinite_floatOfInt n)
  | float h =>
    rw [Value.ofJson]
    exact .float h
  | string s =>
    rw [Value.ofJson]
    exact .string s
  | @array items _ ih =>
    rw [Value.ofJson, Value.ofJsonItems_eq_map]
    refine .list fun v hv => ?_
    obtain ⟨j, hj, rfl⟩ := List.mem_map.mp hv
    exact ih j hj
  | object _ =>
    rw [Value.ofJson]
    exact .string _

end Json

end SqlTree
