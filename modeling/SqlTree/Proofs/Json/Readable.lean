import SqlTree.Proofs.Codec.Decoded
import SqlTree.Proofs.Json.ReadBack

/-!
# Documents that are read

Main statements, `Json.finite_of_ofText?` and `Json.printable_of_ofFreeText?`: the floats of a
document that is read are finite, and a free-form document that is read can be written again.

What the parts of a document have in common is carried through the grammar once (`Closed.read`).
-/

namespace SqlTree.Json

open Decimal (Numeral)

/-! ### What all parts have in common -/

/-- A property of documents that numbers have and that arrays and objects take over from their
parts. -/
structure Closed (number : Numeral → Json) (P : Json → Prop) : Prop where
  null : P .null
  bool : ∀ b, P (.bool b)
  string : ∀ s, P (.string s)
  unreadable : P .unreadable
  number : ∀ n, P (number n)
  array : ∀ items, (∀ j ∈ items, P j) → P (.array items)
  object : ∀ members, (∀ m ∈ members, P m.2) → P (.object members)

section Closed

variable {number : Numeral → Json} {P : Json → Prop}

/-- Members whose keys could all be read hold the documents that were read. -/
theorem mapM_key_forall {members : List (Option String × Json)} {named : List (String × Json)}
    (h : members.mapM (fun (m : Option String × Json) => m.1.map fun key => (key, m.2)) =
      some named) (hmembers : ∀ m ∈ members, P m.2) : ∀ m ∈ named, P m.2 := by
  intro m hm
  obtain ⟨m', hm', heq⟩ := exists_of_mem_mapM h m hm
  obtain ⟨key, -, rfl⟩ := Option.map_eq_some_iff.mp heq
  exact hmembers m' hm'

/-- What is read has the property. -/
theorem Closed.read (hP : Closed number P) (fuel : Nat) :
    (∀ cs j rest, read? number fuel cs = some (j, rest) → P j) ∧
    (∀ cs items rest, readItems? number fuel cs = some (items, rest) → ∀ j ∈ items, P j) ∧
    ∀ cs members rest, readMembers? number fuel cs = some (members, rest) →
      ∀ m ∈ members, P m.2 := by
  -- The three functions call each other with less fuel, so they are treated together.
  induction fuel with
  | zero =>
    refine ⟨fun cs j rest h => ?_, fun cs items rest h => ?_, fun cs members rest h => ?_⟩
    · cases h
    · cases h
    · cases h
  | succ fuel ih =>
    obtain ⟨hread, hitems, hmembers⟩ := ih
    refine ⟨fun cs j rest h => ?_, fun cs items rest h => ?_, fun cs members rest h => ?_⟩
    · rw [read?] at h
      split at h
      · split at h
        · cases h
          exact hP.object [] fun _ hm => absurd hm List.not_mem_nil
        · obtain ⟨⟨members, tail⟩, hm, h⟩ := Option.bind_eq_some_iff.mp h
          dsimp only at h
          split at h
          · next named hnamed =>
            cases h
            exact hP.object _ (mapM_key_forall hnamed (hmembers _ _ _ hm))
          · cases h
            exact hP.unreadable
      · split at h
        · cases h
          exact hP.array [] fun _ hm => absurd hm List.not_mem_nil
        · obtain ⟨⟨items, tail⟩, hi, h⟩ := Option.bind_eq_some_iff.mp h
          cases h
          exact hP.array _ (hitems _ _ _ hi)
      · obtain ⟨⟨units, tail⟩, -, h⟩ := Option.bind_eq_some_iff.mp h
        dsimp only at h
        split at h
        · cases h
          exact hP.string _
        · cases h
          exact hP.unreadable
      · obtain ⟨tail, -, h⟩ := Option.map_eq_some_iff.mp h
        cases h
        exact hP.null
      · obtain ⟨tail, -, h⟩ := Option.map_eq_some_iff.mp h
        cases h
        exact hP.bool true
      · obtain ⟨tail, -, h⟩ := Option.map_eq_some_iff.mp h
        cases h
        exact hP.bool false
      · obtain ⟨⟨n, tail⟩, -, h⟩ := Option.map_eq_some_iff.mp h
        cases h
        exact hP.number n
    · rw [readItems?] at h
      obtain ⟨⟨item, mid⟩, hi, h⟩ := Option.bind_eq_some_iff.mp h
      dsimp only at h
      have hitem := hread _ _ _ hi
      split at h
      · obtain ⟨⟨more, tail⟩, hm, h⟩ := Option.bind_eq_some_iff.mp h
        cases h
        exact List.forall_mem_cons.mpr ⟨hitem, hitems _ _ _ hm⟩
      · cases h
        exact List.forall_mem_singleton.mpr hitem
      · cases h
    · rw [readMembers?] at h
      split at h
      · obtain ⟨⟨units, mid⟩, -, h⟩ := Option.bind_eq_some_iff.mp h
        dsimp only at h
        split at h
        · obtain ⟨⟨value, mid'⟩, hv, h⟩ := Option.bind_eq_some_iff.mp h
          dsimp only at h
          have hvalue := hread _ _ _ hv
          split at h
          · obtain ⟨⟨more, tail⟩, hm, h⟩ := Option.bind_eq_some_iff.mp h
            cases h
            exact List.forall_mem_cons.mpr ⟨hvalue, hmembers _ _ _ hm⟩
          · cases h
            exact List.forall_mem_singleton.mpr hvalue
          · cases h
        · cases h
      · cases h

/-- What holds of every document that a reader can make holds of the one it has read. -/
theorem Closed.textWith? (hP : Closed number P) {text : String} {j : Json}
    (h : textWith? number text = some j) : P j := by
  unfold Json.textWith? at h
  dsimp only at h
  split at h
  · next j' rest hread =>
    split at h
    · obtain rfl := Option.some.inj h
      exact (hP.read _).1 _ _ _ hread
    · cases h
  · cases h

end Closed

/-! ### Numbers that are read -/

/-- A numeral that is too large for a float is not read as an infinity. -/
theorem finite_ofNumeral (n : Numeral) : (ofNumeral n).Finite := by
  unfold ofNumeral
  split
  · exact .int _
  · split
    · next x hx => exact .float (Numeral.isFinite_of_toFloat? hx)
    · exact .unreadable

/-- A whole number that is read has at most sixty-four bits. -/
theorem toInt?_bounds {n : Numeral} {i : Int} (h : n.toInt? = some i) :
    -0x8000000000000000 ≤ i ∧ i < 0x10000000000000000 := by
  have hsize : UInt64.size = 0x10000000000000000 := rfl
  unfold Numeral.toInt? at h
  dsimp only at h
  -- Numbers below zero have sixty-four bits with a sign, the others without one.
  split at h
  · split at h
    · split at h
      · obtain rfl := Option.some.inj h
        omega
      · cases h
    · split at h
      · obtain rfl := Option.some.inj h
        omega
      · cases h
  · cases h

/-- Whole numbers that are read are in range, and the others are finite. -/
theorem printable_ofNumeral (n : Numeral) (levels : Nat)
    (h : (ofNumeral n).admissible levels = true) : (ofNumeral n).Printable := by
  unfold ofNumeral at h ⊢
  split
  · next i hi => exact .int (toInt?_bounds hi).1 (toInt?_bounds hi).2
  · next hnone =>
    rw [hnone] at h
    split
    · next x hx => exact .float (Numeral.isFinite_of_toFloat? hx)
    · next hnone' =>
      rw [hnone', admissible] at h
      cases h

/-! ### Documents that are read -/

theorem admissibleItems_eq_all (levels : Nat) (items : List Json) :
    admissibleItems levels items = items.all (admissible levels) := by
  induction items with
  | nil => rfl
  | cons item items ih => rw [admissibleItems, ih, List.all_cons]

theorem admissibleMembers_eq_all (levels : Nat) (members : List (String × Json)) :
    admissibleMembers levels members = members.all fun m => admissible levels m.2 := by
  induction members with
  | nil => rfl
  | cons m members ih => rw [admissibleMembers, ih, List.all_cons]

/-- Reading makes no document that holds an infinity or a NaN. -/
theorem closed_finite : Closed ofNumeral Finite where
  null := .null
  bool := .bool
  string := .string
  unreadable := .unreadable
  number := finite_ofNumeral
  array _ h := .array h
  object _ h := .object h

/-- A document that was read, all of whose texts and keys could be read, can be printed. -/
theorem closed_printable :
    Closed ofNumeral fun j => ∀ levels, j.admissible levels = true → j.Printable where
  null _ _ := .null
  bool b _ _ := .bool b
  string s _ _ := .string s
  unreadable levels h := by
    rw [admissible] at h
    cases h
  number := printable_ofNumeral
  array items h levels hlevels := by
    -- Arrays take up a level of nesting, and so there must be one left.
    cases levels with
    | zero =>
      rw [admissible] at hlevels
      cases hlevels
    | succ levels =>
      rw [admissible, admissibleItems_eq_all, List.all_eq_true] at hlevels
      exact .array fun j hj => h j hj levels (hlevels j hj)
  object members h levels hlevels := by
    cases levels with
    | zero =>
      rw [admissible] at hlevels
      cases hlevels
    | succ levels =>
      rw [admissible, admissibleMembers_eq_all, List.all_eq_true] at hlevels
      exact .object fun m hm => h m hm levels (hlevels m hm)

/-- **The floats of a document that is read are finite.** -/
theorem finite_of_ofText? {text : String} {j : Json} (h : ofText? text = some j) : j.Finite :=
  closed_finite.textWith? h

/-- Sorting the keys leaves the values as they are. -/
theorem Printable.canonical {j : Json} (h : j.Printable) : j.canonical.Printable := by
  induction h with
  | null =>
    rw [Json.canonical]
    exact .null
  | bool b =>
    rw [Json.canonical]
    exact .bool b
  | int low high =>
    rw [Json.canonical]
    exact .int low high
  | float h =>
    rw [Json.canonical]
    exact .float h
  | string s =>
    rw [Json.canonical]
    exact .string s
  | array h ih =>
    rw [Json.canonical, canonicalItems_eq_map]
    refine .array fun j hj => ?_
    obtain ⟨j', hj', rfl⟩ := List.mem_map.mp hj
    exact ih j' hj'
  | object h ih =>
    rw [Json.canonical, canonicalMembers_eq_map]
    refine .object fun m hm => ?_
    obtain ⟨m', hm', rfl⟩ := List.mem_map.mp (Dictionary.mem_of_mem_ofList hm)
    exact ih m' hm'

/-- **A free-form document that is read can be written again.** -/
theorem printable_of_ofFreeText? {text : String} {j : Json} (h : ofFreeText? text = some j) :
    j.Printable := by
  unfold ofFreeText? at h
  obtain ⟨read, hread, h⟩ := Option.bind_eq_some_iff.mp h
  split at h
  · next hadmissible =>
    obtain rfl := Option.some.inj h
    exact (closed_printable.textWith? hread textLevels hadmissible).canonical
  · cases h

end SqlTree.Json
