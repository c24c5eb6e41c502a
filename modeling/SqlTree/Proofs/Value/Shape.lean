import SqlTree.Value.Basic

/-!
# The shape of a value

A statement tells values apart by their shape only: null, a list, or a scalar.  `KeepsShape f` says
that a change of values keeps null, scalars and the structure of lists apart, and
`keepsShape_mapScalars` that every change of scalars extends to one.
-/

namespace SqlTree.Value

/-- Whether a value is neither null nor a list. -/
def isScalar : Value → Bool
  | .null | .list _ => false
  | _ => true

/-- Null stays null, scalars stay scalars, and lists are changed item by item. -/
structure KeepsShape (f : Value → Value) : Prop where
  /-- Null stays null. -/
  null : f .null = .null
  /-- Scalars stay scalars. -/
  scalar : ∀ v, v.isScalar = true → (f v).isScalar = true
  /-- Lists are changed item by item. -/
  list : ∀ items, f (.list items) = .list (items.map f)

theorem isNull_eq_false_of_isScalar {v : Value} (h : v.isScalar = true) : v.isNull = false := by
  cases v with
  | null | list _ => simp [isScalar] at h
  | _ => rfl

/-- A change that keeps shapes keeps the absence of a value. -/
theorem KeepsShape.isNull_eq {f : Value → Value} (hf : KeepsShape f) (v : Value) :
    (f v).isNull = v.isNull := by
  cases v with
  | null => rw [hf.null]
  | list items =>
    rw [hf.list]
    rfl
  | _ => exact isNull_eq_false_of_isScalar (hf.scalar _ rfl)

/-! ### Changes of scalars -/

mutual

/-- Changes the scalars in a value. -/
def mapScalars (g : Value → Value) : Value → Value
  | .null => .null
  | .list items => .list (mapScalarsItems g items)
  | v => g v

/-- Changes the scalars in the items of a list. -/
def mapScalarsItems (g : Value → Value) : List Value → List Value
  | [] => []
  | item :: rest => mapScalars g item :: mapScalarsItems g rest

end

theorem mapScalarsItems_eq_map (g : Value → Value) (items : List Value) :
    mapScalarsItems g items = items.map (mapScalars g) := by
  induction items with
  | nil => rfl
  | cons item rest ih => rw [mapScalarsItems, ih, List.map_cons]

theorem mapScalars_of_isScalar (g : Value → Value) {v : Value} (h : v.isScalar = true) :
    mapScalars g v = g v := by
  cases v with
  | null | list _ => simp [isScalar] at h
  | _ => rfl

/-- Every change of scalars into scalars extends to all values. -/
theorem keepsShape_mapScalars {g : Value → Value}
    (hg : ∀ v, v.isScalar = true → (g v).isScalar = true) : KeepsShape (mapScalars g) where
  null := rfl
  scalar v hv := by
    rw [mapScalars_of_isScalar g hv]
    exact hg v hv
  list items := by rw [mapScalars, mapScalarsItems_eq_map]

end SqlTree.Value
