import SqlTree.Draft

/-!
# The faults met in a draft

`x.Meets es` says that `es` are the faults met in `x`, in the order in which its parts are visited:
the draft is the first of them, or has none.  A draft put together from parts meets what its parts
meet, one after another, and layout meets nothing.
-/

namespace SqlTree.Draft

/-- The fault of a draft, if it has one. -/
def fault? : Draft → Option Error
  | .pieces _ => none
  | .fault e => some e

/-- The first of given faults is the one that a draft reports. -/
def Meets (x : Draft) (es : List Error) : Prop := x.fault? = es.head?

variable {x y : Draft} {es fs : List Error}

/-! ### Layout -/

theorem meets_pieces (l : List Piece) : (Draft.pieces l).Meets [] := rfl

theorem meets_fault (e : Error) : (Draft.fault e).Meets [e] := rfl

theorem meets_empty : empty.Meets [] := rfl

theorem meets_step (s : Writer.Step) : (step s).Meets [] := rfl

theorem meets_text (s : String) : (text s).Meets [] := rfl

theorem meets_keyword (s : String) : (keyword s).Meets [] := rfl

/-- A check meets its fault exactly if it fails. -/
theorem meets_ensure (c : Bool) (fault : ArgumentFault) :
    (ensure c fault).Meets (if c then [] else [.invalidArgument fault]) := by
  cases c <;> rfl

/-! ### Drafts put together -/

/-- What is met in front comes first. -/
theorem Meets.append (hx : x.Meets es) (hy : y.Meets fs) : (x ++ y).Meets (es ++ fs) := by
  cases x with
  | fault e =>
    obtain ⟨rest, rfl⟩ := List.head?_eq_some_iff.mp (Eq.symm hx)
    rfl
  | pieces l =>
    obtain rfl : es = [] := List.head?_eq_none_iff.mp (Eq.symm hx)
    cases y with
    | fault e => exact hy
    | pieces m => exact hy

/-- Something that meets nothing may stand behind. -/
theorem Meets.before (hx : x.Meets es) (hy : y.Meets []) : (x ++ y).Meets es := by
  have h := hx.append hy
  rwa [List.append_nil] at h

/-- Something that meets nothing may stand in front. -/
theorem Meets.after (hy : y.Meets fs) (hx : x.Meets []) : (x ++ y).Meets fs := hx.append hy

/-- A branch that is taken because of `c` may use `c`. -/
theorem Meets.ite {c : Prop} [Decidable c] (hx : c → x.Meets es) (hy : ¬c → y.Meets es) :
    (if c then x else y).Meets es := by
  split
  · next h => exact hx h
  · next h => exact hy h

theorem Meets.parenthesized (hx : x.Meets es) : (parenthesized x).Meets es :=
  (hx.after (meets_step _)).before (meets_step _)

section Lists

variable {α : Type} {part : α → Draft} {faults : α → List Error} {l : List α}

/-- The faults of a list of drafts are met from the left, so the first of them is the first one of
the first part that has any. -/
theorem meets_concat (h : ∀ a ∈ l, (part a).Meets (faults a)) :
    (concat (l.map part)).Meets (l.flatMap faults) := by
  induction l with
  | nil => exact meets_empty
  | cons a rest ih =>
    rw [List.flatMap_cons]
    exact (h a List.mem_cons_self).append (ih fun b hb => h b (List.mem_cons_of_mem a hb))

/-- Commas meet no faults of their own. -/
theorem meets_commaSeparated (h : ∀ a ∈ l, (part a).Meets (faults a)) :
    (commaSeparated (l.map part)).Meets (l.flatMap faults) := by
  induction l with
  | nil => exact meets_empty
  | cons a rest ih =>
    have ha : (part a).Meets (faults a) := h a List.mem_cons_self
    have hrest := ih fun b hb => h b (List.mem_cons_of_mem a hb)
    rw [List.flatMap_cons]
    -- There is a comma only between two items.
    cases rest with
    | nil =>
      rw [List.flatMap_nil, List.append_nil]
      exact ha
    | cons b rest => exact (ha.before (meets_step _)).append hrest

theorem meets_commaSeparated_nil (h : ∀ a ∈ l, (part a).Meets []) :
    (commaSeparated (l.map part)).Meets [] := by
  have hl := meets_commaSeparated h
  rwa [List.flatMap_eq_nil_iff.mpr fun _ _ => rfl] at hl

end Lists

/-! ### Assembly -/

/-- A draft that meets nothing is assembled, and any other is refused with the first fault met. -/
theorem Meets.assemble (h : x.Meets es) (d : Dialect) (layout : Layout) :
    (x.assemble d layout).isOk = true ∧ es = [] ∨
      ∃ e rest, es = e :: rest ∧ x.assemble d layout = .error e := by
  cases x with
  | pieces l => exact Or.inl ⟨rfl, List.head?_eq_none_iff.mp (Eq.symm h)⟩
  | fault e =>
    obtain ⟨rest, hrest⟩ := List.head?_eq_some_iff.mp (Eq.symm h)
    exact Or.inr ⟨e, rest, hrest, rfl⟩

end SqlTree.Draft
