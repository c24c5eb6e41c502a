import SqlTree.Draft

/-!
# The values that a draft binds

`x.Binds vs` says that `x`, unless it is a fault, has a placeholder for each of `vs` in that order.
A draft put together from parts binds what its parts bind, one after another, and layout binds
nothing; an assembled draft has the values that it binds as its arguments (`Draft.Binds.arguments`).
-/

namespace SqlTree

/-- The value of a placeholder. -/
def Piece.value? : Piece → Option Value
  | .layout _ => none
  | .argument _ value => some value

namespace Draft

/-- A draft without a fault has placeholders for given values, in their order. -/
def Binds (x : Draft) (vs : List Value) : Prop := ∀ l, x = .pieces l → l.filterMap Piece.value? = vs

variable {x y : Draft} {vs ws : List Value}

/-! ### Layout -/

/-- A draft that fails binds whatever one likes, since it yields nothing. -/
theorem binds_fault (e : Error) (vs : List Value) : (Draft.fault e).Binds vs := by
  intro l h
  cases h

theorem binds_pieces (l : List Piece) : (Draft.pieces l).Binds (l.filterMap Piece.value?) := by
  intro k h
  cases h
  rfl

theorem binds_empty : empty.Binds [] := binds_pieces []

theorem binds_step (s : Writer.Step) : (step s).Binds [] := binds_pieces [.layout s]

theorem binds_text (s : String) : (text s).Binds [] := binds_step _

theorem binds_argument (name : Option String) (v : Value) : (argument name v).Binds [v] :=
  binds_pieces [.argument name v]

theorem binds_ensure (c : Bool) (fault : ArgumentFault) : (ensure c fault).Binds [] := by
  cases c
  · exact binds_fault _ _
  · exact binds_empty

/-! ### Drafts put together -/

/-- One draft after another binds the values of both. -/
theorem Binds.append (hx : x.Binds vs) (hy : y.Binds ws) : (x ++ y).Binds (vs ++ ws) := by
  cases x with
  | fault e => exact binds_fault e _
  | pieces a =>
    cases y with
    | fault e => exact binds_fault e _
    | pieces b =>
      intro l h
      obtain rfl : a ++ b = l := by injection h
      rw [List.filterMap_append, hx a rfl, hy b rfl]

/-- Something that binds nothing may stand behind. -/
theorem Binds.before (hx : x.Binds vs) (hy : y.Binds []) : (x ++ y).Binds vs := by
  have h := hx.append hy
  rwa [List.append_nil] at h

/-- Something that binds nothing may stand in front. -/
theorem Binds.after (hy : y.Binds ws) (hx : x.Binds []) : (x ++ y).Binds ws := hx.append hy

/-- Both ways have to bind the same. -/
theorem Binds.ite {c : Prop} [Decidable c] (hx : c → x.Binds vs) (hy : ¬c → y.Binds vs) :
    (if c then x else y).Binds vs := by
  by_cases h : c
  · rw [if_pos h]
    exact hx h
  · rw [if_neg h]
    exact hy h

theorem binds_keyword (s : String) : (keyword s).Binds [] := (binds_text s).before (binds_step _)

theorem Binds.parenthesized (hx : x.Binds vs) : (parenthesized x).Binds vs :=
  (hx.after (binds_step _)).before (binds_step _)

section Lists

variable {α : Type} {part : α → Draft} {values : α → List Value} {l : List α}

/-- Parts in a row bind one after the other. -/
theorem binds_concat (h : ∀ a ∈ l, (part a).Binds (values a)) :
    (concat (l.map part)).Binds (l.flatMap values) := by
  induction l with
  | nil => exact binds_empty
  | cons a rest ih =>
    rw [List.flatMap_cons]
    exact (h a List.mem_cons_self).append (ih fun b hb => h b (List.mem_cons_of_mem a hb))

theorem binds_commaSeparated (h : ∀ a ∈ l, (part a).Binds (values a)) :
    (commaSeparated (l.map part)).Binds (l.flatMap values) := by
  induction l with
  | nil => exact binds_empty
  | cons a rest ih =>
    have ha : (part a).Binds (values a) := h a List.mem_cons_self
    have hrest := ih fun b hb => h b (List.mem_cons_of_mem a hb)
    rw [List.flatMap_cons]
    -- There is a comma only between two items.
    cases rest with
    | nil =>
      rw [List.flatMap_nil, List.append_nil]
      exact ha
    | cons b rest => exact (ha.before (binds_step _)).append hrest

/-- Where no part binds anything, neither do all of them together. -/
theorem binds_commaSeparated_nil (h : ∀ a ∈ l, (part a).Binds []) :
    (commaSeparated (l.map part)).Binds [] := by
  have hl := binds_commaSeparated h
  rwa [List.flatMap_eq_nil_iff.mpr fun _ _ => rfl] at hl

end Lists

end Draft

/-! ### Assembly -/

/-- The arguments of an assembly are the values that have been added, in order. -/
theorem Assembly.arguments_addAll (d : Dialect) (a : Assembly) (l : List Piece) :
    (a.addAll d l).arguments = a.arguments ++ l.filterMap Piece.value? := by
  induction l generalizing a with
  | nil => exact (List.append_nil _).symm
  | cons p rest ih =>
    show ((a.add d p).addAll d rest).arguments = _
    rw [ih]
    cases p with
    | layout s => rfl
    | argument name v => exact List.append_assoc a.arguments [v] _

/-- The arguments of an assembled draft are the values that it binds. -/
theorem Draft.Binds.arguments {x : Draft} {vs : List Value} (hx : x.Binds vs) {d : Dialect}
    {layout : Layout} {c : Compiled} (hc : x.assemble d layout = .ok c) : c.arguments = vs := by
  cases x with
  | fault e => cases hc
  | pieces l =>
    cases hc
    rw [← hx l rfl]
    exact (Assembly.start layout).arguments_addAll d l

end SqlTree
