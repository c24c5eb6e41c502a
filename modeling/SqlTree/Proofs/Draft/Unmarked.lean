import SqlTree.Draft
import SqlTree.Proofs.Text.Unmarked

/-!
# Drafts without question marks

`x.Unmarked anonymous` says that `x`, unless it is a fault, writes no question mark of its own and,
if `anonymous`, that no placeholder of it carries a name.  A draft put together from such drafts is
one, too.
-/

namespace SqlTree

open Text (Unmarked)

/-- A call to the writer that writes no question mark. -/
def Writer.Step.Unmarked : Writer.Step → Prop
  | .write s | .terminate s => Text.Unmarked s
  | .print parts => ∀ s ∈ parts, Text.Unmarked s
  | .blank | .comma | .lineBreak | .indent _ | .openParenthesis | .closeParenthesis => True

/-- A piece without a question mark; a placeholder without a name, too, where none is wanted. -/
def Piece.Unmarked (anonymous : Bool) : Piece → Prop
  | .layout s => s.Unmarked
  | .argument name _ => anonymous = true → name = none

namespace Draft

/-- A draft without question marks; without names, too, where none are wanted. -/
def Unmarked (anonymous : Bool) (x : Draft) : Prop :=
  ∀ l, x = .pieces l → ∀ p ∈ l, p.Unmarked anonymous

variable {anonymous : Bool} {x y : Draft}

/-! ### Layout -/

theorem unmarked_fault (e : Error) : (Draft.fault e).Unmarked anonymous := by
  intro l h
  cases h

theorem unmarked_piece {p : Piece} (hp : p.Unmarked anonymous) :
    (Draft.pieces [p]).Unmarked anonymous := by
  intro l h
  cases h
  exact fun q hq => List.mem_singleton.mp hq ▸ hp

theorem unmarked_empty : empty.Unmarked anonymous := by
  intro l h
  cases h
  exact fun p hp => absurd hp List.not_mem_nil

theorem unmarked_step (s : Writer.Step) (hs : s.Unmarked) : (step s).Unmarked anonymous :=
  unmarked_piece hs

theorem unmarked_text {s : String} (hs : Text.Unmarked s) : (text s).Unmarked anonymous :=
  unmarked_step _ hs

theorem unmarked_argument (v : Value) : (argument none v).Unmarked anonymous :=
  unmarked_piece fun _ => rfl

theorem unmarked_ensure (c : Bool) (fault : ArgumentFault) :
    (ensure c fault).Unmarked anonymous := by
  cases c
  · exact unmarked_fault _
  · exact unmarked_empty

/-- Without names there are no unwanted names. -/
theorem Unmarked.weaken (hx : x.Unmarked true) : x.Unmarked anonymous := by
  intro l hl p hp
  have h := hx l hl p hp
  cases p with
  | layout s => exact h
  | argument name v => exact fun _ => h rfl

/-! ### Drafts put together -/

/-- The pieces of two drafts are those of either. -/
theorem Unmarked.append (hx : x.Unmarked anonymous) (hy : y.Unmarked anonymous) :
    (x ++ y).Unmarked anonymous := by
  -- A draft that is a fault has no pieces.
  cases x with
  | fault e => exact unmarked_fault e
  | pieces a =>
    cases y with
    | fault e => exact unmarked_fault e
    | pieces b =>
      intro l h p hp
      obtain rfl : a ++ b = l := by injection h
      rcases List.mem_append.mp hp with hp | hp
      · exact hx a rfl p hp
      · exact hy b rfl p hp

theorem Unmarked.ite {c : Prop} [Decidable c] (hx : x.Unmarked anonymous)
    (hy : y.Unmarked anonymous) : (if c then x else y).Unmarked anonymous := by
  split
  · exact hx
  · exact hy

theorem Unmarked.parenthesized (hx : x.Unmarked anonymous) :
    (parenthesized x).Unmarked anonymous :=
  ((unmarked_step .openParenthesis trivial).append hx).append
    (unmarked_step .closeParenthesis trivial)

theorem unmarked_concat {l : List Draft} (h : ∀ x ∈ l, x.Unmarked anonymous) :
    (concat l).Unmarked anonymous := by
  induction l with
  | nil => exact unmarked_empty
  | cons x rest ih =>
    exact (h x List.mem_cons_self).append (ih fun y hy => h y (List.mem_cons_of_mem x hy))

/-- Neither the parts nor what stands between them hold a question mark. -/
theorem unmarked_joined {between : Draft} (hbetween : between.Unmarked anonymous) {l : List Draft}
    (h : ∀ x ∈ l, x.Unmarked anonymous) : (joined between l).Unmarked anonymous := by
  induction l with
  | nil => exact unmarked_empty
  | cons x rest ih =>
    have hx : x.Unmarked anonymous := h x List.mem_cons_self
    have hrest := ih fun y hy => h y (List.mem_cons_of_mem x hy)
    cases rest with
    | nil => exact hx
    | cons y rest => exact (hx.append hbetween).append hrest

theorem unmarked_commaSeparated {l : List Draft} (h : ∀ x ∈ l, x.Unmarked anonymous) :
    (commaSeparated l).Unmarked anonymous :=
  unmarked_joined (unmarked_step .comma trivial) h

/-- What holds of every draft made from an element of a list holds of the mapped list. -/
theorem unmarked_map {α : Type} {part : α → Draft} {l : List α}
    (h : ∀ a ∈ l, (part a).Unmarked anonymous) : ∀ x ∈ l.map part, x.Unmarked anonymous := by
  intro x hx
  obtain ⟨a, ha, rfl⟩ := List.mem_map.mp hx
  exact h a ha

end Draft

end SqlTree
