import SqlTree.Proofs.Draft.Written
import SqlTree.Proofs.Statement.Closure

/-!
# How drafts end statements

A terminator takes the place of all blank characters at the end of a text, and so it is the one call
that can take back a line that has been started.  `x.Ends P` says that `P` holds of every terminator
in a draft.  Only a whole statement has one, as its last call and that of its dialect
(`Expression.ends_statementDraft`); nothing inside a statement has any (`Expression.ends_draft`).
What every such call keeps is kept by all that is written there (`Draft.Ends.keeps`).
-/

namespace SqlTree

open Draft

/-- A call that, if it ends a statement, does so with a terminator of which `P` holds. -/
def Writer.Step.Ends (P : String → Prop) : Writer.Step → Prop
  | .terminate terminator => P terminator
  | _ => True

/-- A piece that, if it ends a statement, does so with a terminator of which `P` holds. -/
def Piece.Ends (P : String → Prop) : Piece → Prop
  | .layout s => s.Ends P
  | .argument _ _ => True

namespace Draft

variable {P : String → Prop} {d : Dialect} {x y : Draft}

/-- A draft that ends statements only with terminators of which `P` holds, or has a fault. -/
def Ends (P : String → Prop) : Draft → Prop
  | .pieces l => ∀ p ∈ l, p.Ends P
  | .fault _ => True

theorem ends_step {s : Writer.Step} (hs : s.Ends P) : (step s).Ends P := by
  intro p hp
  obtain rfl := List.mem_singleton.mp hp
  exact hs

theorem ends_text (s : String) : (text s).Ends P := ends_step trivial

theorem ends_argument (name : Option String) (v : Value) : (argument name v).Ends P := by
  intro p hp
  obtain rfl := List.mem_singleton.mp hp
  trivial

theorem ends_empty : empty.Ends P := fun _ hp => absurd hp List.not_mem_nil

/-- Two drafts that end no statement, or only as `P` allows, do so one behind the other. -/
theorem Ends.append (hx : x.Ends P) (hy : y.Ends P) : (x ++ y).Ends P := by
  cases x with
  | fault e => trivial
  | pieces l =>
    cases y with
    | fault e => trivial
    | pieces m =>
      intro p hp
      exact (List.mem_append.mp hp).elim (hx p) (hy p)

/-- What is written behind a draft without a fault is a part of the whole. -/
theorem Ends.right (h : (x ++ y).Ends P) (hx : x.Sound) : y.Ends P := by
  cases x with
  | fault e => exact hx.elim
  | pieces l =>
    cases y with
    | fault e => trivial
    | pieces m => exact fun p hp => h p (List.mem_append_right l hp)

/-- What every call with such an ending keeps is kept by the whole draft. -/
theorem Ends.keeps {K : Writer → Prop}
    (hK : ∀ (w : Writer) (s : Writer.Step), s.Ends P → K w → K (w.apply s))
    (hx : x.Ends P) {a b : Assembly} (h : x.addTo d a = .ok b) (ha : K a.writer) :
    K b.writer := by
  -- A piece runs at most one step: an argument writes its placeholder as a text.
  have hadd : ∀ p : Piece, p.Ends P → ∀ a : Assembly, K a.writer → K (a.add d p).writer := by
    intro p hend a ha
    cases p with
    | layout s => exact hK a.writer s hend ha
    | argument name v => exact hK a.writer (.write _) trivial ha
  have hall : ∀ (l : List Piece) (a : Assembly), (∀ p ∈ l, p.Ends P) → K a.writer →
      K (a.addAll d l).writer := by
    intro l
    -- The pieces are added one after the other.
    induction l with
    | nil => exact fun _ _ ha => ha
    | cons p rest ih =>
      intro a hl ha
      refine ih (a.add d p) (fun q hq => hl q (List.mem_cons_of_mem p hq)) ?_
      exact hadd p (hl p List.mem_cons_self) a ha
  cases x with
  | fault e => cases h
  | pieces l =>
    cases h
    exact hall l a hx ha

theorem ends_table {t : Table} : t.draft.Ends P := by
  have hlabelled {s : String} : True → s ≠ "" → (text s ++ text " AS ").Ends P :=
    fun _ _ => (ends_text s).append (ends_text " AS ")
  exact Table.draft_of_names (fun _ => trivial) Ends.append (fun _ => ends_text _) hlabelled
    fun _ _ => trivial

/-- Whatever the strings of a tree are, nothing that is written for it ends a statement. -/
theorem ends_stepwise (d : Dialect) (P : String → Prop) :
    Draft.Stepwise d (fun _ => True) (fun _ => True) (Ends P) where
  fault _ := trivial
  empty := ends_empty
  append := Ends.append
  blank := ends_step trivial
  comma := ends_step trivial
  lineBreak := ends_step trivial
  opening := ends_step trivial
  closing := ends_step trivial
  margin := ends_step trivial
  line depth :=
    (ends_step (s := .lineBreak) trivial).append (ends_step (s := .indent depth) trivial)
  argument := ends_argument none
  word s _ := ends_text s
  numeral _ _ _ := ends_text _
  page _ _ := ends_text _
  bounds _ := ends_text _
  string _ := ends_text _
  table _ := ends_table
  outputs _ _ := ends_text _
  labelled hx s _ :=
    (((ends_step (s := .openParenthesis) trivial).append hx).append
      (ends_step (s := .closeParenthesis) trivial)).append (ends_text s)
  assignment _ _ hx := ((ends_text _).append (ends_text _)).append hx

end Draft

/-- Nothing inside a statement ends it. -/
theorem Expression.ends_draft (d : Dialect) (P : String → Prop) (e : Expression) :
    (e.draft d).Ends P :=
  Expression.draft_closed (ends_stepwise d P).closed
    (e.spelled_of_forall (fun _ => trivial) fun _ => trivial)

/-- A statement ends with the terminator of its dialect. -/
theorem Expression.ends_statementDraft {d : Dialect} {P : String → Prop} (hP : P d.terminator)
    (e : Expression) : (e.statementDraft d).Ends P :=
  Expression.statementDraft_closed (ends_stepwise d P).closed (ends_step hP)
    (e.spelled_of_forall (fun _ => trivial) fun _ => trivial)

end SqlTree
