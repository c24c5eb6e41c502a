import SqlTree.Draft

/-!
# Drafts in their context

`x.addTo d a` is the statement `a` after the draft `x` has been written to it; a whole statement
starts from nothing (`Draft.assemble_eq`).  One draft after another is written piece by piece
(`addTo_append`), and a draft can be written just when no part of it is a fault
(`isOk_addTo`, `sound_append`).
-/

namespace SqlTree

/-! ### Layout -/

theorem Writer.layout_blank (w : Writer) : w.blank.layout = w.layout :=
  blank_induction rfl rfl

/-- The layout of a text is chosen once, and no step changes it. -/
theorem Writer.layout_apply (w : Writer) (s : Writer.Step) : (w.apply s).layout = w.layout := by
  cases s with
  | print parts =>
    show (parts.foldl Writer.write w).layout = w.layout
    induction parts generalizing w with
    | nil => rfl
    | cons s rest ih => exact ih (w.write s)
  | blank => exact w.layout_blank
  | lineBreak =>
    obtain ⟨layout, reversed⟩ := w
    cases layout with
    | compact => exact Writer.layout_blank _
    | pretty =>
      show (if _ then _ else _ : Writer).layout = _
      split <;> rfl
  | indent depth =>
    obtain ⟨layout, reversed⟩ := w
    cases layout <;> rfl
  | write _ | comma | openParenthesis | closeParenthesis | terminate _ => rfl

theorem Assembly.layout_addAll (d : Dialect) (a : Assembly) (l : List Piece) :
    (a.addAll d l).writer.layout = a.writer.layout := by
  induction l generalizing a with
  | nil => rfl
  | cons p rest ih =>
    refine (ih (a.add d p)).trans ?_
    cases p with
    | layout s => exact a.writer.layout_apply s
    | argument name v => rfl

namespace Draft

/-! ### Writing -/

/-- The statement after a draft has been written to it, or the fault of the draft. -/
def addTo (x : Draft) (d : Dialect) (a : Assembly) : Except Error Assembly :=
  match x with
  | .pieces l => .ok (a.addAll d l)
  | .fault e => .error e

theorem assemble_eq (x : Draft) (d : Dialect) (layout : Layout) :
    x.assemble d layout = (x.addTo d (Assembly.start layout)).map Assembly.compiled := by
  cases x <;> rfl

/-- One draft behind another is written to what the first has left. -/
theorem addTo_append (x y : Draft) (d : Dialect) (a : Assembly) :
    (x ++ y).addTo d a = (x.addTo d a).bind fun b => y.addTo d b := by
  cases x with
  | fault e => rfl
  | pieces l =>
    cases y with
    | fault e => rfl
    | pieces m =>
      show Except.ok ((l ++ m).foldl (Assembly.add d) a) = _
      rw [List.foldl_append]
      rfl

/-- What is written last is written to what the rest has made. -/
theorem addTo_append_eq_ok {x y : Draft} {d : Dialect} {a c : Assembly}
    (h : (x ++ y).addTo d a = .ok c) : ∃ b, x.addTo d a = .ok b ∧ y.addTo d b = .ok c := by
  rw [addTo_append] at h
  cases hx : x.addTo d a with
  | error e =>
    rw [hx] at h
    cases h
  | ok b =>
    rw [hx] at h
    exact ⟨b, rfl, h⟩

/-- The text of an assembled draft is what it writes at the start. -/
theorem assemble_eq_ok {x : Draft} {d : Dialect} {layout : Layout} {r : Compiled}
    (h : x.assemble d layout = .ok r) :
    ∃ b, x.addTo d (Assembly.start layout) = .ok b ∧ r.sql.toList = b.writer.text := by
  rw [assemble_eq] at h
  cases hb : x.addTo d (Assembly.start layout) with
  | error e =>
    rw [hb] at h
    cases h
  | ok b =>
    rw [hb] at h
    cases h
    exact ⟨b, rfl, String.toList_ofList⟩

/-- Writing keeps the layout. -/
theorem layout_addTo {x : Draft} {d : Dialect} {a b : Assembly} (h : x.addTo d a = .ok b) :
    b.writer.layout = a.writer.layout := by
  cases x with
  | fault e => cases h
  | pieces l =>
    cases h
    exact Assembly.layout_addAll d a l

/-! ### Faults -/

/-- A draft without a fault. -/
def Sound : Draft → Prop
  | .pieces _ => True
  | .fault _ => False

/-- Whether a draft can be written does not depend on where. -/
theorem isOk_addTo (x : Draft) (d : Dialect) (a : Assembly) :
    (x.addTo d a).isOk = true ↔ x.Sound := by
  cases x with
  | pieces l => exact ⟨fun _ => trivial, fun _ => rfl⟩
  | fault e => exact ⟨fun h => absurd h Bool.false_ne_true, False.elim⟩

/-- Two drafts can be written together if each of them can. -/
@[simp] theorem sound_append {x y : Draft} : (x ++ y).Sound ↔ x.Sound ∧ y.Sound := by
  cases x with
  | fault e => exact ⟨False.elim, And.left⟩
  | pieces l =>
    cases y with
    | fault e => exact ⟨False.elim, And.right⟩
    | pieces m => exact ⟨fun _ => ⟨trivial, trivial⟩, fun _ => trivial⟩

@[simp] theorem sound_empty : empty.Sound := trivial

@[simp] theorem sound_step (s : Writer.Step) : (step s).Sound := trivial

@[simp] theorem sound_text (s : String) : (text s).Sound := trivial

@[simp] theorem sound_blank : blank.Sound := trivial

@[simp] theorem sound_lineBreak : lineBreak.Sound := trivial

@[simp] theorem sound_keyword (s : String) : (keyword s).Sound := trivial

@[simp] theorem sound_ite (c : Prop) [Decidable c] (x y : Draft) :
    (if c then x else y).Sound ↔ if c then x.Sound else y.Sound := by
  split <;> exact Iff.rfl

@[simp] theorem sound_parenthesized {x : Draft} : (parenthesized x).Sound ↔ x.Sound := by
  rw [parenthesized, sound_append, sound_append]
  exact ⟨fun h => h.1.2, fun h => ⟨⟨sound_step _, h⟩, sound_step _⟩⟩

theorem sound_joined {between : Draft} (hbetween : between.Sound) {l : List Draft} :
    (joined between l).Sound ↔ ∀ x ∈ l, x.Sound := by
  induction l with
  | nil => exact ⟨fun _ x hx => absurd hx List.not_mem_nil, fun _ => trivial⟩
  | cons x rest ih =>
    cases rest with
    | nil => exact List.forall_mem_singleton.symm
    | cons y rest =>
      rw [List.forall_mem_cons, ← ih]
      show (x ++ between ++ joined between (y :: rest)).Sound ↔ _
      rw [sound_append, sound_append]
      exact ⟨fun h => ⟨h.1.1, h.2⟩, fun h => ⟨⟨h.1, hbetween⟩, h.2⟩⟩

@[simp] theorem sound_commaSeparated {l : List Draft} :
    (commaSeparated l).Sound ↔ ∀ x ∈ l, x.Sound :=
  sound_joined (sound_step _)

end Draft

end SqlTree
