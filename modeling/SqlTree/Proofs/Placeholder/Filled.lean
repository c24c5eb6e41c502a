import SqlTree.Proofs.Draft.Written
import SqlTree.Proofs.Text.Solid

/-!
# Texts with placeholders filled in

A statement whose text is known can be given as a list of fragments: literal texts, and values that
are bound to placeholders.  `filled d 1` is the text that they make in a dialect, with placeholders
counted from one, and `boundValues` are the arguments.  `Draft.Prints` says that a draft adds given
fragments to a statement, when the text ends as it requires; drafts are put together as their
fragments are (`Draft.Prints.append`), and a whole draft assembles to the text that its fragments
make (`Draft.Prints.assemble`).
-/

namespace SqlTree

/-! ### Fragments -/

/-- The placeholder with a number, counted from one, for a value that goes by a name. -/
def Dialect.mark (d : Dialect) (number : Nat) (name : String) : String :=
  match d.mode with
  | .positional => d.token
  | .indexed => d.token ++ toString number
  | .named => d.token ++ name

/-- A part of a text with placeholders. -/
inductive Fragment where
  /-- A text that stands for itself. -/
  | literal (s : String)
  /-- A placeholder for a value that goes by a name. -/
  | value (name : String) (v : Value)

/-- The value of a placeholder. -/
def Fragment.value? : Fragment → Option Value
  | .literal _ => none
  | .value _ v => some v

/-- The text of fragments whose first placeholder has a given number. -/
def filled (d : Dialect) : (number : Nat) → List Fragment → List Char
  | _, [] => []
  | number, .literal s :: rest => s.toList ++ filled d number rest
  | number, .value name _ :: rest => (d.mark number name).toList ++ filled d (number + 1) rest

/-- The values of fragments, in order. -/
def boundValues (fragments : List Fragment) : List Value := fragments.filterMap Fragment.value?

theorem boundValues_append (f g : List Fragment) :
    boundValues (f ++ g) = boundValues f ++ boundValues g := List.filterMap_append

/-- Placeholders go on counting from the values that the earlier fragments bind. -/
theorem filled_append (d : Dialect) (number : Nat) (f g : List Fragment) :
    filled d number (f ++ g) =
      filled d number f ++ filled d (number + (boundValues f).length) g := by
  induction f generalizing number with
  | nil => rfl
  | cons x rest ih =>
    -- Only values move the number of the placeholders on.
    cases x with
    | literal s =>
      have hvalues : boundValues (.literal s :: rest) = boundValues rest := rfl
      rw [List.cons_append, filled, ih, filled, hvalues, List.append_assoc]
    | value name v =>
      have hlength : number + (boundValues (.value name v :: rest)).length =
          number + 1 + (boundValues rest).length := by
        have hvalues : boundValues (.value name v :: rest) = v :: boundValues rest := rfl
        rw [hvalues, List.length_cons]
        omega
      rw [List.cons_append, filled, ih, filled, hlength, List.append_assoc]

/-! ### Statements made of fragments -/

/-- A statement that is made of fragments. -/
structure Assembly.Holds (a : Assembly) (d : Dialect) (fragments : List Fragment) : Prop where
  /-- Its text is theirs. -/
  text : a.writer.text = filled d 1 fragments
  /-- Its arguments are their values. -/
  arguments : a.arguments = boundValues fragments
  /-- Where placeholders carry a name or a number, all of them are counted. -/
  index : d.mode ≠ .positional → a.index = (boundValues fragments).length

namespace Assembly.Holds

variable {d : Dialect} {a : Assembly} {f : List Fragment}

/-- A literal text is put behind the fragments. -/
theorem literal (h : a.Holds d f) {w : Writer} {s : String}
    (hw : w.text = a.writer.text ++ s.toList) :
    Assembly.Holds { a with writer := w } d (f ++ [.literal s]) where
  text := by
    have hliteral (number : Nat) : filled d number [.literal s] = s.toList := List.append_nil _
    rw [filled_append, hliteral, ← h.text]
    exact hw
  arguments := by
    rw [boundValues_append]
    exact h.arguments.trans (List.append_nil _).symm
  index hmode := by
    rw [boundValues_append]
    exact (h.index hmode).trans (congrArg List.length (List.append_nil _)).symm

/-- What a dialect writes for the next value is its placeholder with the next number. -/
theorem placeholder (h : a.Holds d f) {name : Option String} {n : String}
    (hname : d.mode = .named → name = some n) :
    d.placeholder a.index name =
      (d.mark ((boundValues f).length + 1) n,
        if d.mode = .positional then a.index else a.index + 1) := by
  unfold Dialect.placeholder Dialect.mark
  cases hmode : d.mode with
  | positional => rfl
  | named =>
    rw [hname hmode]
    rfl
  | indexed =>
    have hindex : a.index = (boundValues f).length := h.index (by rw [hmode]; decide)
    rw [hindex]
    rfl

/-- A value is bound to the next placeholder. -/
theorem value (h : a.Holds d f) {name : Option String} {n : String}
    (hname : d.mode = .named → name = some n) (v : Value) :
    (a.add d (.argument name v)).Holds d (f ++ [.value n v]) := by
  -- A placeholder is written as its mark, and its value goes to the arguments.
  have hadd : a.add d (.argument name v) =
      ⟨a.writer.write (d.mark ((boundValues f).length + 1) n), a.arguments ++ [v],
        if d.mode = .positional then a.index else a.index + 1⟩ := by
    simp only [add, h.placeholder hname]
  have hvalues : boundValues (f ++ [.value n v]) = boundValues f ++ [v] := boundValues_append _ _
  rw [hadd]
  constructor
  · have hmark (number : Nat) : filled d number [.value n v] = (d.mark number n).toList :=
      List.append_nil _
    rw [filled_append, hmark, ← h.text, Writer.text_write, Nat.add_comm]
  · rw [hvalues, h.arguments]
  · intro hmode
    rw [hvalues, List.length_append, ← h.index hmode, if_neg hmode]
    rfl

end Assembly.Holds

/-! ### Drafts that print fragments -/

/-- A draft that adds fragments to a statement whose text ends as `P` says, and leaves one whose
text ends as `Q` says. -/
def Draft.Prints (x : Draft) (d : Dialect) (layout : Layout) (P Q : Writer → Prop)
    (fragments : List Fragment) : Prop :=
  ∀ ⦃a : Assembly⦄ ⦃f⦄, a.writer.layout = layout → P a.writer → a.Holds d f →
    ∃ b, x.addTo d a = .ok b ∧ Q b.writer ∧ b.Holds d (f ++ fragments)

namespace Draft

variable {d : Dialect} {layout : Layout} {P Q R : Writer → Prop} {x y : Draft}
  {f g : List Fragment}

theorem prints_empty : empty.Prints d layout P P [] := by
  intro a f _ ha hholds
  refine ⟨a, rfl, ha, ?_⟩
  rwa [List.append_nil]

/-- Drafts print their fragments one after another. -/
theorem Prints.append (hx : x.Prints d layout P Q f) (hy : y.Prints d layout Q R g) :
    (x ++ y).Prints d layout P R (f ++ g) := by
  intro a front hlayout ha hholds
  obtain ⟨b, hb, hQ, hholds⟩ := hx hlayout ha hholds
  obtain ⟨c, hc, hR, hholds⟩ := hy ((layout_addTo hb).trans hlayout) hQ hholds
  refine ⟨c, ?_, hR, ?_⟩
  · rw [addTo_append, hb]
    exact hc
  · rwa [← List.append_assoc]

/-- More may be asked of the text before a draft, and less promised of the one behind it. -/
theorem Prints.weaken {P' Q' : Writer → Prop} (hx : x.Prints d layout P Q f)
    (hP : ∀ w, P' w → P w) (hQ : ∀ w, Q w → Q' w) : x.Prints d layout P' Q' f := by
  intro a front hlayout ha hholds
  obtain ⟨b, hb, hQb, hholds⟩ := hx hlayout (hP _ ha) hholds
  exact ⟨b, hb, hQ _ hQb, hholds⟩

/-- A call that adds a literal text. -/
theorem prints_step {s : Writer.Step} {t : String}
    (h : ∀ w : Writer, w.layout = layout → P w →
      (w.apply s).text = w.text ++ t.toList ∧ Q (w.apply s)) :
    (step s).Prints d layout P Q [.literal t] := by
  intro a front hlayout ha hholds
  obtain ⟨htext, hQ⟩ := h a.writer hlayout ha
  exact ⟨_, rfl, hQ, hholds.literal htext⟩

theorem prints_text {s : String} (hQ : ∀ w, P w → Q (w.write s)) :
    (text s).Prints d layout P Q [.literal s] :=
  prints_step fun w _ hw => ⟨Writer.text_write w s, hQ w hw⟩

theorem prints_parenthesis (hQ : ∀ w, P w → Q w.openParenthesis) :
    (step .openParenthesis).Prints d layout P Q [.literal "("] :=
  prints_step fun w _ hw => ⟨Writer.text_openParenthesis w, hQ w hw⟩

/-- A value is printed as its placeholder; its name counts only where placeholders carry names. -/
theorem prints_argument {name : Option String} {n : String}
    (hname : d.mode = .named → name = some n) (v : Value)
    (hQ : ∀ w number, P w → Q (w.write (d.mark number n))) :
    (argument name v).Prints d layout P Q [.value n v] := by
  intro a front _ ha hholds
  have hwriter : (a.add d (.argument name v)).writer =
      a.writer.write (d.mark ((boundValues front).length + 1) n) := by
    simp only [Assembly.add, hholds.placeholder hname]
  refine ⟨a.add d (.argument name v), rfl, ?_, hholds.value hname v⟩
  rw [hwriter]
  exact hQ _ _ ha

/-! ### Calls that look at the end of a text -/

/-- Behind a character that is no blank a line break is the separator of the layout. -/
theorem prints_lineBreak :
    lineBreak.Prints d layout Writer.Solid (fun _ => True)
      [.literal (String.singleton layout.separator)] := by
  refine prints_step fun w hlayout hw => ⟨?_, trivial⟩
  rw [← hlayout, String.toList_singleton]
  exact hw.text_lineBreak

theorem prints_comma :
    (step .comma).Prints d layout Writer.Unpadded (fun _ => True) [.literal ", "] := by
  refine prints_step fun w _ hw => ⟨?_, trivial⟩
  show w.comma.text = _
  rw [Writer.text_comma, hw.trimSpaces]
  rfl

theorem prints_closing :
    (step .closeParenthesis).Prints d layout Writer.Unpadded Writer.Solid [.literal ")"] := by
  refine prints_step fun w _ hw => ⟨?_, Writer.solid_closeParenthesis⟩
  show w.closeParenthesis.text = _
  rw [Writer.text_closeParenthesis, hw.trimSpaces]
  rfl

theorem prints_terminate {s : String} (hP : ∀ w, P w → w.Unpadded)
    (hQ : ∀ w, P w → Q (w.terminate s)) :
    (step (.terminate s)).Prints d layout P Q [.literal s] :=
  prints_step fun w _ hw => ⟨(hP w hw).text_terminate s, hQ w hw⟩

/-! ### Lists -/

/-- Drafts that leave the text as they need it can be printed one behind the other. -/
theorem prints_concat {α : Type} {part : α → Draft} {fragments : α → List Fragment}
    {l : List α} (h : ∀ p ∈ l, (part p).Prints d layout P P (fragments p)) :
    (concat (l.map part)).Prints d layout P P (l.flatMap fragments) := by
  induction l with
  | nil => exact Draft.prints_empty
  | cons p rest ih =>
    obtain ⟨hp, hrest⟩ := List.forall_mem_cons.mp h
    exact hp.append (ih hrest)

/-- Between the parts stands a text that needs an end without spaces, and each part leaves one. -/
theorem prints_joined {between : Draft} {α : Type} {part : α → Draft}
    {fragment : α → Fragment} {s : String} {l : List α} (hl : l ≠ [])
    (hbetween : between.Prints d layout Writer.Unpadded (fun _ => True) [.literal s])
    (h : ∀ p ∈ l, (part p).Prints d layout (fun _ => True) Writer.Unpadded [fragment p]) :
    (joined between (l.map part)).Prints d layout (fun _ => True) Writer.Unpadded
      ((l.map fragment).intersperse (.literal s)) := by
  induction l with
  | nil => exact absurd rfl hl
  | cons p rest ih =>
    obtain ⟨hp, hrest⟩ := List.forall_mem_cons.mp h
    cases rest with
    | nil => exact hp
    | cons q rest =>
      have htail := ih (List.cons_ne_nil q rest) hrest
      exact (hp.append hbetween).append htail

/-! ### Assembly -/

/-- A whole draft assembles to the text and the values of its fragments. -/
theorem Prints.assemble (hx : x.Prints d layout (fun _ => True) Q f) :
    x.assemble d layout = .ok ⟨String.ofList (filled d 1 f), boundValues f⟩ := by
  have hstart : (Assembly.start layout).Holds d [] := ⟨rfl, rfl, fun _ => rfl⟩
  obtain ⟨b, hb, -, hholds⟩ := hx rfl trivial hstart
  rw [List.nil_append] at hholds
  rw [assemble_eq, hb, ← hholds.text, ← hholds.arguments]
  rfl

end Draft

end SqlTree
