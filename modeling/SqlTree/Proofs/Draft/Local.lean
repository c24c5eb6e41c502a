import SqlTree.Proofs.Draft.Written
import SqlTree.Proofs.Text.Solid

/-!
# Drafts do not look back

A writer looks at the blank end of its text, and never beyond a character that is not blank.  So, if
a draft starts with such a character, writing it behind other text is writing it from nothing and
putting the result behind that text (`Draft.addTo_onTop`).
-/

namespace SqlTree

/-- A character that stops the dropping in front of the base keeps the base out of reach. -/
theorem dropWhile_append_of_stop {α : Type} {p : α → Bool} {c : α} (hc : p c = false) {l : List α}
    (hl : c ∈ l) (base : List α) : (l ++ base).dropWhile p = l.dropWhile p ++ base := by
  induction l with
  | nil => cases hl
  | cons a rest ih =>
    cases ha : p a with
    | false => simp [ha]
    | true =>
      -- The character that stops is not the one just dropped.
      have hrest : c ∈ rest := by
        rcases List.mem_cons.mp hl with rfl | h
        · rw [hc] at ha
          cases ha
        · exact h
      simpa [ha] using ih hrest

theorem mem_dropWhile_of_stop {α : Type} {p : α → Bool} {c : α} (hc : p c = false) {l : List α}
    (hl : c ∈ l) : c ∈ l.dropWhile p := by
  rw [← List.takeWhile_append_dropWhile (p := p) (l := l), List.mem_append] at hl
  rcases hl with hl | hl
  · have hpc : p c = true := List.all_eq_true.mp List.all_takeWhile c hl
    rw [hc] at hpc
    cases hpc
  · exact hl

/-! ### Writers -/

namespace Writer

/-- The text of a writer behind another text, which is given last character first. -/
def onTop (base : List Char) (w : Writer) : Writer := { w with reversed := w.reversed ++ base }

/-- A character in the text of a writer that is not blank. -/
def Anchor (w : Writer) (c : Char) : Prop := c ∈ w.reversed ∧ Text.isBlank c = false

variable {w : Writer} {c : Char} (base : List Char)

theorem Anchor.ne_space (h : w.Anchor c) : (c == ' ') = false := by
  rw [beq_eq_false_iff_ne]
  rintro rfl
  exact absurd h.2 (by decide)

theorem Anchor.push (h : w.Anchor c) (x : Char) : (w.push x).Anchor c :=
  ⟨List.mem_cons_of_mem x h.1, h.2⟩

theorem Anchor.write (h : w.Anchor c) (s : String) : (w.write s).Anchor c :=
  ⟨List.mem_append_right _ h.1, h.2⟩

/-- Spaces are dropped down to the anchor at most. -/
theorem Anchor.trimSpaces (h : w.Anchor c) : w.trimSpaces.Anchor c :=
  ⟨mem_dropWhile_of_stop (p := (· == ' ')) h.ne_space h.1, h.2⟩

theorem onTop_push (x : Char) : (w.onTop base).push x = (w.push x).onTop base := rfl

theorem onTop_write (s : String) : (w.onTop base).write s = (w.write s).onTop base := by
  simp [onTop, Writer.write, List.append_assoc]

/-- What is dropped on top of a text is dropped from the part that holds the anchor. -/
theorem Anchor.onTop_trimSpaces (h : w.Anchor c) :
    (w.onTop base).trimSpaces = w.trimSpaces.onTop base := by
  simp only [Writer.trimSpaces, onTop]
  rw [dropWhile_append_of_stop (p := (· == ' ')) h.ne_space h.1]

/-- Whether a blank is needed is settled by what stands on top. -/
theorem Anchor.onTop_blank (h : w.Anchor c) : (w.onTop base).blank = w.blank.onTop base := by
  obtain ⟨layout, reversed⟩ := w
  cases reversed with
  | nil => cases h.1
  | cons a rest =>
    show (if endsTidily a then _ else _) = Writer.onTop base (if endsTidily a then _ else _)
    split <;> rfl

theorem Anchor.blank (h : w.Anchor c) : w.blank.Anchor c := blank_induction h (h.push ' ')

/-- With an anchor a line is never broken at the start of the text. -/
theorem Anchor.lineBreak_eq (h : w.Anchor c) :
    w.lineBreak = match w.layout with
      | .pretty => w.trimSpaces.push '\n'
      | .compact => w.blank :=
  lineBreak_of_ne_nil w (List.ne_nil_of_mem h.trimSpaces.1)

/-- Whatever is called, the text under an anchor stays and is not looked at. -/
theorem Anchor.apply (h : w.Anchor c) (s : Step) :
    (w.apply s).Anchor c ∧ (w.onTop base).apply s = (w.apply s).onTop base := by
  have htop : (w.onTop base).Anchor c := ⟨List.mem_append_left base h.1, h.2⟩
  cases s with
  | write s => exact ⟨h.write s, onTop_write base s⟩
  | print parts =>
    show (parts.foldl Writer.write w).Anchor c ∧
      parts.foldl Writer.write (w.onTop base) = (parts.foldl Writer.write w).onTop base
    clear htop
    induction parts generalizing w with
    | nil => exact ⟨h, rfl⟩
    | cons s rest ih =>
      simp only [List.foldl_cons, onTop_write]
      exact ih (h.write s)
  | blank => exact ⟨h.blank, h.onTop_blank base⟩
  | comma =>
    refine ⟨(h.trimSpaces.push ',').push ' ', ?_⟩
    show ((w.onTop base).trimSpaces.push ',').push ' ' = _
    rw [h.onTop_trimSpaces, onTop_push, onTop_push]
    rfl
  | lineBreak =>
    -- The anchor is behind the start of the text, so that both lines are broken.
    show w.lineBreak.Anchor c ∧ (w.onTop base).lineBreak = w.lineBreak.onTop base
    have hlayout : (w.onTop base).layout = w.layout := rfl
    rw [h.lineBreak_eq, htop.lineBreak_eq, hlayout]
    cases w.layout with
    | pretty =>
      refine ⟨h.trimSpaces.push '\n', ?_⟩
      show (w.onTop base).trimSpaces.push '\n' = _
      rw [h.onTop_trimSpaces, onTop_push]
    | compact => exact ⟨h.blank, h.onTop_blank base⟩
  | indent depth =>
    obtain ⟨layout, reversed⟩ := w
    cases layout with
    | pretty =>
      refine ⟨⟨List.mem_append_right _ h.1, h.2⟩, ?_⟩
      simp [Writer.apply, Writer.indent, onTop]
    | compact => exact ⟨h, rfl⟩
  | openParenthesis => exact ⟨h.push '(', rfl⟩
  | closeParenthesis =>
    refine ⟨h.trimSpaces.push ')', ?_⟩
    show (w.onTop base).trimSpaces.push ')' = _
    rw [h.onTop_trimSpaces, onTop_push]
    rfl
  | terminate terminator =>
    -- Blank characters are dropped, and so nothing from the anchor on.
    refine ⟨⟨List.mem_append_right _ (mem_dropWhile_of_stop h.2 h.1), h.2⟩, ?_⟩
    simp only [Writer.apply, Writer.terminate, onTop]
    rw [dropWhile_append_of_stop h.2 h.1]
    simp [Writer.write]

end Writer

/-! ### Assemblies -/

namespace Assembly

/-- A statement behind another one, of which the text, last character first, and the arguments are
given; placeholders are counted on. -/
def onTop (base : List Char) (bound : List Value) (a : Assembly) : Assembly :=
  ⟨a.writer.onTop base, bound ++ a.arguments, a.index⟩

variable {c : Char} (d : Dialect) (base : List Char) (bound : List Value)

/-- A piece is added on top of a text as it would be without it, and the anchor stays. -/
theorem add_onTop {a : Assembly} (h : a.writer.Anchor c) (p : Piece) :
    (a.add d p).writer.Anchor c ∧
      (a.onTop base bound).add d p = (a.add d p).onTop base bound := by
  cases p with
  | layout s =>
    obtain ⟨hanchor, htop⟩ := h.apply base s
    exact ⟨hanchor, congrArg (Assembly.mk · _ _) htop⟩
  | argument name v =>
    refine ⟨h.write _, ?_⟩
    simp only [add, onTop, Writer.onTop_write, List.append_assoc]

theorem anchor_addAll {a : Assembly} (h : a.writer.Anchor c) (l : List Piece) :
    (a.addAll d l).writer.Anchor c := by
  induction l generalizing a with
  | nil => exact h
  | cons p rest ih => exact ih (add_onTop d [] [] h p).1

theorem addAll_onTop {a : Assembly} (h : a.writer.Anchor c) (l : List Piece) :
    (a.onTop base bound).addAll d l = (a.addAll d l).onTop base bound := by
  induction l generalizing a with
  | nil => rfl
  | cons p rest ih =>
    obtain ⟨hanchor, htop⟩ := add_onTop d base bound h p
    show ((a.onTop base bound).add d p).addAll d rest = _
    rw [htop]
    exact ih hanchor

end Assembly

/-! ### Drafts -/

namespace Draft

/-- A draft that writes something that is not blank first, or has a fault. -/
inductive Starts : Draft → Prop
  | fault (e : Error) : Starts (.fault e)
  | text (s : String) (y : Draft) {c : Char} (hc : c ∈ s.toList) (hblank : Text.isBlank c = false) :
    Starts (text s ++ y)

/-- What a draft starts with is not changed by what comes behind it. -/
theorem Starts.append {x : Draft} (hx : x.Starts) (y : Draft) : (x ++ y).Starts := by
  cases hx with
  | fault e => exact .fault e
  | text s z hc hblank =>
    rw [append_assoc]
    exact .text s (z ++ y) hc hblank

/-- A text with a character that is no blank anchors what is written behind it. -/
theorem starts_text {s : String} {c : Char} (hc : c ∈ s.toList) (hblank : Text.isBlank c = false) :
    (Draft.text s).Starts := by
  rw [← append_empty (Draft.text s)]
  exact .text s empty hc hblank

theorem Starts.ensure {x : Draft} (hx : x.Starts) (c : Bool) (fault : ArgumentFault) :
    (ensure c fault ++ x).Starts := by
  cases c with
  | true => exact (empty_append x).symm ▸ hx
  | false => exact .fault _

/-- What a draft has written first stays there. -/
theorem Starts.exists_anchor {x : Draft} (hx : x.Starts) {d : Dialect} {a b : Assembly}
    (h : x.addTo d a = .ok b) : ∃ c, b.writer.Anchor c := by
  cases hx with
  | fault e => cases h
  | @text s y c hc hblank =>
    obtain ⟨b', hb', h⟩ := addTo_append_eq_ok h
    cases hb'
    cases y with
    | fault e => cases h
    | pieces l =>
      cases h
      exact ⟨c, Assembly.anchor_addAll d
        ⟨List.mem_append_left _ (List.mem_reverse.mpr hc), hblank⟩ l⟩

/-- Behind another text a draft is what it is on its own. -/
theorem addTo_onTop {x : Draft} (hx : x.Starts) (d : Dialect) (layout : Layout) (base : List Char)
    (bound : List Value) (k : Nat) :
    x.addTo d ⟨⟨layout, base⟩, bound, k⟩ =
      (x.addTo d ⟨⟨layout, []⟩, [], k⟩).map (Assembly.onTop base bound) := by
  cases hx with
  | fault e => rfl
  | @text s y c hc hblank =>
    have hanchor : (Assembly.mk (Writer.write ⟨layout, []⟩ s) [] k).writer.Anchor c :=
      ⟨List.mem_append_left _ (List.mem_reverse.mpr hc), hblank⟩
    -- With its first text written there is an anchor, and the rest does not look beyond it.
    have hbase : Assembly.mk (Writer.write ⟨layout, base⟩ s) bound k =
        (Assembly.mk (Writer.write ⟨layout, []⟩ s) [] k).onTop base bound := by
      simp [Assembly.onTop, Writer.onTop, Writer.write]
    cases y with
    | fault e => rfl
    | pieces l =>
      show Except.ok ((Assembly.mk (Writer.write ⟨layout, base⟩ s) bound k).addAll d l) =
        .ok (((Assembly.mk (Writer.write ⟨layout, []⟩ s) [] k).addAll d l).onTop base bound)
      rw [hbase, Assembly.addAll_onTop d base bound hanchor]

end Draft

end SqlTree
