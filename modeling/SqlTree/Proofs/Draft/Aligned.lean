import SqlTree.Proofs.Draft.Local
import SqlTree.Proofs.Text.Smooth
import SqlTree.Proofs.Text.Solid

/-!
# Two layouts of one text

`w.Aligned v` couples a writer that keeps lines apart with one that writes everything in one line:
the text of the second is the collapsed text of the first, which is tidy.  Every call keeps two
writers aligned if texts are smooth and lines are indented only where they start, and so does every
draft of a tree whose names are bare (`Draft.aligned_closed`).
-/

namespace SqlTree

open Collapsed (read finish)

theorem Writer.endsTidily_eq (c : Char) : endsTidily c = (isSpacing c || c == '(') := by
  simp only [endsTidily, isSpacing, Bool.or_right_comm]

/-- The text of one writer is that of another one in one line. -/
structure Writer.Aligned (w v : Writer) : Prop where
  /-- The first keeps lines apart. -/
  pretty : w.layout = .pretty
  /-- The second writes everything in one line. -/
  compact : v.layout = .compact
  /-- The second text is the first, collapsed. -/
  text : v.reversed = (read w.reversed).finish
  /-- The first text is tidy. -/
  tidy : TidyReversed w.reversed
  /-- Something has been written that is not blank. -/
  anchor : ∃ c, w.Anchor c

namespace Writer.Aligned

variable {w v : Writer}

/-! ### Texts -/

/-- A smooth text is written in the same way in both layouts. -/
theorem write (h : w.Aligned v) {s : String} (hs : smooth w.reversed.head? s.toList = true) :
    (w.write s).Aligned (v.write s) where
  pretty := h.pretty
  compact := h.compact
  text := by
    simp only [Writer.write]
    rw [Collapsed.finish_read_append hs, h.text]
  tidy := h.tidy.append_smooth hs
  anchor := h.anchor.imp fun _ hc => hc.write s

/-- A character that may follow the last one is added to both. -/
theorem push (h : w.Aligned v) {c : Char} (hc : fits w.reversed.head? c = true) :
    (w.push c).Aligned (v.push c) where
  pretty := h.pretty
  compact := h.compact
  text := by
    simp only [Writer.push]
    rw [Collapsed.finish_read_cons hc, h.text]
  tidy := ⟨fun a ha => clash_of_fits (ha ▸ hc), h.tidy⟩
  anchor := h.anchor.imp fun _ hw => hw.push c

/-! ### Spaces and lines -/

/-- A character that is no blank has been written, so neither text is empty. -/
theorem exists_head (h : w.Aligned v) : ∃ a rest, w.reversed = a :: rest := by
  obtain ⟨c, hc, -⟩ := h.anchor
  exact List.exists_cons_of_ne_nil (List.ne_nil_of_mem hc)

/-- In one line a space is due wherever a run may be collapsed to one. -/
theorem reversed_blank (h : w.Aligned v) : v.blank.reversed = (read w.reversed).broken := by
  obtain ⟨c, hc, hblank⟩ := h.anchor
  have hspacing : isSpacing c = false := by
    cases hspacing : isSpacing c with
    | false => rfl
    | true => rw [isBlank_of_isSpacing hspacing] at hblank; cases hblank
  obtain ⟨b, out, hout⟩ := List.exists_cons_of_ne_nil (Collapsed.out_read_ne_nil hc hspacing)
  have hb : isSpacing b = false := Collapsed.isSpacing_head_out (by rw [hout]; rfl)
  have htidily : endsTidily b = (b == '(') := by rw [endsTidily_eq, hb, Bool.false_or]
  have htext := h.text
  unfold finish Collapsed.gap at htext
  unfold Collapsed.broken finish Collapsed.gap
  rw [hout] at htext ⊢
  cases hopen : b == '(' with
  | true =>
    -- No space is due behind an opening parenthesis, and a run there becomes none.
    obtain rfl := beq_iff_eq.mp hopen
    simp only [List.head?_cons, bne_self_eq_false, Bool.and_false, Bool.false_eq_true, if_false]
      at htext ⊢
    rw [blank_of_head v htext, htidily, hopen, if_pos rfl, htext]
  | false =>
    have hne : (some b != some '(') = true :=
      bne_iff_ne.mpr fun h => beq_eq_false_iff_ne.mp hopen (Option.some.inj h)
    simp only [List.head?_cons, hne, Bool.and_true] at htext ⊢
    -- If there is a run at the end it is a space already, and otherwise one is due.
    cases hpending : (read w.reversed).pending with
    | true =>
      rw [hpending, if_pos rfl] at htext
      rw [blank_of_head v htext, if_pos (by rfl), htext, if_pos trivial]
    | false =>
      rw [hpending, if_neg Bool.false_ne_true] at htext
      rw [blank_of_head v htext, htidily, hopen, if_neg Bool.false_ne_true, if_pos trivial]
      exact congrArg (' ' :: ·) htext

/-- A blank is written in both layouts or in none, for they end alike. -/
theorem blank (h : w.Aligned v) : w.blank.Aligned v.blank := by
  obtain ⟨a, rest, ha⟩ := h.exists_head
  have hv := h.reversed_blank
  have hbroken (cs : List Char) (hcs : (read cs).finish = (read w.reversed).broken)
      (htidy : TidyReversed cs) (hanchor : ∃ c, (Writer.mk w.layout cs).Anchor c) :
      (Writer.mk w.layout cs).Aligned v.blank :=
    ⟨h.pretty, (layout_blank v).trans h.compact, hv.trans hcs.symm, htidy, hanchor⟩
  rw [blank_of_head w ha]
  cases hspacing : isSpacing a with
  | true =>
    -- A run has begun already.
    rw [endsTidily_eq, hspacing, Bool.true_or, if_pos rfl]
    refine hbroken w.reversed ?_ h.tidy h.anchor
    rw [ha, Collapsed.finish_read_spacing hspacing, Collapsed.broken,
      Collapsed.read_spacing hspacing]
    rfl
  | false =>
    by_cases hopen : a = '('
    · subst hopen
      rw [if_pos (by rfl)]
      refine hbroken w.reversed ?_ h.tidy h.anchor
      rw [ha, Collapsed.read_solid hspacing]
      rfl
    · rw [endsTidily_eq, hspacing, Bool.false_or, beq_eq_false_iff_ne.mpr hopen,
        if_neg Bool.false_ne_true]
      refine hbroken (' ' :: w.reversed) (Collapsed.finish_read_spacing rfl _) ⟨?_, h.tidy⟩
        (h.anchor.imp fun _ hc => hc.push ' ')
      intro b hb
      rw [ha] at hb
      obtain rfl := Option.some.inj hb
      exact clash_of_fits (by simp [fits, hspacing, hopen])

/-- Something that swallows the spaces in front of it. -/
theorem pushClosing (h : w.Aligned v) {c : Char} (hc : c = ')' ∨ c = ',') :
    (w.trimSpaces.push c).Aligned (v.trimSpaces.push c) where
  pretty := h.pretty
  compact := h.compact
  text := by
    have hspacing : isSpacing c = false := by rcases hc with rfl | rfl <;> rfl
    have hguard (b : Bool) : (b && c != ')' && c != ',') = false := by
      rcases hc with rfl | rfl <;> simp
    simp only [Writer.push, Writer.trimSpaces]
    rw [Collapsed.finish_read_solid hspacing, Collapsed.read_solid hspacing, hguard,
      if_neg Bool.false_ne_true, Collapsed.out_read_dropSpaces, h.text, Collapsed.dropSpaces_finish]
  tidy := by
    -- Behind the spaces that are dropped stands a character that may be followed by the new one.
    refine ⟨fun a ha => ?_, h.tidy.dropWhile _⟩
    obtain ⟨rest, hrest⟩ := List.head?_eq_some_iff.mp ha
    have hspace : a ≠ ' ' := head_trimSpaces hrest
    rcases hc with rfl | rfl <;> simp [clash, hspace]
  anchor := h.anchor.imp fun _ hw => hw.trimSpaces.push c

theorem comma (h : w.Aligned v) : w.comma.Aligned v.comma :=
  (h.pushClosing (Or.inr rfl)).push rfl

theorem closeParenthesis (h : w.Aligned v) : w.closeParenthesis.Aligned v.closeParenthesis :=
  h.pushClosing (Or.inl rfl)

theorem openParenthesis (h : w.Aligned v) : w.openParenthesis.Aligned v.openParenthesis :=
  h.push (fits_of_isSolid (by decide) _)

/-- Tabs may follow where a run has begun. -/
theorem tabs (h : w.Aligned v) {a : Char} {rest : List Char} (ha : w.reversed = a :: rest)
    (hspacing : isSpacing a = true) (depth : Nat) : (w.indent depth).Aligned v := by
  obtain ⟨layout, reversed⟩ := w
  obtain rfl : layout = .pretty := h.pretty
  obtain rfl : reversed = a :: rest := ha
  -- Tabs collapse with the line break in front of them.
  have hread (n : Nat) : read (List.replicate n '\t' ++ a :: rest) = read (a :: rest) := by
    induction n with
    | zero => rfl
    | succ n ih =>
      rw [List.replicate_succ, List.cons_append, Collapsed.read_spacing (by decide), ih,
        Collapsed.read_spacing hspacing]
  have htidy (n : Nat) : TidyReversed (List.replicate n '\t' ++ a :: rest) := by
    induction n with
    | zero => exact h.tidy
    | succ n ih => exact ⟨fun b _ => by simp [clash], ih⟩
  exact {
    pretty := rfl
    compact := h.compact
    text := h.text.trans (congrArg finish (hread depth).symm)
    tidy := htidy depth
    anchor := h.anchor.imp fun _ hc => ⟨List.mem_append_right _ hc.1, hc.2⟩ }

/-- Behind something that is not blank a line break is a character, and in one line a space. -/
theorem lineBreak_eq (h : w.Aligned v) :
    w.lineBreak = w.trimSpaces.push '\n' ∧ v.lineBreak = v.blank := by
  obtain ⟨c, hc⟩ := h.anchor
  refine ⟨?_, ?_⟩
  · rw [hc.lineBreak_eq, h.pretty]
  · unfold Writer.lineBreak
    rw [h.compact]

/-- A line break is a blank in one line, and both collapse to one space. -/
theorem lineBreak (h : w.Aligned v) : w.lineBreak.Aligned v.lineBreak := by
  obtain ⟨hw, hv⟩ := h.lineBreak_eq
  rw [hw, hv]
  refine ⟨h.pretty, (layout_blank v).trans h.compact, ?_, ⟨fun b _ => ?_, h.tidy.dropWhile _⟩,
    h.anchor.imp fun _ hc => hc.trimSpaces.push '\n'⟩
  · -- The line break is the end of a run, as a space is.
    show v.blank.reversed = (read ('\n' :: w.reversed.dropWhile (· == ' '))).finish
    rw [h.reversed_blank, Collapsed.finish_read_spacing rfl, Collapsed.broken, Collapsed.broken,
      finish, finish, Collapsed.gap, Collapsed.gap, Collapsed.out_read_dropSpaces]
  · simp [clash]

/-- A line starts with its tabs. -/
theorem line (h : w.Aligned v) (depth : Nat) :
    (w.lineBreak.indent depth).Aligned (v.lineBreak.indent depth) := by
  have hv : v.lineBreak.indent depth = v.lineBreak := by
    unfold Writer.indent
    rw [h.lineBreak.compact]
  have hw : w.lineBreak.reversed = '\n' :: w.trimSpaces.reversed := by
    rw [h.lineBreak_eq.1]
    rfl
  rw [hv]
  exact h.lineBreak.tabs hw rfl depth

theorem margin (h : w.Aligned v) : (w.indent 0).Aligned (v.indent 0) := by
  have hindent (u : Writer) : u.indent 0 = u := by
    unfold Writer.indent
    split <;> rfl
  rw [hindent, hindent]
  exact h

/-! ### The end of a statement -/

/-- A terminator drops all blanks in front of it, line breaks included. -/
theorem terminate (h : w.Aligned v) {terminator : String} (ht : Text.Smooth terminator) :
    (w.terminate terminator).Aligned (v.terminate terminator) := by
  obtain ⟨c, hc, hblank⟩ := h.anchor
  have hc' : c ∈ w.reversed.dropWhile Text.isBlank := mem_dropWhile_of_stop hblank hc
  have htrimmed : (Writer.mk w.layout (w.reversed.dropWhile Text.isBlank)).Aligned
      ⟨v.layout, v.reversed.dropWhile Text.isBlank⟩ := by
    refine ⟨h.pretty, h.compact, ?_, h.tidy.dropWhile _, c, hc', hblank⟩
    show v.reversed.dropWhile Text.isBlank = _
    rw [h.text, Collapsed.dropBlanks_finish]
  exact htrimmed.write (smooth_of_none ht _)

end Writer.Aligned

end SqlTree
