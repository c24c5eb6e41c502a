import SqlTree.Proofs.Text.Solid
import SqlTree.Writer

/-!
# Counting a character of a text

A writer keeps blanks tidy, and so drops and adds blank characters; beyond these it adds commas and
parentheses.  Any other character is a mark: a call to the writer adds those marks that stand in the
texts it is given, and drops none (`Writer.count_apply`).
-/

namespace SqlTree

/-- Dropping what is no mark keeps the count. -/
theorem count_dropWhile {α : Type} [BEq α] [LawfulBEq α] {p : α → Bool} {a : α}
    (ha : p a = false) (l : List α) : (l.dropWhile p).count a = l.count a := by
  induction l with
  | nil => rfl
  | cons b rest ih =>
    rw [List.dropWhile_cons]
    split
    · next hb =>
      have hne : b ≠ a := by
        rintro rfl
        rw [ha] at hb
        cases hb
      rw [ih, List.count_cons_of_ne hne]
    · rfl

namespace Writer

/-- A character that a writer neither drops nor adds of its own accord. -/
def IsMark (mark : Char) : Prop := Text.isBlank mark = false ∧ mark ∉ [',', '(', ')']

instance (mark : Char) : Decidable (IsMark mark) := inferInstanceAs (Decidable (_ ∧ _))

/-- How often a character stands in the texts that a call is given. -/
def Step.count (mark : Char) : Step → Nat
  | .write s | .terminate s => s.toList.count mark
  | .print parts => (parts.flatMap String.toList).count mark
  | .blank | .comma | .lineBreak | .indent _ | .openParenthesis | .closeParenthesis => 0

/-- How often a character stands in the text so far. -/
def count (mark : Char) (w : Writer) : Nat := w.reversed.count mark

variable {mark : Char} (w : Writer)

theorem count_text : w.text.count mark = w.count mark := List.count_reverse

theorem count_push {c : Char} (hc : c ≠ mark) : (w.push c).count mark = w.count mark :=
  List.count_cons_of_ne hc

theorem count_write (s : String) : (w.write s).count mark = w.count mark + s.toList.count mark := by
  rw [← count_text, text_write, List.count_append, count_text]

theorem count_print (parts : List String) :
    (parts.foldl write w).count mark = w.count mark + (parts.flatMap String.toList).count mark := by
  induction parts generalizing w with
  | nil => rfl
  | cons s rest ih =>
    rw [List.foldl_cons, ih, count_write, List.flatMap_cons, List.count_append, Nat.add_assoc]

variable (hmark : IsMark mark)
include hmark

omit w in
/-- Marks are neither blank nor punctuation, so a step writes none of its own. -/
theorem IsMark.ne {c : Char} (hc : Text.isBlank c = true ∨ c ∈ [',', '(', ')']) : c ≠ mark := by
  rintro rfl
  rcases hc with hc | hc
  · exact absurd (hmark.1.symm.trans hc) Bool.false_ne_true
  · exact hmark.2 hc

theorem count_trimSpaces : w.trimSpaces.count mark = w.count mark := by
  have hspace : mark ≠ ' ' := (hmark.ne (.inl (by decide))).symm
  exact count_dropWhile (p := (· == ' ')) (beq_eq_false_iff_ne.mpr hspace) w.reversed

theorem count_blank : w.blank.count mark = w.count mark :=
  blank_induction rfl (w.count_push (hmark.ne (.inl (by decide))))

theorem count_comma : w.comma.count mark = w.count mark := by
  rw [comma, count_push _ (hmark.ne (.inl (by decide))), count_push _ (hmark.ne (.inr (by decide))),
    w.count_trimSpaces hmark]

theorem count_lineBreak : w.lineBreak.count mark = w.count mark := by
  refine lineBreak_induction (w.count_trimSpaces hmark) ?_ (w.count_blank hmark)
  rw [count_push _ (hmark.ne (.inl (by decide))), w.count_trimSpaces hmark]

theorem count_indent (depth : Nat) : (w.indent depth).count mark = w.count mark := by
  refine indent_induction rfl ?_
  have htabs : mark ∉ List.replicate depth '\t' :=
    fun h => hmark.ne (.inl (by decide)) (List.eq_of_mem_replicate h).symm
  show (List.replicate depth '\t' ++ w.reversed).count mark = _
  rw [List.count_append, List.count_eq_zero.mpr htabs, Nat.zero_add, count]

theorem count_terminate (terminator : String) :
    (w.terminate terminator).count mark = w.count mark + terminator.toList.count mark := by
  rw [terminate, count_write]
  exact congrArg (· + _) (count_dropWhile hmark.1 w.reversed)

/-- A call adds the marks in the texts that it is given. -/
theorem count_apply (s : Step) : (w.apply s).count mark = w.count mark + s.count mark := by
  -- Each step adds the marks of the texts that it is given.
  cases s with
  | write s => exact w.count_write s
  | print parts => exact w.count_print parts
  | blank => exact w.count_blank hmark
  | comma => exact w.count_comma hmark
  | lineBreak => exact w.count_lineBreak hmark
  | indent depth => exact w.count_indent hmark depth
  | openParenthesis => exact w.count_push (hmark.ne (.inr (by decide)))
  | closeParenthesis =>
    exact (count_push _ (hmark.ne (.inr (by decide)))).trans (w.count_trimSpaces hmark)
  | terminate terminator => exact w.count_terminate hmark terminator

end Writer

end SqlTree
