import SqlTree.Proofs.Condition.Depth
import SqlTree.Proofs.Draft.Local
import SqlTree.Proofs.Draft.Endings

/-!
# How conditions are indented

Main statement, `Conditions.sequence_indentation`: with lines kept apart, each item of a properly
nested sequence of conditions but the first starts on a line of its own behind as many tabs as
groups are open there, and both markers of a group stand behind the same number of tabs.

A line break takes the spaces at the end of the text, and writes nothing if there is nothing else.
So it is kept through the whole sequence that something else has been written (`Writer.Inked`).
-/

namespace SqlTree

open Draft

/-! ### Texts of more than spaces -/

namespace Writer

/-- Something has been written that is not a space. -/
def Inked (w : Writer) : Prop := ∃ c ∈ w.reversed, c ≠ ' '

variable {w : Writer}

/-- Once a character that is no space has been written, one stays: steps drop spaces at the end, and
only a terminator drops more. -/
theorem Inked.push (h : w.Inked) (c : Char) : (w.push c).Inked := by
  obtain ⟨x, hx, hne⟩ := h
  exact ⟨x, List.mem_cons_of_mem c hx, hne⟩

theorem Inked.write (h : w.Inked) (s : String) : (w.write s).Inked := by
  obtain ⟨x, hx, hne⟩ := h
  exact ⟨x, List.mem_append_right _ hx, hne⟩

theorem Inked.trimSpaces (h : w.Inked) : w.trimSpaces.Inked := by
  obtain ⟨x, hx, hne⟩ := h
  exact ⟨x, mem_dropWhile_of_stop (p := (· == ' ')) (by simpa using hne) hx, hne⟩

theorem Inked.blank (h : w.Inked) : w.blank.Inked := blank_induction h (h.push ' ')

/-- A line break is written even if only spaces have been written since the last one. -/
theorem Inked.lineBreak_eq (h : w.Inked) (hlayout : w.layout = .pretty) :
    w.lineBreak = w.trimSpaces.push '\n' := by
  obtain ⟨x, hx, -⟩ := h.trimSpaces
  rw [lineBreak_of_ne_nil w (List.ne_nil_of_mem hx), hlayout]

theorem Inked.lineBreak (h : w.Inked) : w.lineBreak.Inked :=
  lineBreak_induction h.trimSpaces (h.trimSpaces.push '\n') h.blank

theorem Inked.indent (h : w.Inked) (depth : Nat) : (w.indent depth).Inked := by
  refine indent_induction h ?_
  obtain ⟨x, hx, hne⟩ := h
  exact ⟨x, List.mem_append_right _ hx, hne⟩

theorem Inked.print (h : w.Inked) (parts : List String) : (parts.foldl Writer.write w).Inked := by
  induction parts generalizing w with
  | nil => exact h
  | cons s rest ih => exact ih (h.write s)

/-- Only the end of a statement takes back more than spaces. -/
theorem Inked.apply (w : Writer) (s : Step) (hs : s.Ends fun _ => False) (h : w.Inked) :
    (w.apply s).Inked := by
  -- Every step but a terminator keeps what has been written, up to spaces at the end.
  cases s with
  | write s => exact h.write s
  | print parts => exact h.print parts
  | blank => exact h.blank
  | comma => exact (h.trimSpaces.push ',').push ' '
  | lineBreak => exact h.lineBreak
  | indent depth => exact h.indent depth
  | openParenthesis => exact h.push '('
  | closeParenthesis => exact h.trimSpaces.push ')'
  | terminate terminator => exact hs.elim

theorem text_indent (h : w.layout = .pretty) (depth : Nat) :
    (w.indent depth).text = w.text ++ List.replicate depth '\t' := by
  unfold Writer.indent
  rw [h, text, text, List.reverse_append, List.reverse_replicate]

theorem indent_zero (w : Writer) : w.indent 0 = w := by
  unfold indent
  split <;> rfl

end Writer

/-! ### Sequences of conditions -/

namespace Conditions

variable (d : Dialect)

/-- What is written for the first items of a sequence of conditions. -/
def lines (front : Conditions) : Draft :=
  itemLines 0 true (front.zip (front.map (Expression.draft d)))

/-- What is written between the first items of a sequence and the next one: a line break, unless
there are none, and the indentation. -/
def lineStart (front : Conditions) (depth : Nat) : Draft :=
  (if front.isEmpty then empty else lineBreak) ++ step (.indent depth)

theorem ends_lines (P : String → Prop) (front : Conditions) : (lines d front).Ends P :=
  (ends_stepwise d P).itemLines (fun _ => rfl) fun e _ _ => e.ends_draft d P

/-- A properly nested sequence is written line by line, from every item on at the depth that those
in front of it lead to. -/
theorem draft_eq_lines {front rest : Conditions} {item : Expression}
    (h : balanced (front ++ item :: rest) = true) :
    (Expression.conditions (front ++ item :: rest)).draft d =
      lines d front ++ lineStart front (item.marginAt (depthFrom 0 front)) ++
        itemDraft item (item.draft d) ++
        itemLines (item.depthBehind (depthFrom 0 front)) false
          (rest.zip (rest.map (Expression.draft d))) := by
  have hitems : (front.zip (front.map (Expression.draft d))).map (·.1) = front := by
    rw [zip_map_self, List.map_map]
    exact List.map_id front
  have hempty : (front.zip (front.map (Expression.draft d))).isEmpty = front.isEmpty := by
    rw [zip_map_self, List.isEmpty_map]
  have hlength : front.length = (front.map (Expression.draft d)).length := by
    rw [List.length_map]
  -- The lines of a sequence are those in front of the item, that of the item, and those behind it.
  rw [Expression.draft_conditions, sequenceDraft, ensure, if_pos h, empty_append, List.map_append,
    List.zip_append hlength, itemLines_append, hitems, hempty, Bool.true_and, List.map_cons,
    List.zip_cons_cons, lineStart, lines]
  simp only [itemLines, append_assoc]
  rfl

/-- What the statement is in front of an item, if it is `b` behind the item before. -/
theorem addTo_lineStart {a b : Assembly} {front : Conditions} (hpretty : a.writer.layout = .pretty)
    (hinked : a.writer.Inked) (h : (lines d front).addTo d a = .ok b) (depth : Nat) :
    ∃ c, (lineStart front depth).addTo d b = .ok c ∧
      (front ≠ [] →
        c.writer.text = b.writer.trimSpaces.text ++ '\n' :: List.replicate depth '\t') := by
  have hlayout : b.writer.layout = .pretty := (layout_addTo h).trans hpretty
  have hb : b.writer.Inked := (ends_lines d _ front).keeps Writer.Inked.apply h hinked
  -- There is no line break in front of the first item.
  cases front with
  | nil => exact ⟨_, rfl, fun hne => absurd rfl hne⟩
  | cons item rest =>
    refine ⟨_, rfl, fun _ => ?_⟩
    show (b.writer.lineBreak.indent depth).text = _
    have hbroken : b.writer.lineBreak.layout = .pretty :=
      (b.writer.layout_apply .lineBreak).trans hlayout
    rw [Writer.text_indent hbroken, hb.lineBreak_eq hlayout, Writer.text_push, List.append_assoc]
    rfl

/-- How an item of a sequence of conditions is written between those in front of it and the rest. -/
structure Indented (front : Conditions) (item : Expression) (rest : Conditions) (n : Nat) :
    Prop where
  /-- Its depth, a difference that might be negative, is `n`. -/
  depth : margin front item = n
  /-- The first item stands at the margin. -/
  first : front = [] → n = 0
  /-- The depth that is counted while the sequence is written is not taken below zero. -/
  counted : item.closesGroup = true → 0 < depthFrom 0 front
  /-- The sequence is written up to the item, then the item, and then the rest, with the depth that
  has been counted so far. -/
  written : (Expression.conditions (front ++ item :: rest)).draft d =
    lines d front ++ lineStart front n ++ itemDraft item (item.draft d) ++
      itemLines (item.depthBehind (depthFrom 0 front)) false
        (rest.zip (rest.map (Expression.draft d)))
  /-- If lines are kept apart, and something but spaces is written already, then in front of the
  item the text ends in a line break, in place of the spaces behind the item before, and in `n`
  tabs; in front of the first item nothing is written. -/
  text : ∀ a b, a.writer.layout = .pretty → (∃ c ∈ a.writer.text, c ≠ ' ') →
    (lines d front).addTo d a = .ok b → ∃ c, (lineStart front n).addTo d b = .ok c ∧
      (front = [] → c = a) ∧ (front ≠ [] →
        c.writer.text = b.writer.trimSpaces.text ++ '\n' :: List.replicate n '\t')

/-- An item of a sequence stands at the depth that the markers in front of it lead to. -/
theorem indented_of_balanced {front rest : Conditions} {item : Expression}
    (h : balanced (front ++ item :: rest) = true) :
    Indented d front item rest (item.marginAt (depthFrom 0 front)) := by
  obtain ⟨hmargin, hpos⟩ := margin_eq h
  have hfirst : front = [] → item.marginAt (depthFrom 0 front) = 0 := by
    rintro rfl
    rw [Expression.marginAt]
    split <;> rfl
  refine ⟨hmargin, hfirst, hpos, draft_eq_lines d h, fun a b hpretty htext hb => ?_⟩
  have hinked : a.writer.Inked := by
    obtain ⟨x, hx, hne⟩ := htext
    exact ⟨x, List.mem_reverse.mp hx, hne⟩
  obtain ⟨c, hc, hline⟩ := addTo_lineStart d hpretty hinked hb (item.marginAt (depthFrom 0 front))
  refine ⟨c, hc, ?_, hline⟩
  -- In front of the first item there is no line break, and its depth is zero.
  rintro rfl
  rw [hfirst rfl] at hc
  cases hb
  cases hc
  exact congrArg (Assembly.mk · a.arguments a.index) a.writer.indent_zero

/-- **Conditions are indented by the groups that are open.** Take a properly nested sequence of
conditions, of any length and with any items.  The depth of an item, which is the number of markers
that open a group in front of it less the number of those that close one up to the item itself, is
never negative, and zero for the first item.  It is the number of tabs that the line of the item
starts with, behind one line break.  The depth that is counted while the sequence is written is
never taken below zero, and is zero behind the last item.  Every group that is opened is closed
later, and its two markers stand at the same depth. -/
theorem sequence_indentation {items : Conditions} (h : balanced items = true) :
    (∀ front item rest, items = front ++ item :: rest → ∃ n, Indented d front item rest n) ∧
      depthFrom 0 items = 0 ∧
      ∀ front opening rest, items = front ++ opening :: rest → opening.opensGroup = true →
        (∃ between closing behind, rest = between ++ closing :: behind ∧
          closing.closesGroup = true ∧ balanced between = true) ∧
        ∀ between closing behind, rest = between ++ closing :: behind →
          closing.closesGroup = true → balanced between = true →
          margin (front ++ opening :: between) closing = margin front opening := by
  refine ⟨?_, depthFrom_of_balanced h, ?_⟩
  · rintro front item rest rfl
    exact ⟨_, indented_of_balanced d h⟩
  · rintro front opening rest rfl hopens
    refine ⟨exists_closing h hopens, fun between closing behind _ hcloses hbetween => ?_⟩
    exact margin_closing_eq hopens hcloses hbetween

/-- A condition in the inner one of two groups stands behind two tabs. -/
theorem sequence_indentation_nested :
    let front : Conditions := [.openGroup, .column "a", .operator .or, .openGroup]
    let items : Conditions := front ++ [.column "b", .closeGroup, .closeGroup]
    let a : Assembly := { writer := Writer.write { layout := .pretty } "WHERE\n" }
    balanced items = true ∧
      ∃ b c, (lines .ansi front).addTo .ansi a = .ok b ∧
        (lineStart front 2).addTo .ansi b = .ok c ∧
        c.writer.text = "WHERE\n(\n\ta\n\tOR\n\t(\n\t\t".toList := by
  intro front items a
  have hbalanced : balanced items = true := by decide
  obtain ⟨hitems, -, -⟩ := sequence_indentation .ansi hbalanced
  obtain ⟨n, hindented⟩ := hitems front (.column "b") [.closeGroup, .closeGroup] rfl
  obtain rfl : n = 2 := Int.ofNat.inj (hindented.depth.symm.trans (by decide))
  obtain ⟨c, hc, -, htext⟩ := hindented.text a _ rfl ⟨'W', by decide, by decide⟩ rfl
  exact ⟨hbalanced, _, c, rfl, hc, htext (List.cons_ne_nil _ _)⟩

end Conditions

end SqlTree
