import SqlTree.Proofs.Text.Trim
import SqlTree.Proofs.Text.Unmarked
import SqlTree.Writer

/-!
# Texts with a solid end

Most calls to a writer look at the last character of its text, and drop it if it is blank or add
nothing behind it if it opens a parenthesis.  A text that ends in anything else, such as a digit or
a letter, has a solid end, and every call leaves it whole.  Behind an opening parenthesis this still
holds of the calls that only drop blank characters.
-/

namespace SqlTree

/-- A text that ends in a character that is not blank and does not open a parenthesis. -/
def EndsSolid (cs : List Char) : Prop :=
  ∃ c rest, cs.reverse = c :: rest ∧ Text.isBlank c = false ∧ Writer.endsTidily c = false

theorem EndsSolid.append {cs : List Char} (h : EndsSolid cs) (front : List Char) :
    EndsSolid (front ++ cs) := by
  obtain ⟨c, rest, hreverse, hc⟩ := h
  refine ⟨c, rest ++ front.reverse, ?_, hc⟩
  rw [List.reverse_append, hreverse, List.cons_append]

/-- A text is solid if it has a character and none of its characters is blank or opens a
parenthesis. -/
theorem endsSolid_of_forall {cs : List Char} (hne : cs ≠ [])
    (h : ∀ c ∈ cs, Text.isBlank c = false ∧ c ≠ '(') : EndsSolid cs := by
  obtain ⟨c, rest, hreverse⟩ := List.exists_cons_of_ne_nil (mt List.reverse_eq_nil_iff.mp hne)
  have hmem : c ∈ cs := by
    rw [← List.mem_reverse, hreverse]
    exact List.mem_cons_self
  obtain ⟨hblank, hopen⟩ := h c hmem
  refine ⟨c, rest, hreverse, hblank, ?_⟩
  simp only [Writer.endsTidily, Bool.or_eq_false_iff, beq_eq_false_iff_ne]
  refine ⟨⟨⟨?_, ?_⟩, ?_⟩, hopen⟩ <;> rintro rfl <;> revert hblank <;> decide

/-! ### Numerals -/

theorem Text.isBlank_eq_false_of_isDigit {c : Char} (h : c.isDigit = true) :
    Text.isBlank c = false := by
  simp only [Char.isDigit, Bool.and_eq_true, decide_eq_true_eq, ge_iff_le,
    UInt32.le_iff_toNat_le] at h
  have hlower : 48 ≤ c.toNat := h.1
  have hupper : c.toNat ≤ 57 := h.2
  simp only [Text.isBlank, Bool.or_eq_false_iff, Bool.and_eq_false_iff, decide_eq_false_iff_not,
    beq_eq_false_iff_ne]
  -- Every blank has a code below that of the first digit or above that of the last.
  omega

theorem Writer.endsTidily_eq_false_of_isDigit {c : Char} (h : c.isDigit = true) :
    Writer.endsTidily c = false := by
  simp only [Writer.endsTidily, Bool.or_eq_false_iff, beq_eq_false_iff_ne]
  refine ⟨⟨⟨?_, ?_⟩, ?_⟩, ?_⟩ <;> rintro rfl <;> revert h <;> decide

/-- A numeral ends in a digit. -/
theorem endsSolid_toString (n : Nat) : EndsSolid (toString n).toList := by
  have hne : (toString n).toList ≠ [] := by
    rw [Nat.toString_eq_repr, Nat.toList_repr]
    exact Nat.toDigits_ne_nil
  obtain ⟨c, rest, hreverse⟩ := List.exists_cons_of_ne_nil (mt List.reverse_eq_nil_iff.mp hne)
  have hdigit : c.isDigit = true := by
    refine Text.isDigit_of_mem_toString (n := n) (List.mem_reverse.mp ?_)
    rw [hreverse]
    exact List.mem_cons_self
  exact ⟨c, rest, hreverse, Text.isBlank_eq_false_of_isDigit hdigit,
    Writer.endsTidily_eq_false_of_isDigit hdigit⟩

theorem endsSolid_numeral (s : String) (n : Nat) : EndsSolid (s ++ toString n).toList := by
  rw [String.toList_append]
  exact (endsSolid_toString n).append s.toList

/-! ### Writers -/

/-- What separates two lines: a line break, or a space if all stands on one line. -/
def Layout.separator : Layout → Char
  | .pretty => '\n'
  | .compact => ' '

namespace Writer

variable (w : Writer)

theorem blank_of_nil (h : w.reversed = []) : w.blank = w := by
  rw [blank, h]

/-- A blank is written unless the text ends in one, or in an opening parenthesis. -/
theorem blank_of_head {c : Char} {rest : List Char} (h : w.reversed = c :: rest) :
    w.blank = if endsTidily c then w else w.push ' ' := by
  rw [blank, h]

/-- Two blanks are as good as one. -/
theorem blank_blank : w.blank.blank = w.blank := by
  cases hreversed : w.reversed with
  | nil => rw [blank_of_nil w hreversed, blank_of_nil w hreversed]
  | cons c rest =>
    have hblank := blank_of_head w hreversed
    -- A space was already there, or it is now.
    cases hc : endsTidily c with
    | true =>
      rw [hc, if_pos rfl] at hblank
      rw [hblank, hblank]
    | false =>
      rw [hc, if_neg Bool.false_ne_true] at hblank
      rw [hblank]
      rfl

/-- What a line break does behind a text that is more than spaces. -/
theorem lineBreak_of_ne_nil (h : w.trimSpaces.reversed ≠ []) :
    w.lineBreak = match w.layout with
      | .pretty => w.trimSpaces.push '\n'
      | .compact => w.blank := by
  unfold lineBreak
  cases w.layout with
  | pretty => exact if_neg h
  | compact => rfl

/-- Behind a line break no space is due. -/
theorem blank_lineBreak : w.lineBreak.blank = w.lineBreak := by
  obtain ⟨layout, reversed⟩ := w
  cases layout with
  | compact => exact blank_blank _
  | pretty =>
    show (if _ then _ else _ : Writer).blank = if _ then _ else _
    split
    · next hnil => exact blank_of_nil _ hnil
    · rfl

/-- The text of a writer does not end in a blank character. -/
def Unpadded (w : Writer) : Prop := ∀ c ∈ w.text.getLast?, Text.isBlank c = false

/-- The text of a writer has a solid end. -/
def Solid (w : Writer) : Prop := EndsSolid w.text

variable {w}

/-- A text that does not end in a blank has no spaces to drop. -/
theorem Unpadded.trimSpaces (h : w.Unpadded) : w.trimSpaces = w := by
  rw [Unpadded, text, List.getLast?_reverse] at h
  -- An empty text has no spaces either.
  cases hreversed : w.reversed with
  | nil => rw [Writer.trimSpaces, hreversed, List.dropWhile_nil, ← hreversed]
  | cons c rest =>
    have hblank : Text.isBlank c = false := h c (by rw [hreversed]; rfl)
    have hspace : (c == ' ') = false := by
      rw [beq_eq_false_iff_ne]
      rintro rfl
      revert hblank
      decide
    rw [Writer.trimSpaces, hreversed, List.dropWhile_cons, hspace, if_neg Bool.false_ne_true,
      ← hreversed]

/-- A terminator stands directly behind a text that does not end in a blank. -/
theorem Unpadded.text_terminate (h : w.Unpadded) (terminator : String) :
    (w.terminate terminator).text = w.text ++ terminator.toList := by
  rw [Writer.text_terminate, Text.trimEnd_of_last h]

/-- What is written last decides how the text ends. -/
theorem unpadded_write {s : String} (hne : s ≠ "")
    (h : ∀ c ∈ s.toList.getLast?, Text.isBlank c = false) : (w.write s).Unpadded := by
  have hlast := List.getLast?_eq_some_getLast (mt String.toList_eq_nil_iff.mp hne)
  intro c hc
  rw [text_write, List.getLast?_append, hlast, Option.some_or, ← hlast] at hc
  exact h c hc

theorem unpadded_openParenthesis : w.openParenthesis.Unpadded := by
  intro c hc
  rw [text_openParenthesis, List.getLast?_concat] at hc
  cases hc
  decide

theorem solid_write {s : String} (hs : EndsSolid s.toList) : (w.write s).Solid := by
  rw [Solid, text_write]
  exact hs.append w.text

theorem solid_closeParenthesis : w.closeParenthesis.Solid := by
  rw [Solid, text_closeParenthesis]
  exact EndsSolid.append ⟨')', [], rfl, by decide, by decide⟩ _

/-- A solid text is not empty, and behind its last character a blank may stand. -/
theorem Solid.head (h : w.Solid) :
    ∃ c rest, w.reversed = c :: rest ∧ Text.isBlank c = false ∧ endsTidily c = false := by
  rwa [Solid, EndsSolid, text, List.reverse_reverse] at h

theorem Solid.unpadded (h : w.Solid) : w.Unpadded := by
  obtain ⟨c, rest, hreversed, hblank, -⟩ := h.head
  intro c' hc'
  rw [text, List.getLast?_reverse, hreversed] at hc'
  cases hc'
  exact hblank

theorem Solid.trimSpaces (h : w.Solid) : w.trimSpaces = w := h.unpadded.trimSpaces

theorem Solid.blank (h : w.Solid) : w.blank = w.push ' ' := by
  obtain ⟨c, rest, hreversed, -, htidy⟩ := h.head
  rw [blank_of_head w hreversed, htidy, if_neg Bool.false_ne_true]

/-- A line break adds just the separator. -/
theorem Solid.text_lineBreak (h : w.Solid) :
    w.lineBreak.text = w.text ++ [w.layout.separator] := by
  obtain ⟨c, rest, hreversed, -⟩ := h.head
  have hne : w.trimSpaces.reversed ≠ [] := by
    rw [h.trimSpaces, hreversed]
    exact List.cons_ne_nil c rest
  rw [lineBreak_of_ne_nil w hne, h.trimSpaces, h.blank]
  cases w.layout with
  | pretty => exact text_push _ _
  | compact => exact text_push _ _

/-- A terminator is added and takes no place. -/
theorem Solid.text_terminate (h : w.Solid) (terminator : String) :
    (w.terminate terminator).text = w.text ++ terminator.toList :=
  h.unpadded.text_terminate terminator

/-- Behind a solid text a terminator is solid, or there is none. -/
theorem Solid.terminate (h : w.Solid) {terminator : String}
    (hterminator : ∀ c ∈ terminator.toList, Text.isBlank c = false ∧ c ≠ '(') :
    (w.terminate terminator).Solid := by
  rw [Solid, h.text_terminate]
  by_cases hnil : terminator.toList = []
  · rwa [hnil, List.append_nil]
  · exact (endsSolid_of_forall hnil hterminator).append w.text

end Writer

end SqlTree
