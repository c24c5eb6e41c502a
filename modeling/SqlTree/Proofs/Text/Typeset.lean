import SqlTree.Proofs.Text.Trim
import SqlTree.Writer

/-!
# Texts made of parts

A writer drops blank characters at the end of its text and adds some, and so a text is not just the
parts that it was given, one after another.  `Text.Typeset parts cs` says what is left of this: `cs`
has all parts in their order, with blank characters missing at the end of a part or standing in
front of the next.  Every call to a writer keeps its text typeset (`Writer.typeset_apply`), whatever
the parts are.
-/

namespace SqlTree

namespace Text

/-- A text that has all parts in their order.  Blank characters may be missing at the end of a part,
and may stand in front of a part and at the end of the text. -/
def Typeset : List String → List Char → Prop
  | [], cs => ∀ c ∈ cs, isBlank c = true
  | part :: rest, cs =>
    ∃ gap kept dropped more, cs = gap ++ (kept ++ more) ∧ part.toList = kept ++ dropped ∧
      (∀ c ∈ gap, isBlank c = true) ∧ (∀ c ∈ dropped, isBlank c = true) ∧ Typeset rest more

variable {parts : List String} {cs : List Char} {c : Char}

theorem typeset_nil : Typeset [] [] := fun _ h => absurd h List.not_mem_nil

/-- What is written behind a text is one more part. -/
theorem Typeset.write (h : Typeset parts cs) (s : String) :
    Typeset (parts ++ [s]) (cs ++ s.toList) := by
  induction parts generalizing cs with
  | nil =>
    have hnone : ∀ c ∈ ([] : List Char), isBlank c = true := fun _ h => absurd h List.not_mem_nil
    refine ⟨cs, s.toList, [], [], ?_, (List.append_nil _).symm, h, hnone, hnone⟩
    rw [List.append_nil]
  | cons part rest ih =>
    obtain ⟨gap, kept, dropped, more, rfl, hpart, hgap, hdropped, hmore⟩ := h
    refine ⟨gap, kept, dropped, more ++ s.toList, ?_, hpart, hgap, hdropped, ih hmore⟩
    rw [List.append_assoc, List.append_assoc]

/-- A blank character may be added at the end. -/
theorem Typeset.pad (h : Typeset parts cs) (hc : isBlank c = true) : Typeset parts (cs ++ [c]) := by
  -- The blank is put behind the last of the parts.
  induction parts generalizing cs with
  | nil =>
    intro x hx
    rcases List.mem_append.mp hx with hx | hx
    · exact h x hx
    · obtain rfl := List.mem_singleton.mp hx
      exact hc
  | cons part rest ih =>
    obtain ⟨gap, kept, dropped, more, rfl, hpart, hgap, hdropped, hmore⟩ := h
    refine ⟨gap, kept, dropped, more ++ [c], ?_, hpart, hgap, hdropped, ih hmore⟩
    rw [List.append_assoc, List.append_assoc]

/-- A blank character may be dropped at the end, of a part or of the space behind it. -/
theorem Typeset.drop (h : Typeset parts (cs ++ [c])) (hc : isBlank c = true) :
    Typeset parts cs := by
  induction parts generalizing cs with
  | nil => exact fun x hx => h x (List.mem_append_left _ hx)
  | cons part rest ih =>
    obtain ⟨gap, kept, dropped, more, hcs, hpart, hgap, hdropped, hmore⟩ := h
    -- The last character is that of the parts behind, or of this part, or of the space before it.
    rcases List.eq_nil_or_concat more with rfl | ⟨more, x, rfl⟩
    · rw [List.append_nil] at hcs
      rcases List.eq_nil_or_concat kept with rfl | ⟨kept, x, rfl⟩
      · rw [List.append_nil] at hcs
        refine ⟨cs, [], dropped, [], (List.append_nil _).symm, hpart, fun x hx => hgap x ?_,
          hdropped, hmore⟩
        rw [← hcs]
        exact List.mem_append_left _ hx
      · rw [List.concat_eq_append, ← List.append_assoc] at hcs
        obtain ⟨rfl, hx⟩ := List.append_inj' hcs rfl
        obtain rfl := List.singleton_inj.mp hx
        refine ⟨gap, kept, c :: dropped, [], by rw [List.append_nil], ?_, hgap,
          List.forall_mem_cons.mpr ⟨hc, hdropped⟩, hmore⟩
        rw [hpart, List.concat_eq_append, List.append_assoc]
        rfl
    · rw [List.concat_eq_append, ← List.append_assoc, ← List.append_assoc] at hcs
      obtain ⟨rfl, hx⟩ := List.append_inj' hcs rfl
      obtain rfl := List.singleton_inj.mp hx
      rw [List.concat_eq_append] at hmore
      exact ⟨gap, kept, dropped, more, List.append_assoc _ _ _, hpart, hgap, hdropped, ih hmore⟩

/-- Blank characters may be dropped at the end of a text, which is given last character first. -/
theorem Typeset.dropWhile {p : Char → Bool} (hp : ∀ c, p c = true → isBlank c = true)
    {reversed : List Char} (h : Typeset parts reversed.reverse) :
    Typeset parts (reversed.dropWhile p).reverse := by
  induction reversed with
  | nil => exact h
  | cons c rest ih =>
    rw [List.dropWhile_cons]
    split
    · next hc =>
      rw [List.reverse_cons] at h
      exact ih (h.drop (hp c hc))
    · exact h

end Text

namespace Writer

open Text (Typeset)

/-- The texts that a call writes. -/
def Step.parts : Step → List String
  | .write s => [s]
  | .print parts => parts
  | .blank | .lineBreak | .indent _ => []
  | .comma => [","]
  | .openParenthesis => ["("]
  | .closeParenthesis => [")"]
  | .terminate terminator => [terminator]

variable {parts : List String} {w : Writer}

/-- A text that is written is one more part, with nothing in front of it. -/
theorem typeset_write (h : Typeset parts w.text) (s : String) :
    Typeset (parts ++ [s]) (w.write s).text := by
  rw [text_write]
  exact h.write s

theorem typeset_print (h : Typeset parts w.text) (more : List String) :
    Typeset (parts ++ more) (more.foldl write w).text := by
  induction more generalizing parts w with
  | nil => rwa [List.append_nil]
  | cons s rest ih =>
    have hrest := ih (typeset_write h s)
    rwa [List.append_assoc] at hrest

/-- Spaces at the end are dropped from the gaps, or from the end of a part. -/
theorem typeset_trimSpaces (h : Typeset parts w.text) : Typeset parts w.trimSpaces.text := by
  refine Typeset.dropWhile (fun c hc => ?_) h
  obtain rfl : c = ' ' := beq_iff_eq.mp hc
  decide

theorem typeset_push (h : Typeset parts w.text) {c : Char} (hc : Text.isBlank c = true) :
    Typeset parts (w.push c).text := by
  rw [text_push]
  exact h.pad hc

theorem typeset_blank (h : Typeset parts w.text) : Typeset parts w.blank.text :=
  blank_induction h (typeset_push h (by decide))

theorem typeset_lineBreak (h : Typeset parts w.text) : Typeset parts w.lineBreak.text := by
  have htrimmed := typeset_trimSpaces h
  exact lineBreak_induction htrimmed (typeset_push htrimmed (by decide)) (typeset_blank h)

theorem typeset_tabs (h : Typeset parts w.text) (depth : Nat) :
    Typeset parts (List.replicate depth '\t' ++ w.reversed).reverse := by
  induction depth with
  | zero => exact h
  | succ depth ih =>
    rw [List.replicate_succ, List.cons_append, List.reverse_cons]
    exact ih.pad (by decide)

theorem typeset_indent (h : Typeset parts w.text) (depth : Nat) :
    Typeset parts (w.indent depth).text := indent_induction h (typeset_tabs h depth)

/-- What a call writes is typeset behind the text so far. -/
theorem typeset_apply (h : Typeset parts w.text) (s : Step) :
    Typeset (parts ++ s.parts) (w.apply s).text := by
  -- Each step writes its parts, and drops and adds blanks.
  cases s with
  | write s => exact typeset_write h s
  | print more => exact typeset_print h more
  | blank =>
    rw [Step.parts, List.append_nil]
    exact typeset_blank h
  | lineBreak =>
    rw [Step.parts, List.append_nil]
    exact typeset_lineBreak h
  | indent depth =>
    rw [Step.parts, List.append_nil]
    exact typeset_indent h depth
  | comma => exact typeset_push (typeset_write (typeset_trimSpaces h) ",") (by decide)
  | openParenthesis => exact typeset_write h "("
  | closeParenthesis => exact typeset_write (typeset_trimSpaces h) ")"
  | terminate terminator =>
    have htrimmed : Typeset parts
        (Writer.mk w.layout (w.reversed.dropWhile Text.isBlank)).text :=
      Typeset.dropWhile (fun _ hc => hc) h
    exact typeset_write htrimmed terminator

end Writer

end SqlTree
