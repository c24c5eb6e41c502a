import SqlTree.Template

/-!
# Templates cut at their placeholders

A `Cut` takes a text apart into literals and identifiers that stand between braces.  It is proper if
no literal has an opening brace and no identifier a closing one; every other brace is free.  A text
has at most one proper cut (`Cut.Proper.eq_of_text_eq`), and it has one unless there is an opening
brace that is never closed (`exists_proper_cut`).
-/

namespace SqlTree.Template

/-- A placeholder of a template and the literal text in front of it. -/
structure Hole where
  /-- The text in front. -/
  literal : List Char
  /-- What stands between the braces. -/
  identifier : List Char

/-- The name in a placeholder: its identifier without blank ends. -/
def Hole.name (h : Hole) : String := String.ofList (Text.trim h.identifier)

/-- A placeholder as it is written, behind its literal. -/
def Hole.text (h : Hole) : List Char :=
  h.literal ++ openBrace :: (h.identifier ++ [closeBrace])

/-- A text cut at placeholders. -/
structure Cut where
  /-- The placeholders, each with the literal in front of it. -/
  holes : List Hole
  /-- The literal behind the last placeholder. -/
  last : List Char

/-- The text that is cut. -/
def Cut.text (c : Cut) : List Char := c.holes.flatMap Hole.text ++ c.last

/-- A cut at the first opening brace behind each placeholder and the first closing one behind that.
-/
structure Cut.Proper (c : Cut) : Prop where
  /-- No literal in front of a placeholder has an opening brace. -/
  literals : ∀ h ∈ c.holes, openBrace ∉ h.literal
  /-- No identifier has a closing brace. -/
  identifiers : ∀ h ∈ c.holes, closeBrace ∉ h.identifier
  /-- The last literal has no opening brace. -/
  last : openBrace ∉ c.last

/-- A proper cut of a text. -/
def Cut.Cuts (c : Cut) (cs : List Char) : Prop := c.Proper ∧ c.text = cs

namespace Cut

variable {h : Hole} {holes : List Hole} {last : List Char}

theorem text_nil : text ⟨[], last⟩ = last := rfl

theorem text_cons : text ⟨h :: holes, last⟩ = h.text ++ text ⟨holes, last⟩ := by
  simp only [text, List.flatMap_cons, List.append_assoc]

theorem text_cons_eq :
    text ⟨h :: holes, last⟩ =
      h.literal ++ openBrace :: (h.identifier ++ closeBrace :: text ⟨holes, last⟩) := by
  simp only [text_cons, Hole.text, List.append_assoc, List.cons_append, List.nil_append]

theorem proper_cons_iff :
    Proper ⟨h :: holes, last⟩ ↔
      openBrace ∉ h.literal ∧ closeBrace ∉ h.identifier ∧ Proper ⟨holes, last⟩ := by
  constructor
  · rintro ⟨hliterals, hidentifiers, hlast⟩
    rw [List.forall_mem_cons] at hliterals hidentifiers
    exact ⟨hliterals.1, hidentifiers.1, hliterals.2, hidentifiers.2, hlast⟩
  · rintro ⟨hliteral, hidentifier, hliterals, hidentifiers, hlast⟩
    exact ⟨List.forall_mem_cons.mpr ⟨hliteral, hliterals⟩,
      List.forall_mem_cons.mpr ⟨hidentifier, hidentifiers⟩, hlast⟩

/-! ### One cut -/

/-- A text is cut in one way at the first occurrence of a character. -/
theorem append_cons_inj {α : Type} {a : α} {x y s t : List α} (hx : a ∉ x) (hy : a ∉ y)
    (h : x ++ a :: s = y ++ a :: t) : x = y ∧ s = t := by
  -- The separator stands in neither part, so it ends both at the same place.
  induction x generalizing y with
  | nil =>
    cases y with
    | nil => exact ⟨rfl, (List.cons.inj h).2⟩
    | cons b y =>
      have hab : a = b := (List.cons.inj h).1
      exact absurd (hab ▸ List.mem_cons_self) hy
  | cons b x ih =>
    cases y with
    | nil =>
      have hba : b = a := (List.cons.inj h).1
      exact absurd (hba ▸ List.mem_cons_self) hx
    | cons c y =>
      obtain ⟨hbc, htail⟩ := List.cons.inj h
      obtain ⟨hxy, hst⟩ := ih (fun ha => hx (List.mem_cons_of_mem b ha))
        (fun ha => hy (List.mem_cons_of_mem c ha)) htail
      exact ⟨by rw [hbc, hxy], hst⟩

/-- A hole is told from a literal by its opening brace. -/
theorem openBrace_mem_text_cons : openBrace ∈ text ⟨h :: holes, last⟩ := by
  rw [text_cons_eq]
  exact List.mem_append_right _ List.mem_cons_self

/-- Two proper cuts of one text are equal. -/
theorem Proper.eq_of_text_eq {c c' : Cut} (hc : c.Proper) (hc' : c'.Proper)
    (heq : c.text = c'.text) : c = c' := by
  obtain ⟨holes, last⟩ := c
  obtain ⟨holes', last'⟩ := c'
  -- Two cuts agree on their first hole, and then on the rest of the text.
  induction holes generalizing holes' with
  | nil =>
    cases holes' with
    | nil =>
      have hlast : last = last' := heq
      rw [hlast]
    | cons h' rest' =>
      have hmem : openBrace ∈ text ⟨[], last⟩ := heq ▸ openBrace_mem_text_cons
      exact absurd hmem hc.last
  | cons h rest ih =>
    cases holes' with
    | nil =>
      have hmem : openBrace ∈ text ⟨[], last'⟩ := heq ▸ openBrace_mem_text_cons
      exact absurd hmem hc'.last
    | cons h' rest' =>
      obtain ⟨hliteral, hidentifier, hrest⟩ := proper_cons_iff.mp hc
      obtain ⟨hliteral', hidentifier', hrest'⟩ := proper_cons_iff.mp hc'
      rw [text_cons_eq, text_cons_eq] at heq
      obtain ⟨hliterals, heq⟩ := append_cons_inj hliteral hliteral' heq
      obtain ⟨hidentifiers, heq⟩ := append_cons_inj hidentifier hidentifier' heq
      have hholes : h = h' := by
        cases h
        cases h'
        exact congr (congrArg Hole.mk hliterals) hidentifiers
      obtain ⟨hrests, hlasts⟩ := Cut.mk.inj (ih hrest rest' hrest' heq)
      rw [hholes, hrests, hlasts]

end Cut

/-- Every text has a proper cut, up to an opening brace that is never closed. -/
theorem exists_proper_cut (cs : List Char) :
    ∃ (c : Cut) (tail : List Char), c.Proper ∧ cs = c.text ++ tail ∧
      (tail = [] ∨ ∃ identifier, closeBrace ∉ identifier ∧ tail = openBrace :: identifier) := by
  by_cases hopen : openBrace ∈ cs
  · obtain ⟨literal, rest, hcs, hliteral⟩ := List.eq_append_cons_of_mem hopen
    by_cases hclose : closeBrace ∈ rest
    · obtain ⟨identifier, behind, hrest, hidentifier⟩ := List.eq_append_cons_of_mem hclose
      -- What stands behind the placeholder is shorter than the text.
      have hshorter : behind.length < cs.length := by
        rw [hcs, hrest]
        simp only [List.length_append, List.length_cons]
        omega
      obtain ⟨⟨holes, last⟩, tail, hproper, hbehind, htail⟩ := exists_proper_cut behind
      refine ⟨⟨⟨literal, identifier⟩ :: holes, last⟩, tail, ?_, ?_, htail⟩
      · exact Cut.proper_cons_iff.mpr ⟨hliteral, hidentifier, hproper⟩
      · rw [hcs, hrest, Cut.text_cons_eq, hbehind]
        simp only [List.append_assoc, List.cons_append]
    · exact ⟨⟨[], literal⟩, openBrace :: rest,
        ⟨fun _ h => absurd h List.not_mem_nil, fun _ h => absurd h List.not_mem_nil, hliteral⟩,
        hcs, Or.inr ⟨rest, hclose, rfl⟩⟩
  · exact ⟨⟨[], cs⟩, [],
      ⟨fun _ h => absurd h List.not_mem_nil, fun _ h => absurd h List.not_mem_nil, hopen⟩,
      (List.append_nil cs).symm, Or.inl rfl⟩
termination_by cs.length

end SqlTree.Template
