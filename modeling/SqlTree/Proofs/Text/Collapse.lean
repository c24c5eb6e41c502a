import SqlTree.Proofs.Text.Unmarked
import SqlTree.Writer

/-!
# Texts up to spacing

`collapse` takes the runs of spaces, tabs and line breaks out of a text: a run goes if it follows an
opening parenthesis or precedes a closing one or a comma, and otherwise becomes one space.  What is
left is tidy (`tidy_collapse`).  Since a writer grows its text at the end, `Collapsed.read` takes a
text that is given last character first, and collapses it one character at a time.
-/

namespace SqlTree

/-- Whether a character separates words or lines. -/
def isSpacing (c : Char) : Bool := c == ' ' || c == '\t' || c == '\n'

theorem isBlank_of_isSpacing {c : Char} (h : isSpacing c = true) : Text.isBlank c = true := by
  simp only [isSpacing, Bool.or_eq_true, beq_iff_eq] at h
  rcases h with (rfl | rfl) | rfl <;> rfl

/-- A text of which all has been collapsed but a run at its end. -/
structure Collapsed where
  /-- The text in front of the run, last character first. -/
  out : List Char := []
  /-- Whether there is a run at the end. -/
  pending : Bool := false

namespace Collapsed

/-- Whether a run at the end becomes a space: it does not follow an opening parenthesis. -/
def gap (s : Collapsed) : Bool := s.pending && s.out.head? != some '('

/-- Goes on with a character, which decides what becomes of the run in front of it. -/
def next (s : Collapsed) (c : Char) : Collapsed :=
  if isSpacing c then { s with pending := true }
  else if s.gap && c != ')' && c != ',' then ⟨c :: ' ' :: s.out, false⟩
  else ⟨c :: s.out, false⟩

/-- The text, last character first, with the run at its end. -/
def finish (s : Collapsed) : List Char := if s.gap then ' ' :: s.out else s.out

/-- Collapses a text that is given last character first. -/
def read : List Char → Collapsed
  | [] => {}
  | c :: rest => (read rest).next c

end Collapsed

/-- A text with its runs of spaces, tabs and line breaks taken out: one that follows an opening
parenthesis or precedes a closing one or a comma is dropped, and any other becomes one space. -/
def collapse (cs : List Char) : List Char := (cs.foldl Collapsed.next {}).finish.reverse

theorem collapse_reverse (cs : List Char) :
    collapse cs.reverse = (Collapsed.read cs).finish.reverse := by
  have hread : cs.reverse.foldl Collapsed.next {} = Collapsed.read cs := by
    rw [List.foldl_reverse]
    induction cs with
    | nil => rfl
    | cons c rest ih => rw [List.foldr_cons, ih, Collapsed.read]
  rw [collapse, hread]

example : collapse "a  IN (\n\tb,c \n )".toList = "a IN (b,c)".toList := by decide

/-! ### Tidy texts -/

/-- Whether two characters should not follow one another. -/
def clash (a b : Char) : Bool :=
  (a == ' ' && (b == ' ' || b == ')' || b == ',')) || (a == '(' && b == ' ')

/-- A text without doubled spaces, without a space behind an opening parenthesis, and without one in
front of a closing parenthesis or a comma. -/
def Tidy (cs : List Char) : Prop := ∀ a b, clash a b = true → ¬[a, b] <:+: cs

/-- A tidy text, given last character first. -/
def TidyReversed : List Char → Prop
  | [] => True
  | b :: rest => (∀ a, rest.head? = some a → clash a b = false) ∧ TidyReversed rest

/-- A text is tidy whichever way it is read. -/
theorem TidyReversed.tidy {cs : List Char} (h : TidyReversed cs) : Tidy cs.reverse := by
  intro a b hclash hinfix
  rw [← List.reverse_infix, List.reverse_reverse] at hinfix
  -- A clash is at the end of the text, or further in front.
  induction cs with
  | nil => simp at hinfix
  | cons c rest ih =>
    obtain ⟨hc, hrest⟩ := h
    rcases List.infix_cons_iff.mp hinfix with hprefix | hinfix
    · -- The last two characters are the two that clash.
      obtain ⟨tail, htail⟩ := hprefix
      simp only [List.reverse_cons, List.reverse_nil, List.nil_append, List.cons_append,
        List.cons.injEq] at htail
      obtain ⟨rfl, rfl⟩ := htail
      rw [hc a rfl] at hclash
      cases hclash
    · exact ih hrest hinfix

/-- What is left of a tidy text is tidy. -/
theorem TidyReversed.dropWhile {cs : List Char} (h : TidyReversed cs) (p : Char → Bool) :
    TidyReversed (cs.dropWhile p) := by
  induction cs with
  | nil => exact h
  | cons c rest ih =>
    rw [List.dropWhile_cons]
    split
    · exact ih h.2
    · exact h

theorem TidyReversed.of_append {cs base : List Char} (h : TidyReversed (cs ++ base)) :
    TidyReversed cs := by
  induction cs with
  | nil => trivial
  | cons c rest ih =>
    refine ⟨fun a ha => h.1 a ?_, ih h.2⟩
    show (rest ++ base).head? = some a
    rw [List.head?_append, ha]
    rfl

/-! ### Collapsed texts -/

namespace Collapsed

/-- A space or line break is only remembered. -/
theorem read_spacing {c : Char} (hc : isSpacing c = true) (cs : List Char) :
    read (c :: cs) = { read cs with pending := true } := by
  rw [read, next, if_pos hc]

/-- A text as it is in front of a run. -/
def broken (s : Collapsed) : List Char := finish { s with pending := true }

/-- At the end a run is a single space, unless it stands behind an opening parenthesis. -/
theorem finish_read_spacing {c : Char} (hc : isSpacing c = true) (cs : List Char) :
    (read (c :: cs)).finish = (read cs).broken := by
  rw [read_spacing hc, broken]

theorem out_read_spacing {c : Char} (hc : isSpacing c = true) (cs : List Char) :
    (read (c :: cs)).out = (read cs).out := by
  rw [read_spacing hc]

theorem gap_read_spacing {c : Char} (hc : isSpacing c = true) (cs : List Char) :
    (read (c :: cs)).gap = ((read cs).out.head? != some '(') := by
  rw [read_spacing hc]
  rfl

/-- A character that separates nothing is read as it is. -/
theorem read_solid {c : Char} (hc : isSpacing c = false) (cs : List Char) :
    read (c :: cs) =
      ⟨c :: if (read cs).gap && c != ')' && c != ',' then ' ' :: (read cs).out
        else (read cs).out, false⟩ := by
  rw [read, next, hc, if_neg Bool.false_ne_true]
  split <;> rfl

theorem finish_read_solid {c : Char} (hc : isSpacing c = false) (cs : List Char) :
    (read (c :: cs)).finish = (read (c :: cs)).out := by
  rw [read_solid hc]
  rfl

/-- In front of a run there is no run. -/
theorem isSpacing_head_out {cs : List Char} {a : Char} (ha : (read cs).out.head? = some a) :
    isSpacing a = false := by
  induction cs with
  | nil => cases ha
  | cons c rest ih =>
    cases hc : isSpacing c with
    | true =>
      rw [out_read_spacing hc] at ha
      exact ih ha
    | false =>
      rw [read_solid hc, List.head?_cons] at ha
      exact Option.some.inj ha ▸ hc

/-- Nothing that was put out ends in a space: it would still be remembered. -/
theorem head_out_ne_space {cs : List Char} {a : Char} (ha : (read cs).out.head? = some a) :
    a ≠ ' ' := by
  rintro rfl
  exact absurd (isSpacing_head_out ha) (by decide)

/-- There is something in front of the run at the end unless there is nothing but that run. -/
theorem out_read_ne_nil {cs : List Char} {c : Char} (hc : c ∈ cs) (hspacing : isSpacing c = false) :
    (read cs).out ≠ [] := by
  induction cs with
  | nil => cases hc
  | cons a rest ih =>
    -- The character is the last one, or it was put out before.
    cases ha : isSpacing a with
    | true =>
      rw [out_read_spacing ha]
      rcases List.mem_cons.mp hc with rfl | hc
      · rw [hspacing] at ha
        cases ha
      · exact ih hc
    | false =>
      rw [read_solid ha]
      exact List.cons_ne_nil _ _

/-- Behind a parenthesis or a space no further space is written. -/
theorem clash_space_of_gap {cs : List Char} (h : (read cs).gap = true) {a : Char}
    (ha : (read cs).out.head? = some a) : clash a ' ' = false := by
  have hspace : a ≠ ' ' := head_out_ne_space ha
  have hopen : a ≠ '(' := by
    rintro rfl
    rw [gap, ha] at h
    simp at h
  simp [clash, hspace, hopen]

/-- What is put out is tidy: a gap is a single space between two characters that may stand around
one. -/
theorem tidyReversed_out (cs : List Char) : TidyReversed (read cs).out := by
  induction cs with
  | nil => trivial
  | cons c rest ih =>
    -- Only a solid character puts anything out.
    cases hc : isSpacing c with
    | true => rwa [out_read_spacing hc]
    | false =>
      have hcs : c ≠ ' ' := by
        rintro rfl
        exact absurd hc (by decide)
      rw [read_solid hc]
      split
      · next hgap =>
        simp only [Bool.and_eq_true, bne_iff_ne] at hgap
        refine ⟨fun a ha => ?_, fun a ha => clash_space_of_gap hgap.1.1 ha, ih⟩
        obtain rfl := Option.some.inj ha
        simp [clash, hcs, hgap.1.2, hgap.2]
      · refine ⟨fun a ha => ?_, ih⟩
        have hspace : a ≠ ' ' := head_out_ne_space ha
        simp [clash, hspace, hcs]

theorem tidyReversed_finish (cs : List Char) : TidyReversed (read cs).finish := by
  unfold finish
  split
  · next hgap => exact ⟨fun a ha => clash_space_of_gap hgap ha, tidyReversed_out cs⟩
  · exact tidyReversed_out cs

/-- Spaces at the end change nothing in front of the run. -/
theorem out_read_dropSpaces (cs : List Char) :
    (read (cs.dropWhile (· == ' '))).out = (read cs).out := by
  induction cs with
  | nil => rfl
  | cons c rest ih =>
    rw [List.dropWhile_cons]
    split
    · next hc =>
      rw [ih, out_read_spacing]
      simp [isSpacing, hc]
    · rfl

/-- The only space at the end is the one that was remembered. -/
theorem dropSpaces_finish (cs : List Char) :
    (read cs).finish.dropWhile (· == ' ') = (read cs).out := by
  have hout : (read cs).out.dropWhile (· == ' ') = (read cs).out := by
    cases h : (read cs).out with
    | nil => rfl
    | cons c rest =>
      have hhead : (read cs).out.head? = some c := by
        rw [h]
        rfl
      have hc : c ≠ ' ' := head_out_ne_space hhead
      simp [hc]
  unfold finish
  split
  · rw [List.dropWhile_cons_of_pos (by rfl), hout]
  · exact hout

/-- Blank characters at the end are dropped before or after. -/
theorem dropBlanks_finish (cs : List Char) :
    (read cs).finish.dropWhile Text.isBlank = (read (cs.dropWhile Text.isBlank)).finish := by
  have hgap (s : Collapsed) :
      s.finish.dropWhile Text.isBlank = s.out.dropWhile Text.isBlank := by
    unfold finish
    split
    · exact List.dropWhile_cons_of_pos (by decide)
    · rfl
  induction cs with
  | nil => rfl
  | cons c rest ih =>
    rw [hgap] at ih ⊢
    cases hblank : Text.isBlank c with
    | false =>
      have hspacing : isSpacing c = false := by
        rw [← Bool.not_eq_true]
        exact fun h => Bool.false_ne_true (hblank.symm.trans (isBlank_of_isSpacing h))
      rw [List.dropWhile_cons_of_neg (by simp [hblank]), finish_read_solid hspacing,
        read_solid hspacing, List.dropWhile_cons_of_neg (by simp [hblank])]
    | true =>
      rw [List.dropWhile_cons_of_pos hblank, ← ih]
      cases hspacing : isSpacing c with
      | true => rw [out_read_spacing hspacing]
      -- A blank character that is no spacing is not collapsed, but dropped as the others are.
      | false =>
        rw [read_solid hspacing, List.dropWhile_cons_of_pos hblank]
        split
        · exact List.dropWhile_cons_of_pos (by decide)
        · rfl

/-- A first character other than an opening parenthesis decides on no run. -/
theorem gap_append {c : Char} (hopen : c ≠ '(') (s : Collapsed) :
    gap ⟨s.out ++ [c], s.pending⟩ = s.gap := by
  unfold gap
  cases s.out with
  | nil =>
    have hc : (some c != some '(') = true := bne_iff_ne.mpr fun h => hopen (Option.some.inj h)
    exact congrArg (s.pending && ·) hc
  | cons a rest => rfl

/-- A first character that is neither spacing nor a parenthesis stays in front of what is read. -/
theorem read_append_singleton {c : Char} (hspacing : isSpacing c = false) (hopen : c ≠ '(')
    (cs : List Char) : read (cs ++ [c]) = ⟨(read cs).out ++ [c], (read cs).pending⟩ := by
  induction cs with
  | nil =>
    rw [List.nil_append, read_solid hspacing]
    rfl
  | cons a rest ih =>
    rw [List.cons_append, read, ih, next, gap_append hopen, read, next]
    split
    · rfl
    · split <;> rfl

theorem finish_append_singleton {c : Char} (hspacing : isSpacing c = false) (hopen : c ≠ '(')
    (cs : List Char) : (read (cs ++ [c])).finish = (read cs).finish ++ [c] := by
  rw [read_append_singleton hspacing hopen, finish, gap_append hopen, finish]
  split <;> rfl

end Collapsed

/-- A collapsed text is tidy. -/
theorem tidy_collapse (cs : List Char) : Tidy (collapse cs) := by
  rw [← List.reverse_reverse cs, collapse_reverse]
  exact (Collapsed.tidyReversed_finish cs.reverse).tidy

end SqlTree
