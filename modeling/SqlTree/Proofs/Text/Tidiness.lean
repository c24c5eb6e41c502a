import SqlTree.Proofs.Draft.Written
import SqlTree.Proofs.Text.Smooth
import SqlTree.Proofs.Text.Solid

/-!
# A writer keeps its text tidy

Main statement, `Writer.run_tidy`: make any calls in any order, with strings that have no spacing,
parentheses and commas of their own.  After each call the text is tidy, in one line it has neither
line breaks nor tabs, and all that the call has taken off the text is blank characters at its end.

A call drops characters at the end and adds others.  Dropping keeps whatever is said of all
characters and of all neighbours (`Neat.drop`), and a character may be added if it does not clash
with the last one (`Neat.push`); so it is enough to know what the text ends in where a call adds
something that can clash: a space, a comma or a closing parenthesis.
-/

namespace SqlTree

namespace Writer

/-! ### Calls -/

/-- The strings that a call writes as they are. -/
def Step.strings : Step → List String
  | .write s => [s]
  | .print parts => parts
  | .terminate terminator => [terminator]
  | .blank | .comma | .lineBreak | .indent _ | .openParenthesis | .closeParenthesis => []

/-- A writer after some calls, from nothing. -/
def run (layout : Layout) (steps : List Step) : Writer :=
  steps.foldl apply { layout := layout }

theorem run_concat (layout : Layout) (steps : List Step) (s : Step) :
    run layout (steps ++ [s]) = (run layout steps).apply s := by
  rw [run, List.foldl_append]
  rfl

theorem layout_foldl (w : Writer) (steps : List Step) :
    (steps.foldl apply w).layout = w.layout := by
  induction steps generalizing w with
  | nil => rfl
  | cons s rest ih => exact (ih (w.apply s)).trans (w.layout_apply s)

/-! ### Neat texts -/

/-- A tidy text, without line breaks and tabs if it stands in one line. -/
structure Neat (w : Writer) : Prop where
  /-- No two neighbours clash. -/
  tidy : TidyReversed w.reversed
  /-- In one line there is no line break and no tab. -/
  oneLine : w.layout = .compact → ∀ c ∈ w.reversed, c ≠ '\n' ∧ c ≠ '\t'

namespace Neat

variable {w : Writer}

theorem start (layout : Layout) : ({ layout := layout } : Writer).Neat :=
  ⟨trivial, fun _ _ hc => absurd hc List.not_mem_nil⟩

theorem drop (h : w.Neat) (p : Char → Bool) :
    (Writer.mk w.layout (w.reversed.dropWhile p)).Neat := by
  refine ⟨h.tidy.dropWhile p, fun hlayout c hc => h.oneLine hlayout c ?_⟩
  exact (List.dropWhile_sublist p).subset hc

theorem trimSpaces (h : w.Neat) : w.trimSpaces.Neat := h.drop (· == ' ')

/-- A character may be put behind a neat text if it does not clash with the last one, nor breaks a
line where there is only one. -/
theorem push (h : w.Neat) {c : Char} (hclash : ∀ a, w.reversed.head? = some a → clash a c = false)
    (hline : w.layout = .compact → c ≠ '\n' ∧ c ≠ '\t') : (w.push c).Neat := by
  refine ⟨⟨hclash, h.tidy⟩, fun hlayout x hx => ?_⟩
  rcases List.mem_cons.mp hx with rfl | hx
  · exact hline hlayout
  · exact h.oneLine hlayout x hx

theorem write (h : w.Neat) {s : String} (hs : Text.Bare s) : (w.write s).Neat := by
  refine ⟨h.tidy.append_smooth (smooth_of_none hs.smooth _), fun hlayout x hx => ?_⟩
  rcases List.mem_append.mp hx with hx | hx
  · obtain ⟨hsolid, -⟩ := hs x (List.mem_reverse.mp hx)
    constructor <;> rintro rfl <;> revert hsolid <;> decide
  · exact h.oneLine hlayout x hx

/-! ### Calls that add something fixed -/

theorem blank (h : w.Neat) : w.blank.Neat := by
  cases hreversed : w.reversed with
  | nil => rwa [blank_of_nil w hreversed]
  | cons c rest =>
    rw [blank_of_head w hreversed]
    cases htidy : endsTidily c with
    | true => exact h
    | false =>
      refine h.push (fun a ha => ?_) fun _ => by decide
      -- Behind a space or an opening parenthesis no space is due, and only there it would clash.
      rw [hreversed] at ha
      obtain rfl : c = a := Option.some.inj ha
      simp only [endsTidily, Bool.or_eq_false_iff] at htidy
      simp [clash, htidy.1.1.1, htidy.2]

/-- What takes the place of the spaces at the end has no space in front of it. -/
theorem pushTrimmed (h : w.Neat) {c : Char} (hc : c = ')' ∨ c = ',') :
    (w.trimSpaces.push c).Neat := by
  refine h.trimSpaces.push (fun a ha => ?_) fun _ => ?_
  · obtain ⟨rest, hrest⟩ := List.head?_eq_some_iff.mp ha
    have hspace : a ≠ ' ' := head_trimSpaces hrest
    rcases hc with rfl | rfl <;> simp [clash, hspace]
  · rcases hc with rfl | rfl <;> decide

theorem comma (h : w.Neat) : w.comma.Neat := by
  refine (h.pushTrimmed (Or.inr rfl)).push (fun a ha => ?_) fun _ => by decide
  obtain rfl : ',' = a := Option.some.inj ha
  rfl

theorem lineBreak (h : w.Neat) : w.lineBreak.Neat := by
  unfold Writer.lineBreak
  split
  · next hlayout =>
    dsimp only
    split
    · exact h.trimSpaces
    · refine h.trimSpaces.push (fun a _ => by simp [clash]) fun hcompact => ?_
      exact Layout.noConfusion (hlayout.symm.trans hcompact)
  · exact h.blank

/-- Tabs clash with nothing, and in one line there are none. -/
theorem indent (h : w.Neat) (depth : Nat) : (w.indent depth).Neat := by
  obtain ⟨layout, reversed⟩ := w
  cases layout with
  | compact => exact h
  | pretty =>
    refine ⟨?_, fun hlayout => nomatch hlayout⟩
    show TidyReversed (List.replicate depth '\t' ++ reversed)
    induction depth with
    | zero => exact h.tidy
    | succ n ih => exact ⟨fun a _ => by simp [clash], ih⟩

theorem openParenthesis (h : w.Neat) : w.openParenthesis.Neat :=
  h.push (fun a _ => by simp [clash]) fun _ => by decide

/-! ### Any call -/

theorem print (h : w.Neat) {parts : List String} (hparts : ∀ s ∈ parts, Text.Bare s) :
    (parts.foldl Writer.write w).Neat := by
  induction parts generalizing w with
  | nil => exact h
  | cons s rest ih =>
    have hs : Text.Bare s := hparts s List.mem_cons_self
    exact ih (h.write hs) fun t ht => hparts t (List.mem_cons_of_mem s ht)

theorem apply (h : w.Neat) {s : Step} (hs : ∀ t ∈ s.strings, Text.Bare t) : (w.apply s).Neat := by
  cases s with
  | write t => exact h.write (hs t List.mem_cons_self)
  | print parts => exact h.print hs
  | blank => exact h.blank
  | comma => exact h.comma
  | lineBreak => exact h.lineBreak
  | indent depth => exact h.indent depth
  | openParenthesis => exact h.openParenthesis
  | closeParenthesis => exact h.pushTrimmed (Or.inl rfl)
  | terminate t => exact (h.drop Text.isBlank).write (hs t List.mem_cons_self)

theorem foldl (h : w.Neat) {steps : List Step}
    (hsteps : ∀ s ∈ steps, ∀ t ∈ s.strings, Text.Bare t) : (steps.foldl Writer.apply w).Neat := by
  induction steps generalizing w with
  | nil => exact h
  | cons s rest ih =>
    have hs : ∀ t ∈ s.strings, Text.Bare t := hsteps s List.mem_cons_self
    exact ih (h.apply hs) fun t ht => hsteps t (List.mem_cons_of_mem s ht)

end Neat

/-! ### What a call leaves of the text -/

variable (w : Writer)

/-- The text without the blank characters at its end, last character first. -/
def trimmed : List Char := w.reversed.dropWhile Text.isBlank

theorem trimmed_suffix : w.trimmed <:+ w.reversed := List.dropWhile_suffix _

/-- Spaces are blank, so that dropping them leaves all that is in front of the blank end. -/
theorem trimmed_suffix_trimSpaces : w.trimmed <:+ w.trimSpaces.reversed := by
  have hspaces : w.trimmed = w.trimSpaces.trimmed := by
    unfold trimmed Writer.trimSpaces
    dsimp only
    induction w.reversed with
    | nil => rfl
    | cons c rest ih =>
      -- Spaces are among the blanks, so dropping them first makes no difference.
      by_cases hc : c = ' '
      · subst hc
        rw [List.dropWhile_cons_of_pos (by decide), ih, List.dropWhile_cons_of_pos (by decide)]
      · rw [List.dropWhile_cons_of_neg (p := (· == ' ')) (by simpa using hc)]
  rw [hspaces]
  exact w.trimSpaces.trimmed_suffix

/-- What is printed comes behind the text that was there. -/
theorem trimmed_suffix_print (parts : List String) :
    w.trimmed <:+ (parts.foldl Writer.write w).reversed := by
  have hprint : w.reversed <:+ (parts.foldl Writer.write w).reversed := by
    induction parts generalizing w with
    | nil => exact List.suffix_rfl
    | cons s rest ih => exact (List.suffix_append _ _).trans (ih (w.write s))
  exact w.trimmed_suffix.trans hprint

theorem trimmed_suffix_blank : w.trimmed <:+ w.blank.reversed :=
  blank_induction w.trimmed_suffix (w.trimmed_suffix.trans (List.suffix_cons ' ' _))

theorem trimmed_suffix_lineBreak : w.trimmed <:+ w.lineBreak.reversed := by
  have hspaces := w.trimmed_suffix_trimSpaces
  exact lineBreak_induction hspaces (hspaces.trans (List.suffix_cons '\n' _))
    w.trimmed_suffix_blank

theorem trimmed_suffix_indent (depth : Nat) : w.trimmed <:+ (w.indent depth).reversed :=
  indent_induction w.trimmed_suffix (w.trimmed_suffix.trans (List.suffix_append _ _))

/-- Whatever a call takes off the text is blank. -/
theorem trimmed_suffix_apply (s : Step) : w.trimmed <:+ (w.apply s).reversed := by
  -- A step drops blanks at the end, and writes behind what is left.
  cases s with
  | write t => exact w.trimmed_suffix.trans (List.suffix_append _ _)
  | print parts => exact w.trimmed_suffix_print parts
  | blank => exact w.trimmed_suffix_blank
  | comma =>
    refine w.trimmed_suffix_trimSpaces.trans ?_
    exact (List.suffix_cons ',' _).trans (List.suffix_cons ' ' _)
  | lineBreak => exact w.trimmed_suffix_lineBreak
  | indent depth => exact w.trimmed_suffix_indent depth
  | openParenthesis => exact w.trimmed_suffix.trans (List.suffix_cons '(' _)
  | closeParenthesis => exact w.trimmed_suffix_trimSpaces.trans (List.suffix_cons ')' _)
  | terminate t => exact List.suffix_append _ _

/-- A step leaves the text that was there, up to blanks at its end. -/
theorem trimEnd_prefix_apply (s : Step) : Text.trimEnd w.text <+: (w.apply s).text := by
  have htrimmed : Text.trimEnd w.text = w.trimmed.reverse := by
    rw [Text.trimEnd, text, List.reverse_reverse]
    rfl
  rw [htrimmed, text, List.reverse_prefix]
  exact w.trimmed_suffix_apply s

/-- **A writer keeps its text tidy over any use.** Make any calls in any order, in either layout,
with strings that have no spacing, parentheses and commas; they may be empty.  After each call the
text has no doubled spaces, no space behind an opening parenthesis and none in front of a closing
one or of a comma; in one line it has no line break and no tab; and the text before the call,
without the blank characters at its end, is still what it starts with. -/
theorem run_tidy (layout : Layout) {steps : List Step}
    (h : ∀ s ∈ steps, ∀ t ∈ s.strings, Text.Bare t) {front rest : List Step} {s : Step}
    (hsteps : steps = front ++ s :: rest) :
    let before := run layout front
    let after := run layout (front ++ [s])
    after = before.apply s ∧ Tidy after.text ∧
      (layout = .compact → ∀ c ∈ after.text, c ≠ '\n' ∧ c ≠ '\t') ∧
      Text.trimEnd before.text <+: after.text := by
  intro before after
  -- The steps up to this one are given words and names alone.
  have hmade : ∀ x ∈ front ++ [s], ∀ t ∈ x.strings, Text.Bare t := by
    intro x hx
    refine h x ?_
    rw [hsteps, List.append_cons]
    exact List.mem_append_left rest hx
  have hneat : after.Neat := (Neat.start layout).foldl hmade
  have hlayout : after.layout = layout := layout_foldl _ _
  have hafter : after = before.apply s := run_concat layout front s
  refine ⟨hafter, hneat.tidy.tidy, fun hcompact c hc => ?_, ?_⟩
  · exact hneat.oneLine (hlayout.trans hcompact) c (List.mem_reverse.mp hc)
  · rw [hafter]
    exact before.trimEnd_prefix_apply s

/-- A list in parentheses with a space wherever one may be asked for: closing it takes one back. -/
theorem run_tidy_list :
    let front : List Step := [.write "IN", .blank, .openParenthesis, .blank, .print ["?", ""],
      .blank, .comma, .write "?", .blank]
    let steps := front ++ [.closeParenthesis, .lineBreak, .indent 2, .terminate ";"]
    (∀ s ∈ steps, ∀ t ∈ s.strings, Text.Bare t) ∧
      (run .compact front).text = "IN (?, ? ".toList ∧
      (run .compact (front ++ [.closeParenthesis])).text = "IN (?, ?)".toList ∧
      Tidy "IN (?, ?)".toList ∧ "IN (?, ?".toList <+: "IN (?, ?)".toList := by
  intro front steps
  have hbare : ∀ s ∈ steps, ∀ t ∈ s.strings, Text.Bare t := by decide
  have hbefore : (run .compact front).text = "IN (?, ? ".toList := by decide
  have hafter : (run .compact (front ++ [.closeParenthesis])).text = "IN (?, ?)".toList := by
    decide
  have hsteps : steps =
      front ++ .closeParenthesis :: [.lineBreak, .indent 2, .terminate ";"] := rfl
  obtain ⟨-, htidy, -, hprefix⟩ := run_tidy .compact hbare hsteps
  rw [hafter] at htidy hprefix
  rw [hbefore] at hprefix
  exact ⟨hbare, hbefore, hafter, htidy, hprefix⟩

end Writer

end SqlTree
