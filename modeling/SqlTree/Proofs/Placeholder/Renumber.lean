import SqlTree.Draft
import SqlTree.Proofs.Draft.Unmarked
import SqlTree.Proofs.Text.Count

/-!
# Numbering the question marks of a text

`renumber mark i` replaces the question marks of a text from the left by `mark i`, `mark (i + 1)`
and so on.  A writer looks at the end of its text only, to see whether it is blank or opens a
parenthesis.  So, if marks end in something else, writing unmarked text commutes with numbering the
text written so far (`Writer.renumber_apply`).  A draft without question marks of its own therefore
assembles to a numbered text where placeholders are numbered, and to the same text with question
marks where they are not (`Draft.assemble_renumber`).
-/

namespace SqlTree

/-! ### Texts -/

/-- A text with its question marks replaced, counted from the left. -/
def renumber (mark : Nat → List Char) : Nat → List Char → List Char
  | _, [] => []
  | i, c :: rest =>
    if c = '?' then mark i ++ renumber mark (i + 1) rest else c :: renumber mark i rest

/-- A text that is held last character first, with its question marks replaced. -/
def renumberReversed (mark : Nat → List Char) : List Char → List Char
  | [] => []
  | c :: rest =>
    if c = '?' then (mark (rest.count '?' + 1)).reverse ++ renumberReversed mark rest
    else c :: renumberReversed mark rest

variable (mark : Nat → List Char)

/-- The later text is numbered from the marks of the earlier one. -/
theorem renumber_append (i : Nat) (s t : List Char) :
    renumber mark i (s ++ t) = renumber mark i s ++ renumber mark (i + s.count '?') t := by
  induction s generalizing i with
  | nil => rfl
  | cons c rest ih =>
    by_cases hc : c = '?'
    · subst hc
      rw [List.cons_append, renumber, renumber, if_pos rfl, if_pos rfl, ih, List.count_cons_self,
        List.append_assoc, Nat.add_assoc, Nat.add_comm 1]
    · rw [List.cons_append, renumber, renumber, if_neg hc, if_neg hc, ih,
        List.count_cons_of_ne hc, List.cons_append]

/-- The text of a writer is kept backwards, so its marks are counted from the other end. -/
theorem reverse_renumberReversed (cs : List Char) :
    (renumberReversed mark cs).reverse = renumber mark 1 cs.reverse := by
  induction cs with
  | nil => rfl
  | cons c rest ih =>
    -- The head of the reversed text is its last character, numbered after all those behind it.
    rw [List.reverse_cons, renumber_append, List.count_reverse, ← ih, renumberReversed]
    by_cases hc : c = '?'
    · rw [if_pos hc, List.reverse_append, List.reverse_reverse, renumber, if_pos hc, renumber,
        List.append_nil, Nat.add_comm]
    · rw [if_neg hc, List.reverse_cons, renumber, if_neg hc, renumber]

variable {mark}

/-- A text without marks stays as it is. -/
theorem renumberReversed_append {u : List Char} (hu : '?' ∉ u) (cs : List Char) :
    renumberReversed mark (u ++ cs) = u ++ renumberReversed mark cs := by
  induction u with
  | nil => rfl
  | cons c rest ih =>
    obtain ⟨hc, hrest⟩ := not_or.mp (mt List.mem_cons.mpr hu)
    rw [List.cons_append, renumberReversed, if_neg (Ne.symm hc), ih hrest, List.cons_append]

/-- Numbering leaves no mark empty. -/
theorem renumberReversed_eq_nil (hmark : ∀ i, EndsSolid (mark i)) (cs : List Char) :
    renumberReversed mark cs = [] ↔ cs = [] := by
  cases cs with
  | nil => exact Iff.rfl
  | cons c rest =>
    obtain ⟨last, init, hlast, -⟩ := hmark (rest.count '?' + 1)
    rw [renumberReversed, hlast]
    split <;> simp

/-- Characters that are neither question marks nor the end of a mark are dropped alike. -/
theorem dropWhile_renumberReversed {p : Char → Bool} (hp : p '?' = false)
    (hmark : ∀ i, ∃ c rest, (mark i).reverse = c :: rest ∧ p c = false) (cs : List Char) :
    (renumberReversed mark cs).dropWhile p = renumberReversed mark (cs.dropWhile p) := by
  induction cs with
  | nil => rfl
  | cons c rest ih =>
    by_cases hc : c = '?'
    -- A question mark stops the dropping, and so does the end of the mark in its place.
    · obtain ⟨last, init, hlast, hlastp⟩ := hmark (rest.count '?' + 1)
      have hstop : (c :: rest).dropWhile p = c :: rest := by
        rw [List.dropWhile_cons, if_neg (by rw [hc, hp]; exact Bool.false_ne_true)]
      rw [hstop, renumberReversed, if_pos hc, hlast, List.cons_append, List.dropWhile_cons,
        if_neg (by rw [hlastp]; exact Bool.false_ne_true)]
    · rw [renumberReversed, if_neg hc, List.dropWhile_cons, List.dropWhile_cons]
      split
      · exact ih
      · rw [renumberReversed, if_neg hc]

/-! ### Writers -/

namespace Writer

/-- Numbers the question marks of the text written so far. -/
def renumber (mark : Nat → List Char) (w : Writer) : Writer :=
  { w with reversed := renumberReversed mark w.reversed }

theorem renumber_push {c : Char} (hc : c ≠ '?') (w : Writer) :
    (w.push c).renumber mark = (w.renumber mark).push c := by
  show Writer.mk _ (renumberReversed mark (c :: w.reversed)) = _
  rw [renumberReversed, if_neg hc]
  rfl

/-- A text without marks can be written before or after the numbering. -/
theorem renumber_write {s : String} (hs : Text.Unmarked s) (w : Writer) :
    (w.write s).renumber mark = (w.renumber mark).write s := by
  show Writer.mk _ (renumberReversed mark (s.toList.reverse ++ w.reversed)) = _
  rw [renumberReversed_append (mt List.mem_reverse.mp hs)]
  rfl

/-- A question mark becomes the mark of its number. -/
theorem renumber_write_mark (w : Writer) :
    (w.write "?").renumber mark =
      (w.renumber mark).write (String.ofList (mark (w.reversed.count '?' + 1))) := by
  show Writer.mk _ (renumberReversed mark ('?' :: w.reversed)) = Writer.mk _ _
  rw [renumberReversed, if_pos rfl, String.toList_ofList]
  rfl

variable (hmark : ∀ i, EndsSolid (mark i)) (w : Writer)
include hmark

/-- No mark ends in a space, so numbering changes nothing at the end that a step would drop. -/
theorem renumber_trimSpaces : w.trimSpaces.renumber mark = (w.renumber mark).trimSpaces := by
  have hends : ∀ i, ∃ c rest, (mark i).reverse = c :: rest ∧ (c == ' ') = false := by
    intro i
    obtain ⟨c, rest, hi, -, htidy⟩ := hmark i
    simp only [endsTidily, Bool.or_eq_false_iff] at htidy
    exact ⟨c, rest, hi, htidy.1.1.1⟩
  exact congrArg (Writer.mk w.layout) (dropWhile_renumberReversed (by decide) hends _).symm

/-- Neither a question mark nor the end of a mark makes a space one too many. -/
theorem head_renumber {c : Char} {rest : List Char} (h : w.reversed = c :: rest) :
    ∃ c' rest', (w.renumber mark).reversed = c' :: rest' ∧ endsTidily c' = endsTidily c := by
  have hreversed : (w.renumber mark).reversed = renumberReversed mark (c :: rest) :=
    congrArg (renumberReversed mark) h
  rw [hreversed, renumberReversed]
  by_cases hc : c = '?'
  · obtain ⟨last, init, hlast, -, htidy⟩ := hmark (rest.count '?' + 1)
    refine ⟨last, init ++ renumberReversed mark rest, ?_, ?_⟩
    · rw [if_pos hc, hlast, List.cons_append]
    · rw [htidy, hc]
      decide
  · exact ⟨c, renumberReversed mark rest, if_neg hc, rfl⟩

theorem renumber_blank : w.blank.renumber mark = (w.renumber mark).blank := by
  cases hreversed : w.reversed with
  | nil =>
    have hempty : (w.renumber mark).reversed = [] := congrArg (renumberReversed mark) hreversed
    rw [blank_of_nil w hreversed, blank_of_nil _ hempty]
  | cons c rest =>
    obtain ⟨c', rest', hhead, htidy⟩ := head_renumber hmark w hreversed
    rw [blank_of_head w hreversed, blank_of_head _ hhead, htidy]
    split
    · rfl
    · exact renumber_push (by decide) w

/-- Whether a line is broken depends on the end of the text alone. -/
theorem renumber_lineBreak : w.lineBreak.renumber mark = (w.renumber mark).lineBreak := by
  obtain ⟨layout, reversed⟩ := w
  cases layout with
  | compact => exact renumber_blank hmark _
  | pretty =>
    -- Whether a line is broken depends on the text being empty, which numbering does not change.
    have htrim := renumber_trimSpaces hmark ⟨.pretty, reversed⟩
    have hempty := renumberReversed_eq_nil hmark (trimSpaces ⟨.pretty, reversed⟩).reversed
    show (if _ then _ else _ : Writer).renumber mark =
      if (trimSpaces (renumber mark ⟨.pretty, reversed⟩)).reversed = [] then _ else _
    rw [← htrim]
    by_cases hnil : (trimSpaces ⟨.pretty, reversed⟩).reversed = []
    · rw [if_pos hnil]
      exact (if_pos (hempty.mpr hnil)).symm
    · rw [if_neg hnil, renumber_push (by decide)]
      exact (if_neg (mt hempty.mp hnil)).symm

omit hmark in
theorem renumber_indent (depth : Nat) :
    (w.indent depth).renumber mark = (w.renumber mark).indent depth := by
  obtain ⟨layout, reversed⟩ := w
  cases layout with
  | compact => rfl
  | pretty =>
    have htabs : '?' ∉ List.replicate depth '\t' :=
      fun h => absurd (List.eq_of_mem_replicate h) (by decide)
    exact congrArg (Writer.mk .pretty) (renumberReversed_append htabs reversed)

/-- What a terminator drops is no part of a mark. -/
theorem renumber_terminate {terminator : String} (ht : Text.Unmarked terminator) :
    (w.terminate terminator).renumber mark = (w.renumber mark).terminate terminator := by
  have hends : ∀ i, ∃ c rest, (mark i).reverse = c :: rest ∧ Text.isBlank c = false := by
    intro i
    obtain ⟨c, rest, hi, hblank, -⟩ := hmark i
    exact ⟨c, rest, hi, hblank⟩
  rw [terminate, renumber_write ht, terminate]
  refine congrArg (fun v => Writer.write v terminator) ?_
  exact congrArg (Writer.mk w.layout) (dropWhile_renumberReversed (by decide) hends _).symm

/-- Writing something without a question mark commutes with numbering the text so far. -/
theorem renumber_apply {s : Step} (hs : s.Unmarked) :
    (w.apply s).renumber mark = (w.renumber mark).apply s := by
  -- Each step commutes with the numbering, for it looks only at whether the end is blank.
  cases s with
  | write s => exact renumber_write hs w
  | print parts =>
    show (parts.foldl write w).renumber mark = parts.foldl write (w.renumber mark)
    induction parts generalizing w with
    | nil => rfl
    | cons s rest ih =>
      rw [List.foldl_cons, List.foldl_cons, ← renumber_write (hs s List.mem_cons_self)]
      exact ih (w.write s) fun t ht => hs t (List.mem_cons_of_mem s ht)
  | blank => exact renumber_blank hmark w
  | comma =>
    show ((w.trimSpaces.push ',').push ' ').renumber mark = _
    rw [renumber_push (by decide), renumber_push (by decide), renumber_trimSpaces hmark]
    rfl
  | lineBreak => exact renumber_lineBreak hmark w
  | indent depth => exact renumber_indent w depth
  | openParenthesis => exact renumber_push (by decide) w
  | closeParenthesis =>
    show (w.trimSpaces.push ')').renumber mark = _
    rw [renumber_push (by decide), renumber_trimSpaces hmark]
    rfl
  | terminate terminator => exact renumber_terminate hmark w hs

/-! ### Counting question marks -/

/-- The number of question marks in the text. -/
def marks (w : Writer) : Nat := w.reversed.count '?'

omit hmark

theorem marks_write_mark : (w.write "?").marks = w.marks + 1 := List.count_cons_self

/-- Writing something without a question mark adds none. -/
theorem marks_apply {s : Step} (hs : s.Unmarked) : (w.apply s).marks = w.marks := by
  have hnone : s.count '?' = 0 := by
    cases s with
    | write s | terminate s => exact List.count_eq_zero.mpr hs
    | print parts =>
      refine List.count_eq_zero.mpr fun hmark => ?_
      obtain ⟨s, hs', hmark⟩ := List.mem_flatMap.mp hmark
      exact hs s hs' hmark
    | _ => rfl
  have hmark : IsMark '?' := by decide
  -- A step writes what is its own and drops blanks, none of which is a mark.
  have hcount := w.count_apply hmark s
  rwa [hnone, Nat.add_zero] at hcount

end Writer

/-! ### Assembly -/

/-- A dialect writes every placeholder as a question mark and does not count them. -/
def Dialect.Positional (d : Dialect) : Prop := ∀ n name, d.placeholder n name = ("?", n)

/-- A dialect writes placeholders as numbered marks; if `anonymous`, those that have no name. -/
def Dialect.Numbers (d : Dialect) (mark : Nat → List Char) (anonymous : Bool) : Prop :=
  ∀ n name, (anonymous = true → name = none) →
    d.placeholder n name = (String.ofList (mark (n + 1)), n + 1)

namespace Assembly

/-- The text has a question mark for each argument. -/
def Counted (a : Assembly) : Prop := a.writer.marks = a.arguments.length

/-- The same statement with its question marks numbered. -/
def renumber (mark : Nat → List Char) (a : Assembly) : Assembly :=
  ⟨a.writer.renumber mark, a.arguments, a.arguments.length⟩

variable {d d' : Dialect} {anonymous : Bool}

/-- The number of the next placeholder is that of the marks, for only placeholders write one. -/
theorem Counted.add (hd : d.Positional) {a : Assembly} (ha : a.Counted) {p : Piece}
    (hp : p.Unmarked anonymous) : (a.add d p).Counted := by
  cases p with
  | layout s => exact (a.writer.marks_apply hp).trans ha
  | argument name v =>
    rw [Counted, Assembly.add, hd]
    show (a.writer.write "?").marks = (a.arguments ++ [v]).length
    rw [Writer.marks_write_mark, ha, List.length_append, List.length_singleton]

/-- A piece adds the same to a numbered statement, where its placeholder gets the next number. -/
theorem add_renumber (hd : d.Positional) (hd' : d'.Numbers mark anonymous)
    (hmark : ∀ i, EndsSolid (mark i)) {a : Assembly} (ha : a.Counted) {p : Piece}
    (hp : p.Unmarked anonymous) : (a.add d p).renumber mark = (a.renumber mark).add d' p := by
  cases p with
  | layout s =>
    exact congrArg (Assembly.mk · a.arguments a.arguments.length)
      (Writer.renumber_apply hmark a.writer hp)
  | argument name v =>
    -- The question marks so far are the arguments so far, so the next mark has the next number.
    have hcount : a.writer.reversed.count '?' = a.arguments.length := ha
    rw [Assembly.add, hd, Assembly.add, hd' _ _ hp]
    show Assembly.mk ((a.writer.write "?").renumber mark) (a.arguments ++ [v])
      (a.arguments ++ [v]).length = Assembly.mk _ (a.arguments ++ [v]) (a.arguments.length + 1)
    rw [Writer.renumber_write_mark, hcount, List.length_append, List.length_singleton]
    rfl

theorem Counted.addAll (hd : d.Positional) {a : Assembly} (ha : a.Counted) {l : List Piece}
    (hl : ∀ p ∈ l, p.Unmarked anonymous) : (a.addAll d l).Counted := by
  induction l generalizing a with
  | nil => exact ha
  | cons p rest ih =>
    exact ih (ha.add hd (hl p List.mem_cons_self)) fun q hq => hl q (List.mem_cons_of_mem p hq)

/-- A run with numbered placeholders stays in step with the run without numbers, since the text of
the latter stays counted. -/
theorem addAll_renumber (hd : d.Positional) (hd' : d'.Numbers mark anonymous)
    (hmark : ∀ i, EndsSolid (mark i)) {a : Assembly} (ha : a.Counted) {l : List Piece}
    (hl : ∀ p ∈ l, p.Unmarked anonymous) :
    (a.addAll d l).renumber mark = (a.renumber mark).addAll d' l := by
  induction l generalizing a with
  | nil => rfl
  | cons p rest ih =>
    have hp : p.Unmarked anonymous := hl p List.mem_cons_self
    have hrest := ih (ha.add hd hp) fun q hq => hl q (List.mem_cons_of_mem p hq)
    rwa [add_renumber hd hd' hmark ha hp] at hrest

end Assembly

/-- Numbers the question marks in the text of a statement. -/
def Compiled.renumber (mark : Nat → List Char) (c : Compiled) : Compiled :=
  { c with sql := String.ofList (SqlTree.renumber mark 1 c.sql.toList) }

theorem Assembly.compiled_renumber (a : Assembly) :
    (a.renumber mark).compiled = a.compiled.renumber mark := by
  show Compiled.mk (String.ofList (renumberReversed mark a.writer.reversed).reverse) _ = _
  rw [reverse_renumberReversed, Compiled.renumber, Assembly.compiled, String.toList_ofList]
  rfl

namespace Draft

variable {d d' : Dialect} {anonymous : Bool} {x : Draft}

/-- A draft without question marks of its own assembles to a text that has one for each argument. -/
theorem assemble_marks (hd : d.Positional) (hx : x.Unmarked anonymous) {layout : Layout}
    {r : Compiled} (hr : x.assemble d layout = .ok r) :
    r.sql.toList.count '?' = r.arguments.length := by
  cases x with
  | fault e => cases hr
  | pieces l =>
    cases hr
    have hstart : (Assembly.start layout).Counted := rfl
    have h := hstart.addAll hd (hx l rfl)
    rw [Assembly.compiled, String.toList_ofList, Writer.text, List.count_reverse]
    exact h

/-- Where placeholders are numbered, a draft without question marks of its own assembles to the
same text with its question marks numbered. -/
theorem assemble_renumber (hd : d.Positional) (hd' : d'.Numbers mark anonymous)
    (hmark : ∀ i, EndsSolid (mark i)) (hx : x.Unmarked anonymous) (layout : Layout) :
    x.assemble d' layout = (x.assemble d layout).map (Compiled.renumber mark) := by
  cases x with
  | fault e => rfl
  | pieces l =>
    have h := Assembly.addAll_renumber hd hd' hmark (a := Assembly.start layout) rfl (hx l rfl)
    show Except.ok ((Assembly.start layout).addAll d' l).compiled = Except.ok _
    rw [← Assembly.compiled_renumber, h]
    rfl

end Draft

end SqlTree
