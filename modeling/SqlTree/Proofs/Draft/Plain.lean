import SqlTree.Proofs.Draft.Written
import SqlTree.Proofs.Statement.Closure
import SqlTree.Proofs.Text.Solid

/-!
# Texts that end in nothing but spaces

A terminator takes the place of all blank characters at the end of a text, a closing parenthesis
only of spaces.  The two do the same to a text whose blank end is plain, that is, made of spaces
alone.  In one line every statement is such a text if none of its strings, nor a placeholder, ends
in a blank character (`Expression.draft_keepsPlain`).
-/

namespace SqlTree

/-! ### Texts -/

namespace Text

/-- Whether a string ends in a blank character. -/
def endsBlank (s : String) : Bool := s.toList.getLast?.any isBlank

/-- A text, given last character first, whose blank end is made of spaces. -/
def PlainEnd (reversed : List Char) : Prop :=
  reversed.dropWhile isBlank = reversed.dropWhile (· == ' ')

theorem plainEnd_of_head {c : Char} (hc : isBlank c = false) (rest : List Char) :
    PlainEnd (c :: rest) := by
  have hspace : (c == ' ') = false := by
    rw [beq_eq_false_iff_ne]
    rintro rfl
    exact absurd hc (by decide)
  rw [PlainEnd, List.dropWhile_cons_of_neg (by simp [hc]),
    List.dropWhile_cons_of_neg (by simp [hspace])]

theorem PlainEnd.space {cs : List Char} (h : PlainEnd cs) : PlainEnd (' ' :: cs) := h

theorem PlainEnd.append {l m : List Char} (hl : PlainEnd l) (hm : PlainEnd m) :
    PlainEnd (l ++ m) := by
  rw [PlainEnd, List.dropWhile_append, List.dropWhile_append, hl, hm]

theorem PlainEnd.dropSpaces {cs : List Char} (h : PlainEnd cs) :
    PlainEnd (cs.dropWhile (· == ' ')) := by
  cases hrest : cs.dropWhile (· == ' ') with
  | nil => exact rfl
  | cons c rest => exact plainEnd_of_head (isBlank_head_trimStart (h.trans hrest)) rest

/-- A string whose blank end is made of spaces. -/
def Plain (s : String) : Prop := PlainEnd s.toList.reverse

instance (s : String) : Decidable (Plain s) :=
  inferInstanceAs (Decidable (s.toList.reverse.dropWhile isBlank = _))

theorem Plain.append {s t : String} (hs : Plain s) (ht : Plain t) : Plain (s ++ t) := by
  rw [Plain, String.toList_append, List.reverse_append]
  exact PlainEnd.append ht hs

theorem plain_of_endsBlank {s : String} (h : endsBlank s = false) : Plain s := by
  rw [endsBlank, ← List.head?_reverse] at h
  unfold Plain
  cases hs : s.toList.reverse with
  | nil => exact rfl
  | cons c rest =>
    rw [hs] at h
    exact plainEnd_of_head h rest

theorem plain_of_endsSolid {s : String} (h : EndsSolid s.toList) : Plain s := by
  obtain ⟨c, rest, hreverse, hblank, -⟩ := h
  rw [Plain, hreverse]
  exact plainEnd_of_head hblank rest

theorem plain_numeral (s : String) (n : Nat) : Plain (s ++ toString n) :=
  plain_of_endsSolid (endsSolid_numeral s n)

/-- Joined texts end as the last of them does, or as the separator. -/
theorem plain_intercalate {separator : String} (hseparator : Plain separator) {l : List String}
    (hl : ∀ s ∈ l, Plain s) : Plain (separator.intercalate l) := by
  induction l with
  | nil =>
    rw [String.intercalate_nil]
    decide
  | cons s rest ih =>
    have hs : Plain s := hl s List.mem_cons_self
    have hrest := ih fun t ht => hl t (List.mem_cons_of_mem s ht)
    -- The separator stands in front of every text but the first.
    cases rest with
    | nil => rwa [String.intercalate_singleton]
    | cons t rest =>
      rw [String.intercalate_cons_cons]
      exact (hs.append hseparator).append hrest

/-- The part of a column name after its last point ends as the name does. -/
theorem endsBlank_unqualified {s : String} (h : endsBlank s = false) :
    endsBlank (unqualified s) = false := by
  rw [endsBlank, ← List.head?_reverse] at h ⊢
  rw [unqualified, String.toList_ofList, List.reverse_reverse]
  cases hs : s.toList.reverse with
  | nil => rfl
  | cons c rest =>
    rw [hs] at h
    by_cases hc : c = '.'
    · simp [hc]
    · simpa [hc] using h

/-- A quoted identifier ends in its quote. -/
theorem endsBlank_quoteWith {mark : Char} (hmark : isBlank mark = false) (s : String) :
    endsBlank (quoteWith mark s) = false := by
  rw [endsBlank, quoteWith, String.toList_ofList, List.cons_append, ← List.cons_append,
    List.getLast?_concat]
  exact hmark

end Text

/-! ### Writers -/

/-- A text in one line whose blank end is made of spaces. -/
structure Writer.Plain (w : Writer) : Prop where
  /-- It stands in one line. -/
  layout : w.layout = .compact
  /-- It ends in nothing but spaces. -/
  plainEnd : Text.PlainEnd w.reversed

namespace Writer.Plain

variable {w : Writer}

theorem push (h : w.Plain) {c : Char} (hc : Text.isBlank c = false) : (w.push c).Plain :=
  ⟨h.layout, Text.plainEnd_of_head hc _⟩

theorem space (h : w.Plain) : (w.push ' ').Plain := ⟨h.layout, h.plainEnd.space⟩

/-- The end of a plain text is plain, and so is what it uncovers when it is empty. -/
theorem write (h : w.Plain) {s : String} (hs : Text.Plain s) : (w.write s).Plain :=
  ⟨h.layout, Text.PlainEnd.append hs h.plainEnd⟩

theorem trimSpaces (h : w.Plain) : w.trimSpaces.Plain := ⟨h.layout, h.plainEnd.dropSpaces⟩

theorem blank (h : w.Plain) : w.blank.Plain := Writer.blank_induction h h.space

theorem lineBreak (h : w.Plain) : w.lineBreak.Plain := by
  have hblank : w.lineBreak = w.blank := by
    unfold Writer.lineBreak
    rw [h.layout]
  exact hblank ▸ h.blank

theorem indent (h : w.Plain) (depth : Nat) : (w.indent depth).Plain := by
  have hindent : w.indent depth = w := by
    unfold Writer.indent
    rw [h.layout]
  exact hindent.symm ▸ h

/-- A closing parenthesis drops what a terminator drops. -/
theorem text_trimSpaces (h : w.Plain) : w.trimSpaces.text = Text.trimEnd w.text := by
  rw [Text.trimEnd, Writer.text, Writer.text, List.reverse_reverse, h.plainEnd]
  rfl

end Writer.Plain

/-! ### Drafts -/

namespace Draft

/-- A draft behind which the blank end of a text is made of spaces if it is in front. -/
def KeepsPlain (d : Dialect) (x : Draft) : Prop :=
  ∀ a b : Assembly, x.addTo d a = .ok b → a.writer.Plain → b.writer.Plain

variable {d : Dialect} {x y : Draft}

/-- A step keeps a text plain if it does so whatever has been written before. -/
theorem keepsPlain_step {s : Writer.Step} (h : ∀ w : Writer, w.Plain → (w.apply s).Plain) :
    (step s).KeepsPlain d := by
  intro a b hb ha
  cases hb
  exact h a.writer ha

theorem keepsPlain_text {s : String} (hs : Text.Plain s) : (text s).KeepsPlain d :=
  keepsPlain_step fun _ hw => hw.write hs

theorem KeepsPlain.append (hx : x.KeepsPlain d) (hy : y.KeepsPlain d) : (x ++ y).KeepsPlain d := by
  intro a c hc ha
  obtain ⟨b, hb, hc⟩ := addTo_append_eq_ok hc
  exact hy b c hc (hx a b hb ha)

theorem keepsPlain_blank : blank.KeepsPlain d := keepsPlain_step fun _ hw => hw.blank

theorem keepsPlain_lineBreak : lineBreak.KeepsPlain d := keepsPlain_step fun _ hw => hw.lineBreak

theorem keepsPlain_indent (depth : Nat) : (step (.indent depth)).KeepsPlain d :=
  keepsPlain_step fun _ hw => hw.indent depth

theorem keepsPlain_opening : (step .openParenthesis).KeepsPlain d :=
  keepsPlain_step fun _ hw => hw.push (by decide)

theorem keepsPlain_closing : (step .closeParenthesis).KeepsPlain d :=
  keepsPlain_step fun _ hw => hw.trimSpaces.push (by decide)

theorem KeepsPlain.parenthesized (hx : x.KeepsPlain d) : (parenthesized x).KeepsPlain d :=
  (keepsPlain_opening.append hx).append keepsPlain_closing

/-- A placeholder is a token, or ends in a number. -/
theorem plain_placeholder (htoken : Text.endsBlank d.token = false) (k : Nat) :
    Text.Plain (d.placeholder k none).1 := by
  unfold Dialect.placeholder
  split
  · exact Text.plain_of_endsBlank htoken
  · show Text.Plain (d.token ++ ("p" ++ toString (k + 1)))
    rw [← String.append_assoc]
    exact Text.plain_numeral _ _
  · exact Text.plain_numeral _ _

theorem keepsPlain_argument (htoken : Text.endsBlank d.token = false) (v : Value) :
    (argument none v).KeepsPlain d := by
  intro a b hb ha
  cases hb
  exact ha.write (plain_placeholder htoken a.index)

end Draft

open Draft

/-! ### Statements -/

/-- No string in an expression ends in a blank character. -/
def Expression.SolidStrings (e : Expression) : Prop :=
  e.Spelled (fun s => Text.endsBlank s = false) fun _ => True

/-- The texts of a table are its names, and the blanks between them are spaces. -/
theorem plain_table {d : Dialect} {t : Table} (h : ∀ s ∈ t.strings, Text.endsBlank s = false) :
    t.draft.KeepsPlain d := by
  have hname {s : String} (hs : Text.endsBlank s = false) : (text s).KeepsPlain d :=
    keepsPlain_text (Text.plain_of_endsBlank hs)
  refine Table.draft_of_names (fun e a b hb => by cases hb) KeepsPlain.append hname ?_ h
  exact fun hs _ => (hname hs).append (keepsPlain_text (by decide))

/-- The bounds on the number of a row end in a number. -/
theorem QueryParts.endsSolid_rowBounds (p : QueryParts) : EndsSolid p.rowBounds.toList := by
  unfold rowBounds
  split
  · rw [String.append_empty]
    exact endsSolid_numeral _ _
  · rw [← String.append_assoc]
    exact endsSolid_numeral _ _

section Statements

variable {d : Dialect} (htoken : Text.endsBlank d.token = false)
  (hquote : ∀ s, Text.endsBlank s = false → Text.endsBlank (d.quote s) = false)
include htoken hquote

omit htoken in
/-- No listed name ends in a blank: quoting must not add one, and the last part of a name ends as
the name does. -/
theorem plain_output {s : String}
    (hs : IsOutput d (fun s => Text.endsBlank s = false) (fun _ => True) s) : Text.Plain s := by
  cases hs with
  | label h _ => exact Text.plain_of_endsBlank (hquote _ h)
  | column h _ => exact Text.plain_of_endsBlank (Text.endsBlank_unqualified h)

/-- Neither the words nor the names of a tree end in a blank character other than a space. -/
theorem keepsPlain_closed :
    Draft.Closed d (fun s => Text.endsBlank s = false) (fun _ => True) (Draft.KeepsPlain d) :=
  Draft.Stepwise.closed {
    fault e a b hb := by cases hb
    empty a b hb ha := by cases hb; exact ha
    append := KeepsPlain.append
    blank := keepsPlain_blank
    comma := keepsPlain_step fun _ hw => (hw.trimSpaces.push (by decide)).space
    lineBreak := keepsPlain_lineBreak
    opening := keepsPlain_opening
    closing := keepsPlain_closing
    margin := keepsPlain_indent 0
    line depth := keepsPlain_lineBreak.append (keepsPlain_indent depth)
    argument := keepsPlain_argument htoken
    word s hs := keepsPlain_text (by revert s; decide)
    numeral s _ n := keepsPlain_text (Text.plain_numeral s n)
    page _ n := keepsPlain_text (Text.plain_numeral _ n)
    bounds p := keepsPlain_text (Text.plain_of_endsSolid p.endsSolid_rowBounds)
    string hs := keepsPlain_text (Text.plain_of_endsBlank hs)
    table := plain_table
    outputs _ h :=
      keepsPlain_text (Text.plain_intercalate (by decide) fun s hs => plain_output hquote (h s hs))
    labelled hx s hs := hx.parenthesized.append (keepsPlain_text (by revert s; decide))
    assignment hs _ hx :=
      ((keepsPlain_text (Text.plain_of_endsBlank hs)).append (keepsPlain_text (by decide))).append
        hx }

/-- A query that is written without its terminator leaves no other blank than spaces at its end. -/
theorem Query.draft_keepsPlain {q : Query} (hq : (Expression.query q).SolidStrings) :
    (q.draft d false).KeepsPlain d := by
  have hclosed := keepsPlain_closed htoken hquote
  obtain ⟨hstrings, -, hspelled, hitems⟩ := hq
  refine Query.draft_closed hclosed false (fun h => absurd h Bool.false_ne_true) hstrings hspelled
    (fun e he => ?_) fun e he hmarker => ?_
  · exact Expression.draft_closed hclosed (hspelled e he)
  · exact Expression.draft_closed hclosed (hitems e he hmarker)

end Statements

end SqlTree
