import SqlTree.Proofs.Condition.Reader
import SqlTree.Proofs.Draft.Written
import SqlTree.Proofs.Text.Solid

/-!
# Words behind a statement

Nothing that a writer does to the blank end of its text changes what the text says.  So a text is
followed without its blank end: `Writer.Shows` says that there, behind a fixed text, it reads as
given words.  `Draft.Adds` says that a draft adds given words, when the text ends as it requires;
drafts are put together as their words are (`Draft.Adds.append`).
-/

namespace SqlTree

/-! ### Blank ends -/

namespace Writer

/-- The text of a writer without its blank end. -/
def settled (w : Writer) : List Char := Text.trimEnd w.text

/-- A text at the end of which a word may start. -/
def Ready (w : Writer) : Prop :=
  ∃ c rest, w.reversed = c :: rest ∧ (Text.isBlank c = true ∨ c = '(')

/-- Any text. -/
def Any (_ : Writer) : Prop := True

variable {w : Writer}

/-- Blanks at the end of a text are not settled yet: a step may still drop them. -/
theorem exists_text (w : Writer) :
    ∃ gap, w.text = w.settled ++ gap ∧ ∀ c ∈ gap, Text.isBlank c = true :=
  Text.exists_trimEnd_append w.text

theorem reversed_ne_nil (h : w.settled ≠ []) : w.reversed ≠ [] := by
  intro hnil
  rw [settled, text, hnil] at h
  exact h rfl

theorem settled_push {c : Char} (hc : Text.isBlank c = true) : (w.push c).settled = w.settled := by
  rw [settled, text_push]
  exact Text.trimEnd_append_of_blank (List.forall_mem_singleton.mpr hc) _

/-- Dropping spaces at the end takes nothing away that is settled. -/
theorem settled_trimSpaces : w.trimSpaces.settled = w.settled := by
  have hspaces : ∀ c ∈ (w.reversed.takeWhile (· == ' ')).reverse, Text.isBlank c = true := by
    intro c hc
    have hspace : (c == ' ') = true :=
      List.all_eq_true.mp List.all_takeWhile c (List.mem_reverse.mp hc)
    rw [beq_iff_eq] at hspace
    subst hspace
    decide
  have htext : w.text = w.trimSpaces.text ++ (w.reversed.takeWhile (· == ' ')).reverse := by
    rw [text, text, trimSpaces, ← List.reverse_append, List.takeWhile_append_dropWhile]
  rw [settled, settled, htext, Text.trimEnd_append_of_blank hspaces]

theorem settled_blank : w.blank.settled = w.settled :=
  blank_induction rfl (settled_push (by decide))

/-- Behind a blank a word may follow, for there is a blank or an opening parenthesis. -/
theorem ready_blank (h : w.settled ≠ []) : w.blank.Ready := by
  obtain ⟨c, rest, hreversed⟩ := List.exists_cons_of_ne_nil (reversed_ne_nil h)
  rw [blank_of_head w hreversed]
  cases hc : endsTidily c with
  | false =>
    rw [if_neg Bool.false_ne_true]
    exact ⟨' ', w.reversed, rfl, Or.inl (by decide)⟩
  | true =>
    rw [if_pos rfl]
    refine ⟨c, rest, hreversed, ?_⟩
    simp only [endsTidily, Bool.or_eq_true, beq_iff_eq] at hc
    rcases hc with ((rfl | rfl) | rfl) | rfl
    · exact Or.inl (by decide)
    · exact Or.inl (by decide)
    · exact Or.inl (by decide)
    · exact Or.inr rfl

theorem trimSpaces_ne_nil (h : w.settled ≠ []) : w.trimSpaces.reversed ≠ [] := by
  rw [← settled_trimSpaces] at h
  exact reversed_ne_nil h

theorem settled_lineBreak (h : w.settled ≠ []) : w.lineBreak.settled = w.settled := by
  rw [lineBreak_of_ne_nil w (trimSpaces_ne_nil h)]
  cases w.layout with
  | pretty => exact (settled_push (by decide)).trans settled_trimSpaces
  | compact => exact settled_blank

theorem ready_lineBreak (h : w.settled ≠ []) : w.lineBreak.Ready := by
  rw [lineBreak_of_ne_nil w (trimSpaces_ne_nil h)]
  cases w.layout with
  | pretty => exact ⟨'\n', _, rfl, Or.inl (by decide)⟩
  | compact => exact ready_blank h

theorem settled_indent (depth : Nat) : (w.indent depth).settled = w.settled := by
  obtain ⟨layout, reversed⟩ := w
  cases layout with
  | compact => rfl
  | pretty =>
    have htext : (Writer.indent ⟨.pretty, reversed⟩ depth).text =
        (Writer.mk .pretty reversed).text ++ List.replicate depth '\t' := by
      simp [indent, text]
    rw [settled, htext, Text.trimEnd_append_of_blank]
    · rfl
    · intro c hc
      obtain rfl := List.eq_of_mem_replicate hc
      decide

/-- Tabs keep a state in which a word may follow. -/
theorem Ready.indent (h : w.Ready) (depth : Nat) : (w.indent depth).Ready := by
  obtain ⟨layout, reversed⟩ := w
  cases layout with
  | compact => exact h
  | pretty =>
    cases depth with
    | zero => exact h
    | succ depth => exact ⟨'\t', _, rfl, Or.inl (by decide)⟩

/-- A text at the end of which a word may start ends in an opening parenthesis, or is blank there.
-/
theorem Ready.exists_text (h : w.Ready) :
    ∃ gap, w.text = w.settled ++ gap ∧ (∀ c ∈ gap, Text.isBlank c = true) ∧
      (w.settled.getLast? = some '(' ∨ gap ≠ []) := by
  obtain ⟨c, rest, hreversed, hc⟩ := h
  obtain ⟨gap, htext, hgap⟩ := w.exists_text
  refine ⟨gap, htext, hgap, ?_⟩
  -- Without a gap the last character is settled, and so it must be a parenthesis.
  cases gap with
  | cons _ _ => exact Or.inr (List.cons_ne_nil _ _)
  | nil =>
    rw [List.append_nil] at htext
    have hlast : w.text.getLast? = some c := by
      rw [text, hreversed, List.getLast?_reverse]
      rfl
    rw [htext] at hlast
    rcases hc with hc | rfl
    · have hsolid := Text.getLast?_trimEnd hlast
      rw [hc] at hsolid
      cases hsolid
    · exact Or.inl hlast

/-! ### Words of a text -/

/-- Behind a text, and without its blank end, a writer has a text that reads as given words.  The
last of them is read to its end only if it is a parenthesis or a word ends there. -/
def Shows (w : Writer) (d : Dialect) (base : List Char) (start index : Nat)
    (words : List Lexeme) : Prop :=
  ∃ t, w.settled = base ++ t ∧ ∀ rest more, w.settled.getLast? = some '(' ∨ WordEnds rest →
    lexemes d ⟨start, words.filterMap Lexeme.value? ++ more⟩ (t ++ rest) =
      (lexemes d ⟨index, more⟩ rest).map (words ++ ·)

variable {d : Dialect} {base : List Char} {start index : Nat} {words : List Lexeme}

/-- What is shown depends on what is settled alone. -/
theorem Shows.of_settled {w' : Writer} (h : w.Shows d base start index words)
    (hw : w'.settled = w.settled) : w'.Shows d base start index words := by
  unfold Shows
  rw [hw]
  exact h

theorem Shows.settled_ne_nil (h : w.Shows d base start index words) (hbase : base ≠ []) :
    w.settled ≠ [] := by
  obtain ⟨t, ht, -⟩ := h
  rw [ht]
  exact List.append_ne_nil_of_left_ne_nil hbase t

/-- A text that reads as one more word is put behind the others. -/
theorem Shows.extend {w' : Writer} (h : w.Shows d base start index words) {x : List Char}
    (hw : w'.settled = w.settled ++ x)
    (hends : w.settled.getLast? = some '(' ∨ ∀ rest, WordEnds (x ++ rest)) {l : Lexeme}
    {index' : Nat}
    (hx : ∀ rest more, w'.settled.getLast? = some '(' ∨ WordEnds rest →
      lexemes d ⟨index, l.value?.toList ++ more⟩ (x ++ rest) =
        (lexemes d ⟨index', more⟩ rest).map (l :: ·)) :
    w'.Shows d base start index' (words ++ [l]) := by
  obtain ⟨t, ht, hread⟩ := h
  refine ⟨t ++ x, by rw [hw, ht, List.append_assoc], fun rest more hrest => ?_⟩
  -- The values of the new word come behind those of the others.
  have hvalues : (words ++ [l]).filterMap Lexeme.value? ++ more =
      words.filterMap Lexeme.value? ++ (l.value?.toList ++ more) := by
    rw [List.filterMap_append, List.append_assoc]
    cases hl : l.value? <;> simp [hl]
  rw [hvalues, List.append_assoc, hread _ _ (hends.imp_right fun h => h rest), hx rest more hrest,
    Option.map_map]
  refine congrArg (Option.map · _) (funext fun ls => ?_)
  simp

/-- A blank ends a word and a sign. -/
theorem wordEnds_blank {c : Char} (hc : Text.isBlank c = true) (cs : List Char) :
    WordEnds (c :: cs) := by
  intro x hx
  obtain rfl : c = x := Option.some.inj hx
  refine ⟨?_, ?_⟩
  · cases hword : isWordChar c with
    | false => rfl
    | true =>
      rw [isBlank_eq_false_of_isWordChar hword] at hc
      cases hc
  · cases hsign : isSignChar c with
    | false => rfl
    | true =>
      simp only [isSignChar, Bool.or_eq_true, beq_iff_eq] at hsign
      rcases hsign with (rfl | rfl) | rfl <;> exact absurd hc (by decide)

/-- A word ends in front of blanks, or of anything else that would end it. -/
theorem wordEnds_gap {gap : List Char} (hgap : ∀ c ∈ gap, Text.isBlank c = true) {cs : List Char}
    (h : gap ≠ [] ∨ WordEnds cs) : WordEnds (gap ++ cs) := by
  cases gap with
  | nil => exact h.resolve_left fun h => h rfl
  | cons c rest => exact wordEnds_blank (hgap c List.mem_cons_self) _

theorem settled_of_last {cs : List Char} (h : w.text = cs)
    (hlast : ∀ c ∈ cs.getLast?, Text.isBlank c = false) : w.settled = cs := by
  rw [settled, h, Text.trimEnd_of_last hlast]

/-- An opening parenthesis is one more word, whatever stands in front of it. -/
theorem Shows.openParenthesis (h : w.Shows d base start index words) :
    w.openParenthesis.Shows d base start index (words ++ [.opening]) := by
  obtain ⟨gap, htext, hgap⟩ := w.exists_text
  -- Everything up to the parenthesis is settled by it.
  refine h.extend (x := gap ++ ['(']) (settled_of_last ?_ ?_) (Or.inr fun rest => ?_)
    fun rest more _ => ?_
  · rw [text_openParenthesis, htext, List.append_assoc]
  · rw [← List.append_assoc, List.getLast?_concat]
    rintro c ⟨⟩
    decide
  · rw [List.append_assoc]
    exact wordEnds_gap hgap (Or.inr (by rintro c ⟨⟩; decide))
  · rw [List.append_assoc, lexemes_gap hgap]
    exact lexemes_opening rest

/-- A closing parenthesis is one more word; the spaces in front of it are dropped. -/
theorem Shows.closeParenthesis (h : w.Shows d base start index words) :
    w.closeParenthesis.Shows d base start index (words ++ [.closing]) := by
  obtain ⟨gap, htext, hgap⟩ := w.trimSpaces.exists_text
  rw [settled_trimSpaces] at htext
  -- Only spaces have been dropped, and what is left up to the parenthesis is settled by it.
  refine h.extend (x := gap ++ [')']) (settled_of_last ?_ ?_) (Or.inr fun rest => ?_)
    fun rest more _ => ?_
  · rw [text_closeParenthesis, htext, List.append_assoc]
  · rw [← List.append_assoc, List.getLast?_concat]
    rintro c ⟨⟩
    decide
  · rw [List.append_assoc]
    exact wordEnds_gap hgap (Or.inr (by rintro c ⟨⟩; decide))
  · rw [List.append_assoc, lexemes_gap hgap]
    exact lexemes_closing rest

/-- Characters of words are neither blanks nor parentheses. -/
theorem endsSolid_of_word {word : String} (hne : word.toList ≠ [])
    (hword : ∀ c ∈ word.toList, isWordChar c = true) : EndsSolid word.toList := by
  obtain ⟨c, rest, hreverse⟩ := List.exists_cons_of_ne_nil (mt List.reverse_eq_nil_iff.mp hne)
  have hc : isWordChar c = true := hword c (by
    rw [← List.mem_reverse, hreverse]
    exact List.mem_cons_self)
  refine ⟨c, rest, hreverse, isBlank_eq_false_of_isWordChar hc, ?_⟩
  cases htidy : endsTidily c with
  | false => rfl
  | true =>
    simp only [endsTidily, Bool.or_eq_true, beq_iff_eq] at htidy
    rcases htidy with ((rfl | rfl) | rfl) | rfl <;> exact absurd hc (by decide)

theorem getLast?_of_endsSolid {cs : List Char} (h : EndsSolid cs) (front : List Char) :
    ∃ c, (front ++ cs).getLast? = some c ∧ Text.isBlank c = false ∧ c ≠ '(' := by
  obtain ⟨c, rest, hreverse, hblank, htidy⟩ := h.append front
  refine ⟨c, ?_, hblank, ?_⟩
  · rw [← List.head?_reverse, hreverse]
    rfl
  · rintro rfl
    exact absurd htidy (by decide)

/-- A keyword is one more word if it is written where a word may follow. -/
theorem Shows.write_keyword (h : w.Shows d base start index words) (hw : w.Ready) {word : String}
    {l : Lexeme} (hword : ∀ c ∈ word.toList, isWordChar c = true)
    (hkeyword : keyword? word.toList = some l) (hvalue : l.value? = none) :
    (w.write word).Shows d base start index (words ++ [l]) := by
  obtain ⟨gap, htext, hgap, hready⟩ := hw.exists_text
  have hne : word.toList ≠ [] := by
    intro hnil
    rw [hnil] at hkeyword
    cases hkeyword
  obtain ⟨c, hlast, hblank, hopen⟩ :=
    getLast?_of_endsSolid (endsSolid_of_word hne hword) (w.settled ++ gap)
  have hsettled : (w.write word).settled = w.settled ++ (gap ++ word.toList) := by
    refine settled_of_last ?_ fun x hx => ?_
    · rw [text_write, htext, List.append_assoc]
    · rw [← List.append_assoc, hlast] at hx
      obtain rfl := Option.some.inj hx
      exact hblank
  refine h.extend hsettled (hready.imp_right fun hne rest => ?_) fun rest more hrest => ?_
  · rw [List.append_assoc]
    exact wordEnds_gap hgap (Or.inl hne)
  · -- A keyword is no parenthesis, so that it has to end where the text does.
    have hrest : WordEnds rest := by
      refine hrest.resolve_left fun h => hopen ?_
      rw [hsettled, ← List.append_assoc, hlast] at h
      exact Option.some.inj h
    rw [List.append_assoc, lexemes_gap hgap, lexemes_keyword hword hkeyword hrest, hvalue]
    rfl

/-- The blank end of a placeholder does not count, nor does the space in front of it if all of it is
blank. -/
theorem exists_settled_placeholder (placeholder : String) :
    ∃ y, (∀ cs : List Char, (∀ c ∈ cs.getLast?, Text.isBlank c = false) →
        Text.trimEnd (cs ++ ' ' :: placeholder.toList) = cs ++ y) ∧
      (y = [] ∨ ∃ rest, y = ' ' :: rest) ∧
      ∀ rest, ∃ rest', Text.trimStart (y ++ rest) = (Text.trimmed placeholder).toList ++ rest' ∧
        ∀ d s, lexemes d s rest' = lexemes d s rest := by
  rw [Text.trimmed, String.toList_ofList]
  generalize placeholder.toList = p
  obtain ⟨lead, trail, hp, hlead, htrail, -⟩ := Text.exists_trim p
  cases hcore : Text.trim p with
  | nil =>
    -- All of it is blank, so that the text ends before the space.
    have hblank : ∀ c ∈ ' ' :: p, Text.isBlank c = true := by
      intro c hc
      rw [hp, hcore, List.append_nil, List.mem_cons, List.mem_append] at hc
      rcases hc with rfl | hc | hc
      · decide
      · exact hlead c hc
      · exact htrail c hc
    refine ⟨[], fun cs hcs => ?_, Or.inl rfl, fun rest => ?_⟩
    · rw [Text.trimEnd_append_of_blank hblank, Text.trimEnd_of_last hcs, List.append_nil]
    · exact ⟨Text.trimStart rest, rfl, fun d s => lexemes_trimStart rest⟩
  | cons c more =>
    have hc := Text.isBlank_head_trim hcore
    refine ⟨' ' :: (lead ++ c :: more), fun cs _ => ?_, Or.inr ⟨_, rfl⟩, fun rest => ?_⟩
    · have hlast : ∀ x ∈ (cs ++ ' ' :: (lead ++ c :: more)).getLast?, Text.isBlank x = false := by
        intro x hx
        rw [List.append_cons, ← List.append_assoc, List.getLast?_append, ← hcore] at hx
        cases hend : (Text.trim p).getLast? with
        | none =>
          rw [List.getLast?_eq_none_iff, hcore] at hend
          cases hend
        | some z =>
          rw [hend] at hx
          obtain rfl : z = x := Option.some.inj hx
          exact Text.getLast?_trimEnd hend
      have hsplit : cs ++ ' ' :: p = cs ++ ' ' :: (lead ++ c :: more) ++ trail := by
        conv => lhs; rw [hp, hcore]
        simp
      rw [hsplit, Text.trimEnd_append_of_blank htrail, Text.trimEnd_of_last hlast]
    · refine ⟨rest, ?_, fun _ _ => rfl⟩
      have hstart : Text.trimStart (' ' :: (lead ++ (c :: more ++ rest))) = c :: more ++ rest := by
        show (lead ++ (c :: more ++ rest)).dropWhile Text.isBlank = _
        rw [List.dropWhile_append_of_pos hlead]
        simp [hc]
      rw [List.cons_append, List.append_assoc]
      exact hstart

theorem endsSolid_sql (op : Operator) : EndsSolid op.sql.toList := by
  cases op <;> exact ⟨_, _, rfl, by decide, by decide⟩

/-- A comparison takes two spaces, one on each side of its sign. -/
theorem text_comparison {column : String} (hcolumn : EndsSolid column.toList) (op : Operator)
    (p : String) :
    ((((w.write column).blank.write op.sql).blank).write p).text =
      w.text ++ (column.toList ++ ' ' :: op.sql.toList) ++ ' ' :: p.toList := by
  rw [text_write, (solid_write (endsSolid_sql op)).blank, text_push, text_write,
    (solid_write hcolumn).blank, text_push, text_write]
  simp

/-- A comparison is one more word, and uses up a number for its placeholder. -/
theorem Shows.write_comparison (h : w.Shows d base start index words) (hw : w.Ready)
    {c : Comparison} (hcolumn : isPlainName c.column = true) (hop : c.op.isSign = true) :
    ((((w.write c.column).blank.write c.op.sql).blank).write (d.placeholder index none).1).Shows d
      base start (d.placeholder index none).2 (words ++ [.comparison c]) := by
  obtain ⟨gap, htext, hgap, hready⟩ := hw.exists_text
  obtain ⟨y, hplaceholder, hy, hread⟩ :=
    exists_settled_placeholder (d.placeholder index none).1
  have hname := hcolumn
  simp only [isPlainName, Bool.and_eq_true, Bool.not_eq_true', List.isEmpty_eq_false_iff,
    List.all_eq_true] at hname
  have hphrase : EndsSolid (c.column.toList ++ ' ' :: c.op.sql.toList) := by
    rw [List.append_cons]
    exact (endsSolid_sql c.op).append _
  obtain ⟨z, hlast, hblank, hopen⟩ := getLast?_of_endsSolid hphrase w.text
  have hsettled := congrArg Text.trimEnd
    (text_comparison (w := w) (endsSolid_of_word hname.1.1 hname.1.2) c.op
      (d.placeholder index none).1)
  rw [hplaceholder _ fun x hx => by
    rw [hlast] at hx
    exact Option.some.inj hx ▸ hblank] at hsettled
  have hextend : w.text ++ (c.column.toList ++ ' ' :: c.op.sql.toList) ++ y =
      w.settled ++ (gap ++ (c.column.toList ++ ' ' :: (c.op.sql.toList ++ y))) := by
    rw [htext]
    simp
  refine h.extend (hsettled.trans hextend) (hready.imp_right fun hne rest => ?_)
    fun rest more hrest => ?_
  · rw [List.append_assoc]
    exact wordEnds_gap hgap (Or.inl hne)
  · obtain ⟨rest', hstart, hsame⟩ := hread rest
    have htail : ∀ x ∈ (y ++ rest).head?, isSignChar x = false := by
      rcases hy with rfl | ⟨y, rfl⟩
      · -- The text ends in the sign, so that no other one follows.
        refine fun x hx => ((hrest.resolve_left fun h => hopen ?_) x hx).2
        rw [settled, hsettled, List.append_nil, hlast] at h
        exact Option.some.inj h
      · rintro x ⟨⟩
        decide
    rw [List.append_assoc, lexemes_gap hgap, List.append_assoc, List.cons_append, List.append_assoc]
    exact (lexemes_comparison hcolumn hop htail hstart).trans (congrArg _ (hsame d _))

end Writer

end SqlTree
