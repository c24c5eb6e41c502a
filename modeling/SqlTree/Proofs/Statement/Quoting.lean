import SqlTree.Proofs.Draft.Endings
import SqlTree.Proofs.Statement.Context
import SqlTree.Proofs.Text.Quoted
import SqlTree.Proofs.Text.Solid

/-!
# Quoted aliases

Main statement, `quote_reads_back`: what a built-in dialect quotes is read back by a scanner, and in
every compiled statement the alias of a field is, from behind its `AS`.

For the second part nothing may be added to the quoted alias, and nothing may be taken away from it.
A field is kept apart from what follows it in the statement (`Draft.StandsIn`), so that the next
character that is written behind the alias is not a quote.  Trimming stops at the quote, since it is
not blank, and what is dropped behind it makes room for a character that is not a quote, either
(`Writer.Clear`).
-/

namespace SqlTree

open Draft

/-! ### Writing behind a mark -/

/-- Dropping characters from a text stops at the mark or before it. -/
theorem dropWhile_above_mark {p : Char → Bool} {mark : Char} (hp : p mark = false) (c : Char)
    (more base : List Char) :
    (more ++ c :: mark :: base).dropWhile p = mark :: base ∨
      ∃ more', (more ++ c :: mark :: base).dropWhile p = more' ++ c :: mark :: base := by
  induction more with
  | nil =>
    cases hc : p c with
    | true => exact .inl (by simp [hc, hp])
    | false => exact .inr ⟨[], by simp [hc]⟩
  | cons a more ih =>
    cases ha : p a with
    | true => simpa [ha] using ih
    | false => exact .inr ⟨a :: more, by simp [ha]⟩

namespace Writer

/-- A text that starts with a character other than the mark. -/
def StartsOther (mark : Char) (s : String) : Prop := ∃ c cs, s.toList = c :: cs ∧ c ≠ mark

/-- A character that ends an identifier: a space is due behind it, and it is never dropped. -/
structure Delimits (mark : Char) : Prop where
  /-- It is not blank. -/
  notBlank : Text.isBlank mark = false
  /-- It does not open a parenthesis. -/
  notTidy : endsTidily mark = false
  /-- It is not what a comma or a parenthesis puts in the place of spaces. -/
  ne_closing : ',' ≠ mark ∧ ')' ≠ mark

/-- The text of a writer has something behind `base`, which is given last character first, and that
does not start with the mark. -/
def Clear (mark : Char) (base : List Char) (w : Writer) : Prop :=
  ∃ more c, c ≠ mark ∧ w.reversed = more ++ c :: base

variable {mark : Char} {base : List Char} {w : Writer}

/-- What comes behind a mark that has been left does not start with another one. -/
theorem Clear.exists_rest (h : w.Clear mark base) :
    ∃ rest, rest.head? ≠ some mark ∧ w.text = base.reverse ++ rest := by
  obtain ⟨more, c, hc, hw⟩ := h
  refine ⟨c :: more.reverse, fun h => hc (Option.some.inj h), ?_⟩
  rw [text, hw, List.reverse_append, List.reverse_cons, List.append_assoc, List.singleton_append]

theorem clear_push {c : Char} (hc : c ≠ mark) (hw : w.reversed = base) :
    (w.push c).Clear mark base :=
  ⟨[], c, hc, congrArg (c :: ·) hw⟩

/-- A mark that has been left stays so, whatever is written further on. -/
theorem Clear.prepend (h : w.Clear mark base) {v : Writer} (cs : List Char)
    (hv : v.reversed = cs ++ w.reversed) : v.Clear mark base := by
  obtain ⟨more, c, hc, hw⟩ := h
  exact ⟨cs ++ more, c, hc, by rw [hv, hw, List.append_assoc]⟩

theorem Clear.push (h : w.Clear mark base) (c : Char) : (w.push c).Clear mark base :=
  h.prepend [c] rfl

theorem Clear.write (h : w.Clear mark base) (s : String) : (w.write s).Clear mark base :=
  h.prepend s.toList.reverse rfl

theorem Clear.blank (h : w.Clear mark base) : w.blank.Clear mark base :=
  blank_induction h (h.push ' ')

/-- What takes the place of the characters that are dropped stands behind the mark, too. -/
theorem Clear.push_dropWhile (h : w.Clear mark (mark :: base)) {p : Char → Bool}
    (hp : p mark = false) {c : Char} (hc : c ≠ mark) :
    (({ w with reversed := w.reversed.dropWhile p } : Writer).push c).Clear mark
      (mark :: base) := by
  obtain ⟨more, a, ha, hw⟩ := h
  rw [hw]
  -- Either all of it is dropped, and the new character is next to the mark, or the old one stays.
  rcases dropWhile_above_mark hp a more base with hdrop | ⟨more', hdrop⟩
  · exact clear_push hc hdrop
  · exact Clear.push ⟨more', a, ha, hdrop⟩ c

/-- Spaces at the end of a text do not reach the mark. -/
theorem Clear.trimSpaces_ne_nil (h : w.Clear mark (mark :: base)) (hp : (mark == ' ') = false) :
    w.trimSpaces.reversed ≠ [] := by
  obtain ⟨more, a, -, hw⟩ := h
  have hdrop := dropWhile_above_mark (p := (· == ' ')) hp a more base
  unfold trimSpaces
  rw [hw]
  rcases hdrop with hdrop | ⟨more', hdrop⟩
  · rw [hdrop]
    exact List.cons_ne_nil _ _
  · rw [hdrop]
    exact List.append_ne_nil_of_right_ne_nil _ (List.cons_ne_nil _ _)

section Calls

variable (hmark : Delimits mark)
include hmark

/-- A mark of quotes is not blank, so that no step drops it. -/
theorem Delimits.ne_of_isBlank {c : Char} (hc : Text.isBlank c = true) : c ≠ mark := by
  rintro rfl
  rw [hmark.notBlank] at hc
  cases hc

theorem Delimits.beq_space : (mark == ' ') = false :=
  beq_eq_false_iff_ne.mpr (hmark.ne_of_isBlank (by decide)).symm

/-- Whatever is called, what has been put behind the mark keeps it apart from what follows. -/
theorem Clear.apply (h : w.Clear mark (mark :: base)) {s : Step} (hs : s.Ends (StartsOther mark)) :
    (w.apply s).Clear mark (mark :: base) := by
  -- Steps that drop blanks stop at the mark, or at the character behind it.
  cases s with
  | write s => exact h.write s
  | print parts =>
    show (parts.foldl Writer.write w).Clear mark (mark :: base)
    clear hs
    induction parts generalizing w with
    | nil => exact h
    | cons s rest ih => exact ih (h.write s)
  | blank => exact h.blank
  | comma => exact (h.push_dropWhile hmark.beq_space hmark.ne_closing.1).push ' '
  | lineBreak =>
    show w.lineBreak.Clear mark (mark :: base)
    rw [lineBreak_of_ne_nil w (h.trimSpaces_ne_nil hmark.beq_space)]
    cases w.layout with
    | pretty => exact h.push_dropWhile hmark.beq_space (hmark.ne_of_isBlank (by decide))
    | compact => exact h.blank
  | indent depth =>
    show (w.indent depth).Clear mark (mark :: base)
    exact indent_induction h (h.prepend (List.replicate depth '\t') rfl)
  | openParenthesis => exact h.push '('
  | closeParenthesis => exact h.push_dropWhile hmark.beq_space hmark.ne_closing.2
  | terminate terminator =>
    obtain ⟨c, cs, hterminator, hc⟩ := hs
    refine (h.push_dropWhile hmark.notBlank hc).prepend cs.reverse ?_
    show terminator.toList.reverse ++ _ = _
    rw [hterminator, List.reverse_cons, List.append_assoc]
    rfl

/-- What separates two parts of a statement is put behind the mark. -/
theorem clear_of_separates (hw : w.reversed = mark :: base) {s : Step} (hs : s.Separates)
    (hend : s.Ends (StartsOther mark)) : (w.apply s).Clear mark (mark :: base) := by
  have htrim {p : Char → Bool} (hp : p mark = false) :
      w.reversed.dropWhile p = mark :: base := by
    rw [hw, List.dropWhile_cons_of_neg (by rw [hp]; exact Bool.false_ne_true)]
  have hblank : w.blank.Clear mark (mark :: base) := by
    rw [blank_of_head w hw, hmark.notTidy, if_neg Bool.false_ne_true]
    exact clear_push (hmark.ne_of_isBlank (by decide)) hw
  have hspaces := htrim (p := (· == ' ')) hmark.beq_space
  -- Each of these steps writes something else than a mark, a blank at least.
  cases s with
  | blank => exact hblank
  | comma => exact (clear_push hmark.ne_closing.1 hspaces).push ' '
  | lineBreak =>
    have hne : w.trimSpaces.reversed ≠ [] := by
      unfold trimSpaces
      rw [hspaces]
      exact List.cons_ne_nil _ _
    show w.lineBreak.Clear mark (mark :: base)
    rw [lineBreak_of_ne_nil w hne]
    cases w.layout with
    | pretty => exact clear_push (hmark.ne_of_isBlank (by decide)) hspaces
    | compact => exact hblank
  | closeParenthesis => exact clear_push hmark.ne_closing.2 hspaces
  | terminate terminator =>
    obtain ⟨c, cs, hterminator, hc⟩ := hend
    have hend := clear_push (w := { w with reversed := w.reversed.dropWhile Text.isBlank }) hc
      (htrim hmark.notBlank)
    refine hend.prepend cs.reverse ?_
    show terminator.toList.reverse ++ _ = _
    rw [hterminator, List.reverse_cons, List.append_assoc]
    rfl
  | write _ | print _ | indent _ | openParenthesis => exact hs.elim

end Calls

end Writer

/-! ### Drafts behind a mark -/

/-- What keeps apart from an identifier does not go on with its mark, whatever follows. -/
theorem Draft.Apart.exists_rest {x : Draft} (hx : x.Apart) {mark : Char}
    (hmark : Writer.Delimits mark) (hend : x.Ends (Writer.StartsOther mark)) {d : Dialect}
    {a b : Assembly} {base : List Char} (ha : a.writer.reversed = mark :: base)
    (h : x.addTo d a = .ok b) :
    ∃ rest, rest.head? ≠ some mark ∧ b.writer.text = a.writer.text ++ rest := by
  have htext : a.writer.text = (mark :: base).reverse := congrArg List.reverse ha
  cases hx with
  | empty =>
    cases h
    exact ⟨[], fun h => Option.some_ne_none mark h.symm, (List.append_nil _).symm⟩
  | fault e => cases h
  | @step s hs y =>
    obtain ⟨c, hc, h⟩ := addTo_append_eq_ok h
    have hstep : s.Ends (Writer.StartsOther mark) := by
      cases y with
      | fault e => cases h
      | pieces l => exact hend _ List.mem_cons_self
    -- The step leaves the mark, and everything behind it keeps it so.
    have hclear : b.writer.Clear mark (mark :: base) := by
      refine (hend.right (sound_step s)).keeps (fun w s hs hw => hw.apply hmark hs) h ?_
      cases hc
      exact Writer.clear_of_separates hmark ha hs hstep
    rw [htext]
    exact hclear.exists_rest

/-! ### Aliases -/

/-- The fields that an expression lists itself. -/
def Expression.fields : Expression → List Field
  | .query q => q.select.getD []
  | .select fields => fields
  | .field f => [f]
  | _ => []

/-- What is written of a list of fields before one of them. -/
def fieldsBefore (d : Dialect) (front : List Field) : Draft :=
  concat (front.map fun f => f.draft d ++ step .comma)

/-- What is written behind the expression of a field that has an alias. -/
def aliasDraft (d : Dialect) (label : String) : Draft :=
  blank ++ text "AS" ++ blank ++ text (d.quote label)

section Aliases

variable {d : Dialect} {e p : Expression}

theorem Field.draft_of_alias {f : Field} {label : String} (h : usedAlias f.label = some label) :
    f.draft d = f.expr.draft d ++ aliasDraft d label := by
  rw [Field.draft_eq, fieldDraft, h]
  simp only [aliasDraft, append_assoc]

theorem Expression.rendered_of_fields (h : e.fields ≠ []) : e.rendered ≠ [] := by
  cases e with
  | query q =>
    obtain ⟨f, hf⟩ := List.exists_mem_of_ne_nil _ h
    refine List.ne_nil_of_mem (a := f.expr) ?_
    simp only [rendered, Query.rendered, List.mem_append]
    exact .inl (.inl (.inl (.inl (List.mem_map_of_mem hf))))
  | select fields => exact fun hnil => h (List.map_eq_nil_iff.mp hnil)
  | field f => exact List.cons_ne_nil _ _
  | _ => exact absurd rfl h

/-- The list of its fields stands in whatever is written for an expression. -/
theorem Expression.standsIn_fields (h : e.fields ≠ []) :
    (selectDraft (e.fields.map (Field.draft d))).StandsIn (e.draft d) := by
  cases e with
  | query q =>
    exact (Query.standsIn_of_has d (q := q) (.fields (.refl _)) false).parenthesized
  | select fields =>
    rw [draft_select]
    exact .refl _
  | field f => exact .refl _
  | _ => exact absurd rfl h

/-- The fields of a query stand in the statement, also if it is the statement itself. -/
theorem Expression.standsIn_statement_fields (h : e.fields ≠ []) :
    (selectDraft (e.fields.map (Field.draft d))).StandsIn (e.statementDraft d) := by
  cases e with
  | query q => exact Query.standsIn_of_has d (q := q) (.fields (.refl _)) true
  | select _ | field _ => exact standsIn_fault _ _
  | _ => exact absurd rfl h

/-- Each list of fields in a statement stands in it. -/
theorem exists_context (hp : p = e ∨ e.Renders p) (h : p.fields ≠ []) :
    (selectDraft (p.fields.map (Field.draft d))).StandsIn (e.statementDraft d) := by
  rcases hp with rfl | hp
  · exact Expression.standsIn_statement_fields h
  · exact (Expression.standsIn_fields h).trans
      (hp.standsIn_statementDraft d (Expression.rendered_of_fields h))

/-- Templates and calls have no fields. -/
theorem compile_of_fields (hp : p = e ∨ e.Renders p) (h : p.fields ≠ []) (c : Compiler) :
    c.compile e = compileStatement c.dialect c.layout e := by
  have hparts : e.rendered ≠ [] := by
    rcases hp with rfl | hp
    · exact Expression.rendered_of_fields h
    · exact hp.rendered_ne_nil
  cases e with
  | text t | procedure q => exact absurd rfl hparts
  | _ => rfl

/-- Behind the expression of a field the alias is written in quotes, behind `AS` and a space. -/
theorem addTo_aliasDraft {mark : Char} (hquote : d.quote = quoteWith mark) (a : Assembly)
    (label : String) :
    ∃ b base, (aliasDraft d label).addTo d a = .ok b ∧ b.writer.reversed = mark :: base ∧
      b.writer.text = a.writer.blank.text ++ "AS ".toList ++ (d.quote label).toList := by
  have hspace : (a.writer.blank.write "AS").blank = (a.writer.blank.write "AS").push ' ' := rfl
  refine ⟨⟨(a.writer.blank.write "AS").blank.write (d.quote label), a.arguments, a.index⟩,
    (Text.doubled mark label.toList).reverse ++ mark :: (a.writer.blank.write "AS").blank.reversed,
    rfl, ?_, ?_⟩
  · show (d.quote label).toList.reverse ++ _ = _
    rw [hquote, Text.toList_quoteWith]
    simp
  · rw [Writer.text_write, hspace, Writer.text_push, Writer.text_write, List.append_assoc,
      List.append_assoc]
    simp

/-- A statement around a list of fields, cut behind the expression of one of them. -/
theorem exists_cut {fields before after : List Field} {f : Field} {label : String}
    (hsplit : fields = before ++ f :: after) (hlabel : usedAlias f.label = some label)
    (front : Draft) {back : Draft} (hback : back.Apart) :
    ∃ behind, behind.Apart ∧ front ++ selectDraft (fields.map (Field.draft d)) ++ back =
      front ++ fieldsBefore d before ++ f.expr.draft d ++ (aliasDraft d label ++ behind) := by
  -- The fields are cut in front of the one with the alias and behind it.
  have hmap : fields.map (Field.draft d) =
      before.map (Field.draft d) ++ f.draft d :: after.map (Field.draft d) := by
    rw [hsplit, List.map_append, List.map_cons]
  have hselect : selectDraft (fields.map (Field.draft d)) =
      commaSeparated (fields.map (Field.draft d)) := by
    rw [selectDraft, hmap]
    exact if_neg (by simp)
  obtain ⟨behind, hbehind, hlist⟩ := commaSeparated_append_cons
    (before.map (Field.draft d)) (f.draft d) (after.map (Field.draft d))
  rw [List.map_map] at hlist
  refine ⟨behind ++ back, hbehind.append hback, ?_⟩
  rw [hselect, hmap, hlist, Field.draft_of_alias hlabel]
  simp only [append_assoc]
  rfl

/-- What is written behind an alias keeps apart from it up to the end of the statement. -/
theorem exists_alias {mark : Char} (hquote : d.quote = quoteWith mark)
    (hmark : Writer.Delimits mark) {x behind : Draft} {label : String} (hbehind : behind.Apart)
    (hend : (x ++ (aliasDraft d label ++ behind)).Ends (Writer.StartsOther mark))
    {layout : Layout} {r : Compiled}
    (h : (x ++ (aliasDraft d label ++ behind)).assemble d layout = .ok r) :
    ∃ a rest, x.addTo d (Assembly.start layout) = .ok a ∧
      r.sql.toList = a.writer.blank.text ++ "AS ".toList ++ ((d.quote label).toList ++ rest) ∧
      rest.head? ≠ some mark := by
  -- The statement is written up to the expression of the field, then the alias, then the rest.
  obtain ⟨c, hc, hsql⟩ := assemble_eq_ok h
  obtain ⟨a, ha, hc⟩ := addTo_append_eq_ok hc
  obtain ⟨b, hb, hc⟩ := addTo_append_eq_ok hc
  obtain ⟨b', base, hb', hbase, htext⟩ := addTo_aliasDraft hquote a label
  obtain rfl : b = b' := Except.ok.inj (hb.symm.trans hb')
  have hx : x.Sound := (isOk_addTo x d _).mp (by rw [ha]; rfl)
  have halias : (aliasDraft d label).Sound := (isOk_addTo _ d a).mp (by rw [hb]; rfl)
  have hbehind' := (hend.right hx).right halias
  obtain ⟨rest, hrest, hfinal⟩ := hbehind.exists_rest hmark hbehind' hbase hc
  refine ⟨a, rest, ha, ?_, hrest⟩
  rw [hsql, hfinal, htext, List.append_assoc]

end Aliases

/-- The built-in dialects with the characters that they quote with. -/
def quoteMarks : List (Dialect × Char) := [(.ansi, '"'), (.mysql, '`'), (.postgres, '"')]

/-- What is needed of the character that a built-in dialect quotes with. -/
theorem quoteMarks_spec {d : Dialect} {mark : Char} (h : (d, mark) ∈ quoteMarks) :
    d.quote = quoteWith mark ∧ Writer.Delimits mark ∧ Writer.StartsOther mark d.terminator := by
  have hdelimits : Writer.Delimits '"' ∧ Writer.Delimits '`' :=
    ⟨⟨by decide, by decide, by decide⟩, ⟨by decide, by decide, by decide⟩⟩
  simp only [quoteMarks, List.mem_cons, List.not_mem_nil, or_false, Prod.mk.injEq] at h
  rcases h with ⟨rfl, rfl⟩ | ⟨rfl, rfl⟩ | ⟨rfl, rfl⟩
  · exact ⟨rfl, hdelimits.1, ';', [], rfl, by decide⟩
  · exact ⟨rfl, hdelimits.2, ';', [], rfl, by decide⟩
  · exact ⟨rfl, hdelimits.1, ';', [], rfl, by decide⟩

/-- **Identifiers can be read back.** Take a built-in dialect and the character that it quotes with.
What it quotes is read back exactly, with what follows left over, unless that starts with the
character; in particular it quotes no two identifiers alike.  In every compiled statement, each
list of fields in it is written somewhere, and for every field of the list that has an alias the
text goes on, behind what is written up to the expression of the field, with `AS` and an
identifier that is read back as the alias. -/
theorem quote_reads_back {d : Dialect} {mark : Char} (hmark : (d, mark) ∈ quoteMarks) :
    (∀ (x : String) (rest : List Char), rest.head? ≠ some mark →
        Text.readQuoted mark ((d.quote x).toList ++ rest) = some (x, rest)) ∧
      Function.Injective d.quote ∧
      ∀ layout e r, Compiler.compile ⟨d, layout⟩ e = .ok r →
        ∀ p, p = e ∨ e.Renders p → p.fields ≠ [] →
          ∃ front back,
            e.statementDraft d = front ++ selectDraft (p.fields.map (Field.draft d)) ++ back ∧
            ∀ before f after label, p.fields = before ++ f :: after →
              usedAlias f.label = some label →
              ∃ a rest, (front ++ fieldsBefore d before ++ f.expr.draft d).addTo d
                  (Assembly.start layout) = .ok a ∧
                r.sql.toList =
                  a.writer.blank.text ++ "AS ".toList ++ ((d.quote label).toList ++ rest) ∧
                Text.readQuoted mark ((d.quote label).toList ++ rest) = some (label, rest) := by
  obtain ⟨hquote, hdelimits, hterminator⟩ := quoteMarks_spec hmark
  have hread (x : String) (rest : List Char) (hrest : rest.head? ≠ some mark) :
      Text.readQuoted mark ((d.quote x).toList ++ rest) = some (x, rest) := by
    rw [hquote]
    exact Text.readQuoted_quoteWith x hrest
  refine ⟨hread, hquote ▸ Text.quoteWith_injective mark, fun layout e r hr p hp hfields => ?_⟩
  -- The select list is cut out of the statement first, then the alias out of the list.
  obtain ⟨front, back, hback, hwhole⟩ := exists_context (d := d) hp hfields
  refine ⟨front, back, hwhole, fun before f after label hsplit hlabel => ?_⟩
  obtain ⟨behind, hbehind, hcut⟩ := exists_cut (d := d) hsplit hlabel front hback
  have hends := e.ends_statementDraft hterminator
  rw [compile_of_fields hp hfields, compileStatement, hwhole, hcut] at hr
  rw [hwhole, hcut] at hends
  obtain ⟨a, rest, ha, hsql, hrest⟩ := exists_alias hquote hdelimits hbehind hends hr
  exact ⟨a, rest, ha, hsql, hread label rest hrest⟩

/-- A mark inside and at the end of an alias in a subquery. -/
theorem quote_reads_back_subquery :
    let inner : Query := {
      select := some [⟨.column "a", some "x\"y\""⟩]
      source := some { tables := [{ name := "t" }] } }
    let e : Expression := .query {
      source := some { tables := [{ name := "u" }] }
      filter := some [.condition ⟨some (.column "b"), .isIn, some (.query inner)⟩] }
    Compiler.compile ⟨.ansi, .compact⟩ e = .ok
        ⟨"SELECT * FROM u WHERE b IN (SELECT a AS \"x\"\"y\"\"\" FROM t);", []⟩ ∧
      ∃ before rest, "SELECT * FROM u WHERE b IN (SELECT a AS \"x\"\"y\"\"\" FROM t);".toList =
          before ++ "AS ".toList ++ ("\"x\"\"y\"\"\"".toList ++ rest) ∧
        Text.readQuoted '"' ("\"x\"\"y\"\"\"".toList ++ rest) = some ("x\"y\"", rest) := by
  intro inner e
  have hcompile : Compiler.compile ⟨.ansi, .compact⟩ e = .ok
      ⟨"SELECT * FROM u WHERE b IN (SELECT a AS \"x\"\"y\"\"\" FROM t);", []⟩ := by
    rfl
  have hrenders : e.Renders (.query inner) :=
    .inside (c := .condition ⟨some (.column "b"), .isIn, some (.query inner)⟩)
      List.mem_cons_self (.direct (List.mem_cons_of_mem _ List.mem_cons_self))
  have hmark : (Dialect.ansi, '"') ∈ quoteMarks := List.mem_cons_self
  obtain ⟨-, -, haliases⟩ := quote_reads_back hmark
  obtain ⟨front, back, -, hread⟩ := haliases .compact e _ hcompile (.query inner) (.inr hrenders)
    (List.cons_ne_nil _ _)
  obtain ⟨a, rest, -, hsql, hrest⟩ := hread [] _ [] "x\"y\"" rfl rfl
  exact ⟨hcompile, a.writer.blank.text, rest, hsql, hrest⟩

end SqlTree
