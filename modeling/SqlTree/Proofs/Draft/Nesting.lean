import SqlTree.Compiler
import SqlTree.Dialect.BuiltIn
import SqlTree.Proofs.Draft.Written
import SqlTree.Proofs.Statement.Closure
import SqlTree.Proofs.Text.Parentheses

/-!
# The parentheses of a statement

Main statement, `compile_parentheses`: the parentheses of a compiled statement are balanced if those
in its strings are, and a marker of a sequence of conditions need not be.

A draft nests at some depth if it closes properly what is open in front of it, whatever that is
(`Draft.Nests`).  Drafts in parentheses nest at no depth.  The items of a sequence of conditions
nest at the depth from which its groups are balanced (`nests_item`), so that a sequence that passes
the check nests at none.
-/

namespace SqlTree

open Draft

namespace Draft

/-- A draft whose parentheses close properly what is open when `depth` parentheses are open in front
of it. -/
def Nests (d : Dialect) (depth : Nat) (x : Draft) : Prop :=
  ∃ cs, Text.closes depth cs = true ∧ ∀ a b : Assembly, x.addTo d a = .ok b →
    b.writer.parentheses = a.writer.parentheses ++ cs

variable {d : Dialect} {j k : Nat} {x y : Draft}

theorem nests_fault (e : Error) : (fault e).Nests d 0 := by
  refine ⟨[], rfl, fun a b hb => ?_⟩
  cases hb

theorem nests_empty : empty.Nests d 0 := by
  refine ⟨[], rfl, fun a b hb => ?_⟩
  cases hb
  exact (List.append_nil _).symm

/-- What is open in front of two drafts is closed by the first one or by the second. -/
theorem Nests.append (hx : x.Nests d j) (hy : y.Nests d k) : (x ++ y).Nests d (j + k) := by
  obtain ⟨cs, hcs, hx⟩ := hx
  obtain ⟨ds, hds, hy⟩ := hy
  refine ⟨cs ++ ds, Text.closes_append hcs hds, fun a c hc => ?_⟩
  obtain ⟨b, hb, hc⟩ := addTo_append_eq_ok hc
  rw [hy b c hc, hx a b hb, List.append_assoc]

/-- A balanced draft may be followed by any other one. -/
theorem Nests.before (hx : x.Nests d 0) (hy : y.Nests d k) : (x ++ y).Nests d k := by
  have h := hx.append hy
  rwa [Nat.zero_add] at h

theorem nests_step {s : Writer.Step} (h : ∀ w : Writer, (w.apply s).parentheses = w.parentheses) :
    (step s).Nests d 0 := by
  refine ⟨[], rfl, fun a b hb => ?_⟩
  cases hb
  rw [List.append_nil]
  exact h a.writer

theorem nests_blank : blank.Nests d 0 := nests_step Writer.parentheses_blank

theorem nests_lineBreak : lineBreak.Nests d 0 := nests_step Writer.parentheses_lineBreak

theorem nests_indent (depth : Nat) : (step (.indent depth)).Nests d 0 :=
  nests_step fun w => w.parentheses_indent depth

/-- A text whose parentheses are balanced leaves the depth as it found it, and never goes below. -/
theorem nests_text {s : String} (hs : Text.Balanced s.toList) : (text s).Nests d 0 := by
  refine ⟨Text.parentheses s.toList, ?_, fun a b hb => ?_⟩
  · rw [Text.closes_parentheses]
    exact Text.balanced_iff.mp hs
  · cases hb
    exact a.writer.parentheses_write s

theorem nests_closing : (step .closeParenthesis).Nests d 1 := by
  refine ⟨[')'], rfl, fun a b hb => ?_⟩
  cases hb
  exact a.writer.parentheses_closeParenthesis

/-- An opening parenthesis in front is one more that is open. -/
theorem Nests.opening (hx : x.Nests d (k + 1)) : (step .openParenthesis ++ x).Nests d k := by
  obtain ⟨cs, hcs, hx⟩ := hx
  refine ⟨'(' :: cs, hcs, fun a c hc => ?_⟩
  obtain ⟨b, hb, hc⟩ := addTo_append_eq_ok hc
  have hopen : b.writer.parentheses = a.writer.parentheses ++ ['('] := by
    cases hb
    exact a.writer.parentheses_openParenthesis
  rw [hx b c hc, hopen, List.append_assoc]
  rfl

theorem Nests.parenthesized (hx : x.Nests d 0) : (parenthesized x).Nests d 0 := by
  rw [Draft.parenthesized, append_assoc]
  exact (hx.append nests_closing).opening

/-! ### Sequences of conditions -/

/-- An item in front of the others: a marker opens or closes a group, and any other item is
balanced. -/
theorem nests_item {e : Expression} {rest : List Expression} {body : Draft}
    (hbalanced : Conditions.balancedFrom k (e :: rest) = true)
    (hbody : e.isMarker = false → body.Nests d 0)
    (hrest : ∀ k, Conditions.balancedFrom k rest = true → y.Nests d k) :
    (itemDraft e body ++ y).Nests d k := by
  unfold Conditions.balancedFrom at hbalanced
  unfold itemDraft
  -- An opening marker leaves one more group open for the items behind it.
  by_cases hopens : e.opensGroup = true
  · rw [if_pos hopens] at hbalanced ⊢
    exact (hrest _ hbalanced).opening
  rw [if_neg hopens] at hbalanced ⊢
  -- A closing marker ends the group that was opened last, and there is one: the sequence is
  -- balanced.
  by_cases hcloses : e.closesGroup = true
  · rw [if_pos hcloses] at hbalanced ⊢
    cases k with
    | zero => exact absurd hbalanced Bool.false_ne_true
    | succ k =>
      have h := nests_closing.append (hrest k hbalanced)
      rwa [Nat.add_comm] at h
  · rw [if_neg hcloses] at hbalanced ⊢
    exact (hbody (by simp [Expression.isMarker, hopens, hcloses])).before (hrest k hbalanced)

variable {part : Expression → Draft} {items : List Expression}

/-- The lines of a balanced sequence close every group that they open; `k` groups are open in front
of them. -/
theorem nests_lines (depth : Nat) (first : Bool)
    (hbalanced : Conditions.balancedFrom k items = true)
    (h : Bodies (Nests d 0) part items) :
    (itemLines depth first (items.zip (items.map part))).Nests d k := by
  -- The induction follows the items; the number of open groups changes at each marker.
  induction items generalizing k depth first with
  | nil =>
    obtain rfl : k = 0 := beq_iff_eq.mp hbalanced
    exact nests_empty
  | cons e rest ih =>
    obtain ⟨hbody, hbodies⟩ := List.forall_mem_cons.mp h
    -- No line break in front of the first item.
    have hstart : (if first then empty else lineBreak).Nests d 0 := by
      cases first with
      | true => exact nests_empty
      | false => exact nests_lineBreak
    rw [List.map_cons, List.zip_cons_cons, itemLines, append_assoc]
    refine (hstart.append (nests_indent _)).before (nests_item hbalanced hbody fun k hk => ?_)
    exact ih _ _ hk hbodies

theorem nests_conditions (hbalanced : Conditions.balancedFrom k items = true)
    (h : Bodies (Nests d 0) part items) :
    (concat ((items.zip (items.map part)).map fun (item, body) =>
      blank ++ itemDraft item body)).Nests d k := by
  induction items generalizing k with
  | nil =>
    obtain rfl : k = 0 := beq_iff_eq.mp hbalanced
    exact nests_empty
  | cons e rest ih =>
    obtain ⟨hbody, hbodies⟩ := List.forall_mem_cons.mp h
    rw [List.map_cons, List.zip_cons_cons, List.map_cons, concat, append_assoc]
    exact nests_blank.before (nests_item hbalanced hbody fun k hk => ih hk hbodies)

/-! ### Statements -/

theorem balanced_words : ∀ s ∈ words, Text.Balanced s.toList := by decide

theorem nests_table {t : Table} (h : ∀ s ∈ t.strings, Text.Balanced s.toList) :
    t.draft.Nests d 0 := by
  refine Table.draft_of_names nests_fault Nests.append nests_text (fun hs _ => ?_) h
  exact (nests_text hs).append (nests_text (by decide))

theorem unparenthesized_composes : Text.Composes Text.Unparenthesized where
  append := Text.Unparenthesized.append
  numeral := Text.unparenthesized_toString

/-- A placeholder holds no parenthesis if its token holds none. -/
theorem nests_argument (htoken : Text.Unparenthesized d.token) (v : Value) :
    (argument none v).Nests d 0 := by
  refine ⟨[], rfl, fun a b hb => ?_⟩
  cases hb
  have hplain : Text.Unparenthesized (d.placeholder a.index none).1 :=
    unparenthesized_composes.placeholder htoken (by decide) a.index (by simp)
  exact (a.writer.parentheses_write _).trans (congrArg _ (Text.unparenthesized_iff.mp hplain))

section Closure

variable (htoken : Text.Unparenthesized d.token)
  (hquote : ∃ b ∈ Dialect.builtIn, d.quote = b.quote)
include htoken hquote

omit htoken in
/-- Names hold no parenthesis, quoted or not. -/
theorem balanced_output {s : String}
    (hs : IsOutput d (fun s => Text.Balanced s.toList) Text.Unparenthesized s) :
    Text.Balanced s.toList := by
  cases hs with
  | @label s h _ =>
    obtain ⟨mark, hmark, hquote⟩ := Dialect.exists_quoteWith hquote
    have hplain : Text.isParenthesis mark = false := by rcases hmark with rfl | rfl <;> rfl
    rw [Text.balanced_iff] at h ⊢
    rwa [hquote, ← Text.closes_parentheses, Text.parentheses_quoteWith hplain,
      Text.closes_parentheses]
  | column _ hcolumn => exact (Text.unparenthesized_unqualified hcolumn).balanced

/-- Words are balanced, parentheses come in pairs, and a sequence of conditions is checked before
its markers are written. -/
theorem nests_closed :
    Draft.Closed d (fun s => Text.Balanced s.toList) Text.Unparenthesized (Nests d 0) where
  fault := nests_fault
  empty := nests_empty
  append := Nests.append
  blank := nests_blank
  comma := nests_step Writer.parentheses_comma
  lineBreak := nests_lineBreak
  argument := nests_argument htoken
  word s hs := nests_text (balanced_words s hs)
  numeral s hs n := by
    have hs : Text.Unparenthesized s := by revert s; decide
    exact nests_text (hs.append (Text.unparenthesized_toString n)).balanced
  page m n := nests_text (unparenthesized_composes.page (by decide) (by decide) m n).balanced
  bounds p := nests_text
    (unparenthesized_composes.rowBounds (by decide) (by decide) (by decide) p).balanced
  string := nests_text
  table := nests_table
  outputs _ h := nests_text <|
    Text.balanced_intercalate (by decide) fun s hs => balanced_output hquote (h s hs)
  labelled hx s hs := by
    have hs : Text.Balanced s.toList := by revert s; decide
    exact hx.parenthesized.append (nests_text hs)
  assignment hs _ hx := ((nests_text hs).append (nests_text (by decide))).append hx
  parenthesized := Nests.parenthesized
  lines := nests_lines 0 true
  conditions := nests_conditions

end Closure

/-- A balanced draft assembles to a balanced text. -/
theorem Nests.assemble (hx : x.Nests d 0) {layout : Layout} {r : Compiled}
    (h : x.assemble d layout = .ok r) : Text.Balanced r.sql.toList := by
  obtain ⟨cs, hcs, hx⟩ := hx
  obtain ⟨b, hb, hsql⟩ := assemble_eq_ok h
  have hparentheses : Text.parentheses b.writer.text = cs := hx _ b hb
  rwa [hsql, Text.balanced_iff, ← Text.closes_parentheses, hparentheses]

end Draft

/-- **Compiled statements have balanced parentheses.** If names of columns have no parentheses and
every other string of a statement is balanced, then so is the text that it compiles to, in a dialect
with quotes of a built-in dialect and without parentheses in token and terminator.  The markers in
sequences of conditions are free. -/
theorem compile_parentheses {d : Dialect} (hquote : ∃ b ∈ Dialect.builtIn, d.quote = b.quote)
    (htoken : Text.Unparenthesized d.token) (hterminator : Text.Unparenthesized d.terminator)
    (layout : Layout) {e : Expression} (he : e.isStatement = true)
    (hspelled : e.Spelled (fun s => Text.Balanced s.toList) Text.Unparenthesized) {r : Compiled}
    (h : Compiler.compile ⟨d, layout⟩ e = .ok r) : Text.Balanced r.sql.toList := by
  have hend : (step (.terminate d.terminator)).Nests d 0 :=
    nests_step fun w => w.parentheses_terminate hterminator
  have hdraft : (e.statementDraft d).Nests d 0 :=
    Expression.statementDraft_closed (nests_closed htoken hquote) hend hspelled
  rw [compile_of_isStatement he] at h
  exact hdraft.assemble h

set_option maxRecDepth 2000 in
/-- A group around a condition that has a subquery. -/
theorem compile_parentheses_group :
    let e : Expression := .delete {
      table := { name := "t" }
      filter := some [.openGroup, .condition {
        left := some (.column "a")
        op := .isIn
        right := some (.query { source := some { tables := [{ name := "u" }] } }) }, .closeGroup] }
    Compiler.compile ⟨.ansi, .compact⟩ e =
        .ok ⟨"DELETE FROM t WHERE (a IN (SELECT * FROM u));", []⟩ ∧
      Text.Balanced "DELETE FROM t WHERE (a IN (SELECT * FROM u));".toList := by
  intro e
  have hnone {c : Expression} {p : Prop} (hc : c ∈ ([] : List Expression)) : p :=
    absurd hc List.not_mem_nil
  have hcolumn : (Expression.column "a").Spelled (fun s => Text.Balanced s.toList)
      Text.Unparenthesized := ⟨by decide, by decide, fun _ => hnone, fun _ hc _ => hnone hc⟩
  have hquery : (Expression.query { source := some { tables := [{ name := "u" }] } }).Spelled
      (fun s => Text.Balanced s.toList) Text.Unparenthesized :=
    ⟨by decide, by decide, fun _ => hnone, fun _ hc _ => hnone hc⟩
  have hspelled : e.Spelled (fun s => Text.Balanced s.toList) Text.Unparenthesized := by
    refine ⟨by decide, by decide, fun _ => hnone, fun c hc hmarker => ?_⟩
    simp only [e, Expression.items, Option.getD_some, List.mem_cons, List.not_mem_nil,
      or_false] at hc
    rcases hc with rfl | rfl | rfl
    · exact absurd hmarker (by decide)
    · refine ⟨by decide, by decide, fun c hc => ?_, fun _ hc _ => hnone hc⟩
      rcases List.mem_cons.mp hc with rfl | hc
      · exact hcolumn
      · exact List.mem_singleton.mp hc ▸ hquery
    · exact absurd hmarker (by decide)
  have hcompile : Compiler.compile ⟨.ansi, .compact⟩ e =
      .ok ⟨"DELETE FROM t WHERE (a IN (SELECT * FROM u));", []⟩ := rfl
  exact ⟨hcompile, compile_parentheses ⟨.ansi, List.mem_cons_self, rfl⟩ (by decide) (by decide)
    .compact rfl hspelled hcompile⟩

end SqlTree
