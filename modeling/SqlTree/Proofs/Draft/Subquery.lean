import SqlTree.Proofs.Draft.Plain
import SqlTree.Proofs.Statement.Start

/-!
# Subqueries

Main statement, `subquery_in_place`: in one line a subquery is written as the query is written on
its own, between parentheses and without what ends a statement.

A query starts with a word, so that it does not look at what stands in front of it
(`Draft.addTo_onTop`), and its blank end is made of spaces, so that a closing parenthesis drops what
a terminator drops (`Query.draft_keepsPlain`).
-/

namespace SqlTree

open Draft

/-! ### Queries on their own -/

/-- What is written of a query inside its parentheses. -/
structure Rendering where
  /-- The text. -/
  text : List Char
  /-- The values bound in it. -/
  arguments : List Value
  /-- The number of placeholders behind it. -/
  index : Nat

/-- A subquery behind a statement, in one pair of parentheses. -/
def Assembly.subquery (a : Assembly) (r : Rendering) : Assembly where
  writer := ⟨a.writer.layout, (a.writer.text ++ '(' :: r.text ++ [')']).reverse⟩
  arguments := a.arguments ++ r.arguments
  index := r.index

/-- What has been written of a query behind nothing: spaces at the end do not count. -/
def Assembly.rendering (s : Assembly) : Rendering :=
  ⟨s.writer.trimSpaces.text, s.arguments, s.index⟩

namespace Query

variable (d : Dialect)

/-- A query as a whole statement in one line, when `k` placeholders have been counted. -/
def alone (k : Nat) (q : Query) : Except Error Assembly :=
  (q.draft d true).addTo d { writer := { layout := .compact }, index := k }

/-- What ends a whole statement: the order of its page, and the terminator. -/
def trailer (q : Query) : List Char :=
  (if q.windowed d then " ORDER BY __row_num".toList else []) ++ d.terminator.toList

/-- A query on its own without what ends a statement. -/
def render (k : Nat) (q : Query) : Except Error Rendering :=
  (q.alone d k).map fun s =>
    ⟨s.writer.text.take (s.writer.text.length - (q.trailer d).length), s.arguments, s.index⟩

/-- A whole statement is the query with the order of its page and a terminator. -/
theorem draft_true (q : Query) :
    q.draft d true =
      q.draft d false ++
        (if q.windowed d then lineBreak ++ text "ORDER BY __row_num" else empty) ++
        step (.terminate d.terminator) := by
  rw [draft_eq, draft_eq, if_pos rfl, if_neg Bool.false_ne_true, append_empty]
  congr 1
  cases q.windowed d with
  | false => exact (append_empty _).symm
  | true =>
    simp only [if_true]
    unfold QueryParts.windowed
    split
    · rfl
    · rw [if_pos rfl, if_neg Bool.false_ne_true, append_empty]

variable {d}

/-- Where rows are numbered, a query ends in the bounds on their numbers. -/
theorem solid_of_windowed {q : Query} (hwindowed : q.windowed d = true) {a b : Assembly}
    (h : (q.draft d false).addTo d a = .ok b) : b.writer.Solid := by
  rw [draft_eq, hwindowed, if_pos rfl, if_neg Bool.false_ne_true, append_empty] at h
  unfold QueryParts.windowed at h
  split at h
  · cases h
  · rw [if_neg Bool.false_ne_true, append_empty] at h
    obtain ⟨c, -, hc⟩ := addTo_append_eq_ok h
    cases hc
    exact Writer.solid_write (QueryParts.endsSolid_rowBounds _)

/-- Inside parentheses a query is what it is behind nothing. -/
theorem addTo_parenthesized (q : Query) (a : Assembly) :
    (parenthesized (q.draft d false)).addTo d a =
      ((q.draft d false).addTo d ⟨⟨a.writer.layout, []⟩, [], a.index⟩).map fun s =>
        a.subquery s.rendering := by
  have hopen : (step .openParenthesis).addTo d a =
      .ok ⟨⟨a.writer.layout, '(' :: a.writer.reversed⟩, a.arguments, a.index⟩ := rfl
  have hstarts := q.starts_draft d false
  rw [parenthesized, addTo_append, addTo_append, hopen]
  -- The query does not look at the parenthesis in front of it.
  show ((q.draft d false).addTo d _).bind _ = _
  rw [addTo_onTop hstarts]
  cases hs : (q.draft d false).addTo d ⟨⟨a.writer.layout, []⟩, [], a.index⟩ with
  | error e => rfl
  | ok s =>
    obtain ⟨c, hc⟩ := hstarts.exists_anchor hs
    have hlayout := layout_addTo hs
    have htrim := hc.onTop_trimSpaces ('(' :: a.writer.reversed)
    show Except.ok (Assembly.mk ((s.writer.onTop _).trimSpaces.push ')') _ _) = _
    rw [htrim]
    simp [Writer.push, Writer.onTop, Assembly.subquery, Assembly.rendering, Except.map, Writer.text,
      Assembly.onTop, Writer.trimSpaces, hlayout]

variable (htoken : Text.endsBlank d.token = false)
  (hquote : ∀ s, Text.endsBlank s = false → Text.endsBlank (d.quote s) = false)
  {q : Query} (hq : (Expression.query q).SolidStrings)
include htoken hquote hq

/-- A whole statement is the query without the spaces at its end, and the ending. -/
theorem alone_of_ok {k : Nat} {s : Assembly}
    (hs : (q.draft d false).addTo d { writer := { layout := .compact }, index := k } = .ok s) :
    ∃ whole, q.alone d k = .ok whole ∧
      whole.writer.text = s.rendering.text ++ q.trailer d ∧
      whole.arguments = s.arguments ∧ whole.index = s.index := by
  have hplain : s.writer.Plain := by
    refine draft_keepsPlain htoken hquote hq _ s hs ⟨rfl, ?_⟩
    exact (rfl : Text.PlainEnd [])
  rw [alone, draft_true, addTo_append, addTo_append, hs]
  cases hwindowed : q.windowed d with
  | false =>
    refine ⟨_, rfl, ?_, rfl, rfl⟩
    show (s.writer.terminate d.terminator).text = s.writer.trimSpaces.text ++ _
    rw [Writer.text_terminate, hplain.text_trimSpaces, trailer, hwindowed]
    rfl
  | true =>
    -- The query ends in a number, so that nothing is dropped on either side of the order.
    have hsolid : s.writer.Solid := solid_of_windowed hwindowed hs
    have horder : (s.writer.lineBreak.write "ORDER BY __row_num").Solid :=
      Writer.solid_write ⟨'m', _, rfl, by decide, by decide⟩
    refine ⟨_, rfl, ?_, rfl, rfl⟩
    show ((s.writer.lineBreak.write "ORDER BY __row_num").terminate d.terminator).text =
      s.writer.trimSpaces.text ++ _
    rw [horder.text_terminate, Writer.text_write, hsolid.text_lineBreak, hsolid.trimSpaces, trailer,
      hwindowed, hplain.layout]
    simp [Layout.separator]

/-- Rendering a query alone takes off the terminator that it has been given, so that the text is
that of its draft without one. -/
theorem render_eq (k : Nat) :
    q.render d k =
      ((q.draft d false).addTo d { writer := { layout := .compact }, index := k }).map
        Assembly.rendering := by
  cases hs : (q.draft d false).addTo d { writer := { layout := .compact }, index := k } with
  | error e =>
    rw [render, alone, draft_true, addTo_append, addTo_append, hs]
    rfl
  | ok s =>
    obtain ⟨whole, hwhole, htext, harguments, hindex⟩ := alone_of_ok htoken hquote hq hs
    -- What is taken off is as long as what the terminator added.
    have hlength : whole.writer.text.length - (q.trailer d).length = s.rendering.text.length := by
      rw [htext, List.length_append, Nat.add_sub_cancel]
    rw [render, hwhole]
    show Except.ok (Rendering.mk _ _ _) = .ok s.rendering
    rw [hlength, htext, List.take_left, harguments, hindex]
    rfl

end Query

/-! ### Subqueries -/

/-- **A subquery is written as it is on its own.** In one line, a query behind any statement adds to
it, in one pair of parentheses, the text and the arguments that it has as a whole statement without
the ending, or fails as it does on its own; so it does behind an operator without a left side, and
behind a test for membership.  No string in the query ends in a blank character, nor does a
placeholder, and quoting adds no blank end.  The dialect may quote as it likes otherwise; where it
adds a blank end, the two texts can differ (`subquery_keeps_tab`). -/
theorem subquery_in_place {d : Dialect} (htoken : Text.endsBlank d.token = false)
    (hquote : ∀ s, Text.endsBlank s = false → Text.endsBlank (d.quote s) = false) {q : Query}
    (hq : (Expression.query q).SolidStrings) {a : Assembly} (ha : a.writer.layout = .compact) :
    (∀ k whole, q.alone d k = .ok whole → ∃ r, q.render d k = .ok r ∧
      whole.writer.text = r.text ++ q.trailer d) ∧
      ((Expression.query q).draft d).addTo d a = (q.render d a.index).map a.subquery ∧
      (∀ op, ((Expression.condition ⟨none, op, some (.query q)⟩).draft d).addTo d a =
        ((keyword op.sql).addTo d a).bind fun b => (q.render d b.index).map b.subquery) ∧
      ∀ left op, op.isMembership = true →
        ((Expression.condition ⟨some left, op, some (.query q)⟩).draft d).addTo d a =
          ((left.draft d ++ blank ++ keyword op.sql).addTo d a).bind fun b =>
            (q.render d b.index).map b.subquery := by
  have hplace {b : Assembly} (hb : b.writer.layout = .compact) :
      (parenthesized (q.draft d false)).addTo d b = (q.render d b.index).map b.subquery := by
    rw [q.addTo_parenthesized, hb, Query.render_eq htoken hquote hq]
    cases (q.draft d false).addTo d _ <;> rfl
  -- Whatever stands in front of the query, it stays in one line.
  have hbehind (x : Draft) : (x ++ parenthesized (q.draft d false)).addTo d a =
      (x.addTo d a).bind fun b => (q.render d b.index).map b.subquery := by
    rw [addTo_append]
    cases hb : x.addTo d a with
    | error e => rfl
    | ok b => exact hplace ((layout_addTo hb).trans ha)
  refine ⟨fun k whole hwhole => ?_, hplace ha, fun op => hbehind _, fun left op hop => ?_⟩
  · rw [Query.render_eq htoken hquote hq]
    cases hs : (q.draft d false).addTo d { writer := { layout := .compact }, index := k } with
    | error e =>
      rw [Query.alone, Query.draft_true, addTo_append, addTo_append, hs] at hwhole
      cases hwhole
    | ok s =>
      obtain ⟨whole', hwhole', htext, -⟩ := Query.alone_of_ok htoken hquote hq hs
      rw [hwhole] at hwhole'
      obtain rfl := Except.ok.inj hwhole'
      exact ⟨s.rendering, rfl, htext⟩
  · show (left.draft d ++ blank ++ keyword op.sql ++ if op.isMembership then _ else _).addTo d a = _
    rw [if_pos hop]
    exact hbehind _

/-- A query in a membership test, behind one placeholder. -/
theorem subquery_in_place_membership :
    ((Expression.condition ⟨some (.column "a"), .isIn, some (.query {
        source := some ⟨[{ name := "t" }], []⟩
        filter := some [.condition ⟨some (.column "b"), .eq, some (.value (.int 7))⟩] })⟩).draft
        .postgres).addTo .postgres ⟨⟨.compact, "$1 ".toList.reverse⟩, [.int 3], 1⟩ =
      .ok ⟨⟨.compact, "$1 a IN (SELECT * FROM t WHERE b = $2)".toList.reverse⟩,
        [.int 3, .int 7], 2⟩ := by
  have leaf {e : Expression} (hstrings : ∀ s ∈ e.strings, Text.endsBlank s = false)
      (hoperands : e.operands = []) (hitems : e.items = []) : e.SolidStrings :=
    ⟨hstrings, fun _ _ => trivial, by simp [hoperands], by simp [hitems]⟩
  have hcondition : (Expression.condition
      ⟨some (.column "b"), .eq, some (.value (.int 7))⟩).SolidStrings := by
    refine ⟨by decide, fun _ _ => trivial, List.forall_mem_cons.mpr ?_, ?_⟩
    · exact ⟨leaf (by decide) rfl rfl, List.forall_mem_singleton.mpr (leaf (by decide) rfl rfl)⟩
    · exact fun _ hc => absurd hc List.not_mem_nil
  refine Eq.trans ((subquery_in_place (d := .postgres) (by decide)
    (fun s _ => Text.endsBlank_quoteWith (by decide) s) ?_ rfl).2.2.2 (.column "a") .isIn rfl) rfl
  exact ⟨by decide, fun _ _ => trivial, fun _ hc => absurd hc List.not_mem_nil,
    List.forall_mem_singleton.mpr fun _ => hcondition⟩

/-- A dialect that puts a tab behind an identifier to quote it. -/
def Dialect.tabQuotes : Dialect where
  name := "tab"
  quote := fun identifier => identifier ++ "\t"

/-- `SELECT a AS x`. -/
def Query.aliased : Query where
  select := some [{ expr := .column "a", label := some "x" }]

/-- Quoting has to be restricted: a terminator drops every blank character in front of it, and a
closing parenthesis spaces alone, so that a tab behind an alias is kept in place. -/
theorem subquery_keeps_tab :
    Text.endsBlank Dialect.tabQuotes.token = false ∧
      (Expression.query .aliased).SolidStrings ∧
      Query.aliased.render .tabQuotes 0 = .ok ⟨"SELECT a AS x".toList, [], 0⟩ ∧
      ((Expression.query .aliased).draft .tabQuotes).addTo .tabQuotes ⟨⟨.compact, []⟩, [], 0⟩ =
        .ok ⟨⟨.compact, "(SELECT a AS x\t)".toList.reverse⟩, [], 0⟩ ∧
      ((Expression.query .aliased).draft .tabQuotes).addTo .tabQuotes ⟨⟨.compact, []⟩, [], 0⟩ ≠
        (Query.aliased.render .tabQuotes 0).map (Assembly.subquery ⟨⟨.compact, []⟩, [], 0⟩) := by
  have hcolumn : (Expression.column "a").SolidStrings :=
    ⟨by decide, fun _ _ => trivial, fun _ he => absurd he List.not_mem_nil,
      fun _ he => absurd he List.not_mem_nil⟩
  have halone : Query.aliased.render .tabQuotes 0 = .ok ⟨"SELECT a AS x".toList, [], 0⟩ := rfl
  have hplace : ((Expression.query .aliased).draft .tabQuotes).addTo .tabQuotes
      ⟨⟨.compact, []⟩, [], 0⟩ = .ok ⟨⟨.compact, "(SELECT a AS x\t)".toList.reverse⟩, [], 0⟩ := rfl
  refine ⟨by decide, ?_, halone, hplace, ?_⟩
  · exact ⟨by decide, fun _ _ => trivial, List.forall_mem_singleton.mpr hcolumn,
      fun _ he => absurd he List.not_mem_nil⟩
  · rw [hplace, halone]
    intro h
    have htext := congrArg (fun a : Assembly => a.writer.reversed) (Except.ok.inj h)
    exact absurd htext (by decide)

end SqlTree
