import SqlTree.Proofs.Draft.Written
import SqlTree.Proofs.Page.Selection
import SqlTree.Proofs.Statement.Visit
import SqlTree.Proofs.Text.Solid

/-!
# The rows of a page

Main statement, `compile_page`: the three styles of writing a page select the same rows, except that
`LIMIT offset,count` without a count selects none.

A page adds to a query, or to its rows in a derived table, just one limiting text
(`QueryParts.limitText`).  Read as a backend reads it, the text says which rows are returned
(`selects_limitText`), and writing it fails only if the number of the last row does not fit
sixty-four bits (`Query.isOk_written`).
-/

namespace SqlTree

open Draft (empty step text blank lineBreak commaSeparated parenthesized keyword)

/-! ### Limiting texts -/

/-- The text by which a page is chosen. -/
def QueryParts.limitText (p : QueryParts) : LimitStyle → String
  | .offsetComma => "LIMIT " ++ toString p.offset.toNat ++ "," ++ toString p.count.toNat
  | .limitOffset =>
    if p.count = 0 then "OFFSET " ++ toString p.offset.toNat
    else if p.offset = 0 then "LIMIT " ++ toString p.count.toNat
    else "LIMIT " ++ toString p.count.toNat ++ " OFFSET " ++ toString p.offset.toNat
  | .rowNumber => p.rowBounds

/-- Read as a limiting text, a text selects the page of a query; only where `LIMIT offset,count` has
no count it selects nothing. -/
def SelectsPage (style : LimitStyle) (offset count : UInt64) (clause : List Char) : Prop :=
  ∃ selection, RowSelection.read clause = some selection ∧
    ∀ (α : Type) (rows : List α), selection.keep rows =
      if style = .offsetComma ∧ count = 0 then [] else rowWindow offset.toNat count.toNat rows

theorem toNat_ne_zero {n : UInt64} (h : n ≠ 0) : n.toNat ≠ 0 :=
  fun hn => h (UInt64.toNat_inj.mp hn)

/-- In this style both numbers are written always, also a count of nothing. -/
theorem selects_offsetComma (p : QueryParts) :
    SelectsPage .offsetComma p.offset p.count (p.limitText .offsetComma).toList := by
  refine ⟨.slice p.offset.toNat (some p.count.toNat), RowSelection.read_limit_pair _ _, ?_⟩
  intro α rows
  show (rows.drop p.offset.toNat).take p.count.toNat = _
  by_cases hcount : p.count = 0
  · have hnone : p.count.toNat = 0 := by rw [hcount]; rfl
    rw [if_pos ⟨rfl, hcount⟩, hnone, List.take_zero]
  · rw [if_neg fun h => hcount h.2, rowWindow_eq_take _ (toNat_ne_zero hcount)]

/-- In the other styles a clause selects a page if it reads as one that keeps its rows. -/
theorem selectsPage_of_read {style : LimitStyle} (hstyle : style ≠ .offsetComma)
    {offset count : UInt64} {clause : List Char} {selection : RowSelection}
    (hread : RowSelection.read clause = some selection)
    (hkeep : ∀ (α : Type) (rows : List α),
      selection.keep rows = rowWindow offset.toNat count.toNat rows) :
    SelectsPage style offset count clause := by
  refine ⟨selection, hread, ?_⟩
  intro α rows
  rw [if_neg fun h => hstyle h.1]
  exact hkeep α rows

/-- A number that is not asked for is left out of the clause. -/
theorem selects_limitOffset (p : QueryParts) :
    SelectsPage .limitOffset p.offset p.count (p.limitText .limitOffset).toList := by
  unfold QueryParts.limitText
  -- The clause has four forms, by which of the two numbers is nothing; it is not written if both
  -- are.
  by_cases hcount : p.count = 0
  · have hnone : p.count.toNat = 0 := by rw [hcount]; rfl
    rw [if_pos hcount]
    apply selectsPage_of_read (by decide) (RowSelection.read_offset _)
    intro α rows
    rw [hnone, rowWindow_eq_drop]
    rfl
  · rw [if_neg hcount]
    by_cases hoffset : p.offset = 0
    · have hnone : p.offset.toNat = 0 := by rw [hoffset]; rfl
      rw [if_pos hoffset]
      apply selectsPage_of_read (by decide) (RowSelection.read_limit_one _)
      intro α rows
      rw [hnone, rowWindow_eq_take _ (toNat_ne_zero hcount)]
      rfl
    · rw [if_neg hoffset]
      apply selectsPage_of_read (by decide) (RowSelection.read_limit_offset _ _)
      intro α rows
      rw [rowWindow_eq_take _ (toNat_ne_zero hcount)]
      rfl

/-- The numbers of rows start from one, so the offset itself is not in the page. -/
theorem selects_rowNumber (p : QueryParts) :
    SelectsPage .rowNumber p.offset p.count (p.limitText .rowNumber).toList := by
  show SelectsPage _ _ _ p.rowBounds.toList
  unfold QueryParts.rowBounds
  -- Without a count there is no upper bound.
  by_cases hcount : p.count = 0
  · have hnone : p.count.toNat = 0 := by rw [hcount]; rfl
    rw [if_pos hcount, String.append_empty]
    apply selectsPage_of_read (by decide) (RowSelection.read_lower _)
    intro α rows
    rw [hnone, rowWindow_zero]
    rfl
  · rw [if_neg hcount, ← String.append_assoc]
    apply selectsPage_of_read (by decide) (RowSelection.read_both _ _)
    intro α rows
    rw [rowWindow_of_ne_zero _ (toNat_ne_zero hcount)]
    rfl

/-- Nothing at all is the page of a query without a count just when no row is behind its offset. -/
theorem page_eq_window_iff {α : Type} (style : LimitStyle) (offset count : UInt64)
    (rows : List α) :
    (if style = .offsetComma ∧ count = 0 then [] else rowWindow offset.toNat count.toNat rows) =
        rowWindow offset.toNat count.toNat rows ↔
      ¬(style = .offsetComma ∧ count = 0 ∧ offset.toNat < rows.length) := by
  by_cases h : style = .offsetComma ∧ count = 0
  · have hnone : count.toNat = 0 := by rw [h.2]; rfl
    rw [if_pos h, hnone, eq_comm, rowWindow_zero_eq_nil]
    constructor
    · rintro hrows ⟨-, -, hlt⟩
      omega
    · intro hrows
      exact Nat.le_of_not_lt fun hlt => hrows ⟨h.1, h.2, hlt⟩
  · rw [if_neg h]
    exact ⟨fun _ hall => h ⟨hall.1, hall.2.1⟩, fun _ => rfl⟩

/-- In every style the limiting text selects the page, but for a missing count. -/
theorem selects_limitText (p : QueryParts) (style : LimitStyle) :
    SelectsPage style p.offset p.count (p.limitText style).toList := by
  cases style with
  | offsetComma => exact selects_offsetComma p
  | limitOffset => exact selects_limitOffset p
  | rowNumber => exact selects_rowNumber p

/-- A limiting text ends in a digit. -/
theorem endsSolid_limitText (p : QueryParts) (style : LimitStyle) :
    EndsSolid (p.limitText style).toList := by
  cases style with
  | offsetComma =>
    show EndsSolid ("LIMIT " ++ toString p.offset.toNat ++ "," ++ toString p.count.toNat).toList
    exact endsSolid_numeral _ _
  | limitOffset =>
    show EndsSolid (if p.count = 0 then _ else if p.offset = 0 then _ else _ : String).toList
    split
    · exact endsSolid_numeral _ _
    · split
      · exact endsSolid_numeral _ _
      · exact endsSolid_numeral _ _
  | rowNumber =>
    show EndsSolid (_ ++ if p.count = 0 then _ else _ : String).toList
    split
    · rw [String.append_empty]
      exact endsSolid_numeral _ _
    · rw [← String.append_assoc]
      exact endsSolid_numeral _ _

/-! ### Queries with and without a page -/

namespace Query

/-- The query without its page. -/
def unlimited (q : Query) : Query := { q with offset := 0, count := 0 }

/-- The number of the last row of the page does not fit sixty-four bits. -/
def Overflows (q : Query) : Prop :=
  q.count ≠ 0 ∧ UInt64.size ≤ q.offset.toNat + q.count.toNat

/-- The statement after a query has been written to it, as the whole of it or as a part. -/
def written (d : Dialect) (topLevel : Bool) (a : Assembly) (q : Query) : Except Error Assembly :=
  (q.draft d topLevel).addTo d a

/-- A whole query is written to an empty statement. -/
theorem compile_eq (c : Compiler) (q : Query) :
    c.compile (.query q) =
      (q.written c.dialect true (Assembly.start c.layout)).map Assembly.compiled :=
  Draft.assemble_eq _ _ _

/-- The derived table of the numbered rows, still open, and what is selected from it. -/
def numberedTable (d : Dialect) (q : Query) : Draft :=
  keyword "SELECT" ++ keyword (q.parts d).columns ++ keyword "FROM" ++ step .openParenthesis ++
    (q.parts d).numberedRows

/-- What stands at the end of a whole statement. -/
def ending (d : Dialect) (topLevel : Bool) : Draft :=
  if topLevel then step (.terminate d.terminator) else empty

theorem windowed_unlimited (d : Dialect) (q : Query) : q.unlimited.windowed d = false := rfl

theorem draft_unlimited (d : Dialect) (topLevel : Bool) (q : Query) :
    q.unlimited.draft d topLevel =
      (q.unlimited.parts d).plain d false ++ ending d topLevel :=
  draft_eq d topLevel q.unlimited

variable {d : Dialect} {q : Query}

/-- Where pages are limit clauses, a query draws nothing but its clause from its page. -/
theorem draft_limited (hstyle : d.limitStyle ≠ .rowNumber)
    (hq : isLimited q.offset q.count = true) (topLevel : Bool) :
    q.draft d topLevel =
      q.unlimited.draft d false ++ (q.parts d).limitClause d ++ ending d topLevel := by
  have hwindowed : q.windowed d = false := by
    rw [windowed, isWindowed, hq, Bool.true_and, beq_eq_false_iff_ne]
    exact hstyle
  -- Rows are not numbered, so an order calls its columns as it would without limits.
  have hname : q.orderName d = q.unlimited.orderName d := by
    rw [orderName, orderName, hwindowed, windowed_unlimited]
    rfl
  have hparts : (q.unlimited.parts d).plain d false =
      (q.parts d).projection empty ++ listClause "ORDER BY" (q.parts d).order ++ empty := by
    rw [QueryParts.plain, parts, parts, hname]
    rfl
  rw [draft_eq, hwindowed, if_neg Bool.false_ne_true, draft_unlimited, hparts, QueryParts.plain,
    hq, if_pos rfl]
  simp only [ending, Bool.false_eq_true, if_false, Draft.append_empty]

/-- Where pages are chosen by number, the page stands behind the numbered rows. -/
theorem draft_windowed (hstyle : d.limitStyle = .rowNumber)
    (hq : isLimited q.offset q.count = true) (hoverflow : ¬q.Overflows) (topLevel : Bool) :
    q.draft d topLevel =
      q.numberedTable d ++ step .closeParenthesis ++
        (text " AS __paged" ++ lineBreak ++ text (q.parts d).rowBounds ++
          (if topLevel then lineBreak ++ text "ORDER BY __row_num" else empty) ++
          ending d topLevel) := by
  have hwindowed : q.windowed d = true := by
    rw [windowed, isWindowed, hq, hstyle]
    rfl
  have hfits : ¬(UInt64.size ≤ (q.parts d).offset.toNat + (q.parts d).count.toNat ∧
      (q.parts d).count ≠ 0) := fun h => hoverflow ⟨h.2, h.1⟩
  rw [draft_eq, hwindowed, if_pos rfl, QueryParts.windowed, if_neg hfits, ending, parenthesized,
    numberedTable]
  simp only [Draft.append_assoc]

/-- A page whose last number does not fit in sixty-four bits is refused before anything is written.
-/
theorem draft_overflow (hstyle : d.limitStyle = .rowNumber)
    (hq : isLimited q.offset q.count = true) (hoverflow : q.Overflows) (topLevel : Bool) :
    q.draft d topLevel = .fault (.invalidArgument (.rowWindowOverflow q.offset q.count)) := by
  have hwindowed : q.windowed d = true := by
    rw [windowed, isWindowed, hq, hstyle]
    rfl
  have hlarge : UInt64.size ≤ (q.parts d).offset.toNat + (q.parts d).count.toNat ∧
      (q.parts d).count ≠ 0 := ⟨hoverflow.2, hoverflow.1⟩
  rw [draft_eq, hwindowed, if_pos rfl, QueryParts.windowed, if_pos hlarge]
  rfl

end Query

/-! ### Writing the limiting text -/

theorem Writer.write_write (w : Writer) (s t : String) :
    (w.write s).write t = w.write (s ++ t) := by
  show Writer.mk w.layout (t.toList.reverse ++ (s.toList.reverse ++ w.reversed)) =
    Writer.mk w.layout ((s ++ t).toList.reverse ++ w.reversed)
  rw [String.toList_append, List.reverse_append, List.append_assoc]

/-- Behind a text with a solid end a space is due. -/
theorem Writer.write_blank_write (w : Writer) {s : String} (hs : EndsSolid s.toList) (t : String) :
    ((w.write s).blank).write t = w.write (s ++ " " ++ t) := by
  have hspace : (w.write s).push ' ' = (w.write s).write " " := rfl
  rw [(Writer.solid_write hs).blank, hspace, write_write, write_write, String.append_assoc]

/-- A text on a line of its own behind a solid end. -/
theorem Writer.Solid.text_line {w : Writer} (h : w.Solid) (s : String) :
    (w.lineBreak.write s).text = w.text ++ w.layout.separator :: s.toList := by
  rw [Writer.text_write, h.text_lineBreak, List.append_assoc]
  rfl

/-- The table of the numbered rows is closed and named, and a new line begins. -/
theorem Writer.text_named (w : Writer) :
    (w.closeParenthesis.write " AS __paged").lineBreak.text =
      w.trimSpaces.text ++ ") AS __paged".toList ++ [w.layout.separator] := by
  have hname : (w.closeParenthesis.write " AS __paged").Solid :=
    Writer.solid_write ⟨'d', _, rfl, by decide, by decide⟩
  refine hname.text_lineBreak.trans ?_
  rw [Writer.text_write, Writer.text_closeParenthesis, List.append_assoc _ [')']]
  rfl

/-- A limit clause is a new line with the limiting text. -/
theorem addTo_limitClause {d : Dialect} (hstyle : d.limitStyle ≠ .rowNumber) {p : QueryParts}
    (hp : isLimited p.offset p.count = true) (a : Assembly) :
    (p.limitClause d).addTo d a =
      .ok { a with writer := a.writer.lineBreak.write (p.limitText d.limitStyle) } := by
  simp only [isLimited, Bool.or_eq_true, decide_eq_true_eq, UInt64.pos_iff_ne_zero] at hp
  unfold QueryParts.limitClause QueryParts.limitText
  cases hs : d.limitStyle with
  | offsetComma => rfl
  | rowNumber => exact absurd hs hstyle
  | limitOffset =>
    simp only [UInt64.pos_iff_ne_zero]
    by_cases hcount : p.count = 0
    · have hoffset : p.offset ≠ 0 := hp.resolve_right fun h => h hcount
      -- Without a count the clause starts with a space, which a new line does not take.
      rw [if_neg (not_not_intro hcount), if_pos hoffset, if_pos hcount]
      show Except.ok { a with writer := a.writer.lineBreak.blank.write _ } = _
      rw [Writer.blank_lineBreak]
    · by_cases hoffset : p.offset = 0
      · rw [if_pos hcount, if_neg (not_not_intro hoffset), if_neg hcount, if_pos hoffset]
        rfl
      · rw [if_pos hcount, if_pos hoffset, if_neg hcount, if_neg hoffset]
        have hlimit : EndsSolid ("LIMIT " ++ toString p.count.toNat).toList :=
          endsSolid_numeral _ _
        have hwords : "LIMIT " ++ toString p.count.toNat ++ " OFFSET " ++ toString p.offset.toNat =
            "LIMIT " ++ toString p.count.toNat ++ " " ++
              ("OFFSET " ++ toString p.offset.toNat) := by
          have hword : " OFFSET " = " " ++ "OFFSET " := rfl
          simp only [hword, String.append_assoc]
        rw [hwords, ← Writer.write_blank_write _ hlimit]
        rfl

namespace Query

variable {d : Dialect} {q : Query}

/-- A query is limited by a text.  Where pages are chosen by number, the text stands behind the
numbered rows; elsewhere it stands on a new line behind the query without its page. -/
def LimitedBy (d : Dialect) (topLevel : Bool) (q : Query) (a b : Assembly) (clause : List Char) :
    Prop :=
  match d.limitStyle with
  | .rowNumber => ∃ w, (q.numberedTable d).addTo d a = .ok w ∧ b.arguments = w.arguments ∧
      b.writer.text =
        w.writer.trimSpaces.text ++ ") AS __paged".toList ++ [a.writer.layout.separator] ++
          clause ++
          if topLevel then
            a.writer.layout.separator :: "ORDER BY __row_num".toList ++ d.terminator.toList
          else []
  | _ => ∃ w, q.unlimited.written d false a = .ok w ∧ b.arguments = w.arguments ∧
      b.writer.text =
        w.writer.lineBreak.text ++ clause ++ if topLevel then d.terminator.toList else []

/-- In the styles with a clause of its own the limits come behind all others. -/
theorem limitedBy_clause (hstyle : d.limitStyle ≠ .rowNumber)
    (hq : isLimited q.offset q.count = true) {topLevel : Bool} {a b : Assembly}
    (hb : q.written d topLevel a = .ok b) :
    q.LimitedBy d topLevel a b ((q.parts d).limitText d.limitStyle).toList := by
  rw [written, draft_limited hstyle hq] at hb
  obtain ⟨c, hc, hend⟩ := Draft.addTo_append_eq_ok hb
  obtain ⟨w, hw, hclause⟩ := Draft.addTo_append_eq_ok hc
  rw [addTo_limitClause hstyle (p := q.parts d) hq] at hclause
  cases hclause
  -- The clause ends in a digit, so a terminator comes right behind it.
  have hsolid := Writer.solid_write (w := w.writer.lineBreak)
    (endsSolid_limitText (q.parts d) d.limitStyle)
  unfold LimitedBy
  split
  · next h => exact absurd h hstyle
  · refine ⟨w, hw, ?_⟩
    cases topLevel with
    | false =>
      cases hend
      refine ⟨rfl, (Writer.text_write _ _).trans ?_⟩
      rw [if_neg Bool.false_ne_true, List.append_nil]
    | true =>
      cases hend
      refine ⟨rfl, (hsolid.text_terminate _).trans ?_⟩
      rw [Writer.text_write, if_pos rfl]

/-- In the style with numbered rows the limits are conditions of the outer query. -/
theorem limitedBy_bounds (hstyle : d.limitStyle = .rowNumber)
    (hq : isLimited q.offset q.count = true) (hoverflow : ¬q.Overflows) {topLevel : Bool}
    {a b : Assembly} (hb : q.written d topLevel a = .ok b) :
    q.LimitedBy d topLevel a b (q.parts d).rowBounds.toList := by
  rw [written, draft_windowed hstyle hq hoverflow] at hb
  obtain ⟨c, hc, htail⟩ := Draft.addTo_append_eq_ok hb
  obtain ⟨w, hw, hclose⟩ := Draft.addTo_append_eq_ok hc
  cases hclose
  have hlayout : w.writer.layout = a.writer.layout := Draft.layout_addTo hw
  -- The writers in front of the bounds, behind them, and behind the outer order.
  let front := (w.writer.closeParenthesis.write " AS __paged").lineBreak
  let bounds := front.write (q.parts d).rowBounds
  let order := bounds.lineBreak.write "ORDER BY __row_num"
  have hfront : front.text =
      w.writer.trimSpaces.text ++ ") AS __paged".toList ++ [a.writer.layout.separator] := by
    rw [← hlayout]
    exact w.writer.text_named
  have hbounds : bounds.text = front.text ++ (q.parts d).rowBounds.toList := Writer.text_write _ _
  have hboundsSolid : bounds.Solid :=
    Writer.solid_write (endsSolid_limitText (q.parts d) .rowNumber)
  have hboundsLayout : bounds.layout = a.writer.layout :=
    (Writer.layout_apply _ .lineBreak).trans hlayout
  have horder : order.text =
      bounds.text ++ a.writer.layout.separator :: "ORDER BY __row_num".toList := by
    rw [← hboundsLayout]
    exact hboundsSolid.text_line _
  have horderSolid : order.Solid := Writer.solid_write ⟨'m', _, rfl, by decide, by decide⟩
  unfold LimitedBy
  rw [hstyle]
  refine ⟨w, hw, ?_⟩
  rw [← hfront, ← hbounds]
  cases topLevel with
  | false =>
    cases htail
    exact ⟨rfl, (List.append_nil _).symm⟩
  | true =>
    cases htail
    refine ⟨rfl, (horderSolid.text_terminate _).trans ?_⟩
    rw [horder, if_pos rfl, List.append_assoc]

end Query

/-! ### Faults -/

/-- The clauses of a query without faults. -/
def QueryParts.Sound (p : QueryParts) : Prop :=
  p.fields.Sound ∧ p.body.Sound ∧ ∀ x ∈ p.order, x.Sound

namespace QueryParts

variable (p : QueryParts)

theorem sound_projection (extra : Draft) :
    (p.projection extra).Sound ↔ p.fields.Sound ∧ extra.Sound ∧ p.body.Sound := by
  simp [projection, and_assoc]

theorem sound_limitClause (d : Dialect) : (p.limitClause d).Sound := by
  unfold limitClause
  cases d.limitStyle <;> simp

/-- A list in a clause of its own has the faults of its items. -/
theorem sound_listClause (word : String) (items : List Draft) :
    (listClause word items).Sound ↔ ∀ x ∈ items, x.Sound := by
  cases items with
  | nil => simp [listClause]
  | cons x rest => simp [listClause]

theorem sound_plain (d : Dialect) (limited : Bool) : (p.plain d limited).Sound ↔ p.Sound := by
  simp [plain, sound_projection, sound_listClause, sound_limitClause, QueryParts.Sound, and_assoc]

theorem sound_rowNumber : p.rowNumber.Sound ↔ ∀ x ∈ p.order, x.Sound := by
  unfold rowNumber
  cases p.order with
  | nil => simp
  | cons x rest => simp

/-- Numbering needs the order, which the query has checked in any case. -/
theorem sound_numberedRows : p.numberedRows.Sound ↔ p.Sound := by
  unfold numberedRows QueryParts.Sound
  cases p.distinct with
  | true => simp [sound_projection, sound_rowNumber, and_comm, and_assoc]
  | false => simp [sound_projection, sound_rowNumber, and_comm]

end QueryParts

namespace Query

variable {d : Dialect} {q : Query}

theorem sound_orderField (nameOf nameOf' : String → String) (f : OrderField) :
    (f.draft d nameOf).Sound ↔ (f.draft d nameOf').Sound := by
  obtain ⟨expr, direction⟩ := f
  cases expr <;> exact Iff.rfl

/-- The page of a query adds no fault to its clauses. -/
theorem sound_parts (d : Dialect) (q : Query) :
    (q.parts d).Sound ↔ (q.unlimited.parts d).Sound := by
  refine and_congr_right fun _ => and_congr_right fun _ => ?_
  show (∀ x ∈ (q.orderBy.getD []).map (OrderField.draft d (q.orderName d)), x.Sound) ↔
    ∀ x ∈ (q.orderBy.getD []).map (OrderField.draft d (q.unlimited.orderName d)), x.Sound
  rw [List.forall_mem_map, List.forall_mem_map]
  exact forall₂_congr fun f _ => sound_orderField _ _ f

/-- Apart from the number of its last row a page adds no fault to a query. -/
theorem isOk_written (hq : isLimited q.offset q.count = true)
    (hfits : ¬(d.limitStyle = .rowNumber ∧ q.Overflows)) (topLevel : Bool) (a : Assembly) :
    (q.written d topLevel a).isOk = (q.unlimited.written d topLevel a).isOk := by
  -- The terminator is no matter.
  have hending : (ending d topLevel).Sound := by
    unfold ending
    split <;> trivial
  have hunlimited : (q.unlimited.draft d topLevel).Sound ↔ (q.parts d).Sound := by
    rw [draft_unlimited, Draft.sound_append, QueryParts.sound_plain, ← sound_parts]
    exact and_iff_left hending
  have hlimited : (q.draft d topLevel).Sound ↔ (q.parts d).Sound := by
    -- Both ways of writing the limits check the same parts.
    by_cases hstyle : d.limitStyle = .rowNumber
    · rw [draft_windowed hstyle hq fun h => hfits ⟨hstyle, h⟩]
      simp [numberedTable, QueryParts.sound_numberedRows, hending]
    · rw [draft_limited hstyle hq, draft_unlimited]
      simp [QueryParts.sound_plain, QueryParts.sound_limitClause, ← sound_parts, ending]
  refine Bool.eq_iff_iff.mpr ?_
  rw [written, written, Draft.isOk_addTo, Draft.isOk_addTo, hlimited, hunlimited]

end Query

/-! ### Pages -/

/-- **The styles of pages select the same rows.** A query with an offset or a count compiles just
when it does without, or is refused because rows are chosen by number and that of the last one does
not fit sixty-four bits.  Its limiting text is read as a selection of the rows of the page, in every
style; only `LIMIT offset,count` without a count selects none, which is the page just when there are
no rows behind the offset. -/
theorem compile_page (c : Compiler) (q : Query) (hq : 0 < q.offset ∨ 0 < q.count) :
    c.compile (.query q) =
        (q.written c.dialect true (Assembly.start c.layout)).map Assembly.compiled ∧
      ∀ (topLevel : Bool) (a : Assembly),
        (c.dialect.limitStyle = .rowNumber ∧ q.Overflows → q.written c.dialect topLevel a =
          .error (.invalidArgument (.rowWindowOverflow q.offset q.count))) ∧
        (¬(c.dialect.limitStyle = .rowNumber ∧ q.Overflows) →
          (q.written c.dialect topLevel a).isOk = (q.unlimited.written c.dialect topLevel a).isOk ∧
          ∀ b, q.written c.dialect topLevel a = .ok b →
            ∃ clause selection, q.LimitedBy c.dialect topLevel a b clause ∧
              RowSelection.read clause = some selection ∧
              ∀ (α : Type) (rows : List α),
                selection.keep rows =
                  (if c.dialect.limitStyle = .offsetComma ∧ q.count = 0 then []
                    else rowWindow q.offset.toNat q.count.toNat rows) ∧
                (selection.keep rows = rowWindow q.offset.toNat q.count.toNat rows ↔
                  ¬(c.dialect.limitStyle = .offsetComma ∧ q.count = 0 ∧
                    q.offset.toNat < rows.length))) := by
  have hlimited : isLimited q.offset q.count = true := by
    simp only [isLimited, Bool.or_eq_true, decide_eq_true_eq]
    exact hq
  refine ⟨q.compile_eq c, ?_⟩
  intro topLevel a
  constructor
  · rintro ⟨hstyle, hoverflow⟩
    rw [Query.written, Query.draft_overflow hstyle hlimited hoverflow]
    rfl
  · intro hfits
    refine ⟨Query.isOk_written hlimited hfits topLevel a, ?_⟩
    intro b hb
    -- In every style the text is that of the clauses, which is read back below.
    have hclause : q.LimitedBy c.dialect topLevel a b
        ((q.parts c.dialect).limitText c.dialect.limitStyle).toList := by
      by_cases hstyle : c.dialect.limitStyle = .rowNumber
      · rw [hstyle]
        exact Query.limitedBy_bounds hstyle hlimited (fun h => hfits ⟨hstyle, h⟩) hb
      · exact Query.limitedBy_clause hstyle hlimited hb
    obtain ⟨selection, hread, hkeep⟩ :=
      selects_limitText (q.parts c.dialect) c.dialect.limitStyle
    refine ⟨_, selection, hclause, hread, ?_⟩
    intro α rows
    refine ⟨hkeep α rows, ?_⟩
    rw [hkeep α rows]
    exact page_eq_window_iff _ _ _ _

/-- Without a count `LIMIT offset,count` returns none of seven rows, of which two are behind an
offset of five. -/
theorem compile_page_without_count :
    (0 : UInt64) < 5 ∧
      Compiler.compile ⟨.ansi, .compact⟩ (.query {
          source := some { tables := [{ name := "t" }] }
          offset := 5 }) = .ok ⟨"SELECT * FROM t LIMIT 5,0;", []⟩ ∧
      rowWindow 5 0 [1, 2, 3, 4, 5, 6, 7] = [6, 7] ∧
      ∃ clause selection, RowSelection.read clause = some selection ∧
        Query.LimitedBy .ansi true {
            source := some { tables := [{ name := "t" }] }
            offset := 5 } (Assembly.start .compact)
          ⟨⟨.compact, "SELECT * FROM t LIMIT 5,0;".toList.reverse⟩, [], 0⟩ clause ∧
        selection.keep [1, 2, 3, 4, 5, 6, 7] = [] := by
  let q : Query := {
    source := some { tables := [{ name := "t" }] }
    offset := 5 }
  obtain ⟨-, h⟩ := compile_page ⟨.ansi, .compact⟩ q (Or.inl (by decide))
  obtain ⟨clause, selection, hlimited, hread, hkeep⟩ :=
    ((h true (Assembly.start .compact)).2 fun hoverflow => nomatch hoverflow.1).2 _ rfl
  refine ⟨by decide, rfl, rfl, clause, selection, hread, hlimited, ?_⟩
  exact (hkeep Nat [1, 2, 3, 4, 5, 6, 7]).1.trans (if_pos ⟨rfl, rfl⟩)

end SqlTree
