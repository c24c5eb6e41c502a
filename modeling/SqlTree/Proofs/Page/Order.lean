import SqlTree.Proofs.Page.Columns

/-!
# The order of a page

Where a page of different rows is chosen by number, equal rows are dropped in a derived table, and
the rows that are left are numbered outside it.  So the order of the query is written there under
the names that the columns have in the derived table.  Main statement, `compile_page_order`: such a
name is always one that the derived table makes and that the outer query lists.

The names of the order and of the list are found in two ways.  For the order the first field that is
the column is looked up by the full name of the column; the list goes through the fields and names
each.  Both come to the same name (`namesFirst_outputName`), since a field that is a column has its
name from its alias, or from the column that was looked up.
-/

namespace SqlTree

open Draft (text blank gives_text gives_blank gives_keyword gives_step gives_commaSeparated
  forall₂_gives)
open Piece (word)

variable {d : Dialect} {fields : List Field} {columns : List String} {column name : String}

/-! ### The first field that is a column -/

/-- `NamesFirst fields columns column name`: the entry of `columns` in the place of the first field
that is `column` is `name`. -/
def NamesFirst (fields : List Field) (columns : List String) (column name : String) : Prop :=
  ∃ front f behind, fields = front ++ f :: behind ∧ f.expr = .column column ∧
    (∀ g ∈ front, g.expr ≠ .column column) ∧ columns[front.length]? = some name

/-- The name of a column that was found is among those that are listed. -/
theorem NamesFirst.mem (h : NamesFirst fields columns column name) : name ∈ columns := by
  obtain ⟨front, f, behind, -, -, -, hname⟩ := h
  exact List.mem_of_getElem? hname

theorem Field.isColumn_iff {f : Field} : f.isColumn column = true ↔ f.expr = .column column := by
  unfold isColumn
  constructor
  · intro h
    split at h
    · next c hc => rw [hc, beq_iff_eq.mp h]
    · cases h
  · intro h
    rw [h]
    exact beq_self_eq_true column

/-- A field that is found for a column has the name that the column is written under. -/
theorem outputName_of_find? {f : Field} (hfound : fields.find? (Field.isColumn column) = some f)
    (hname : f.outputColumn? d = some name) : outputName d fields column = name := by
  rw [outputName_eq, hfound, Option.bind_some]
  unfold Field.outputColumn? at hname
  cases hlabel : usedAlias f.label with
  | some label =>
    rw [hlabel] at hname
    exact Option.some.inj hname
  | none =>
    -- Without an alias the name is that of the column that was looked up.
    have hcolumn : f.expr = .column column := Field.isColumn_iff.mp (List.find?_some hfound)
    simp only [hlabel, hcolumn] at hname
    split at hname
    · cases hname
    · exact Option.some.inj hname

/-- Columns are listed if there are fields and each of them has a name. -/
theorem mapM_of_outputColumns? (h : outputColumns? d fields = some columns) :
    fields ≠ [] ∧ fields.mapM (Field.outputColumn? d) = some columns := by
  unfold outputColumns? at h
  split at h
  · cases h
  · next hne => exact ⟨fun hnil => hne (List.isEmpty_iff.mpr hnil), h⟩

/-- A column of the order is written under the name of the first field that is the column. -/
theorem namesFirst_outputName (hcolumns : outputColumns? d fields = some columns)
    (hcolumn : ∃ f ∈ fields, f.expr = .column column) :
    NamesFirst fields columns column (outputName d fields column) := by
  obtain ⟨f, hf⟩ : ∃ f, fields.find? (Field.isColumn column) = some f := by
    obtain ⟨g, hg, hexpr⟩ := hcolumn
    exact Option.isSome_iff_exists.mp
      (List.find?_isSome.mpr ⟨g, hg, Field.isColumn_iff.mpr hexpr⟩)
  -- The field that is found stands behind fields that are other columns or none, and has a name.
  obtain ⟨hexpr, front, behind, hfields, hfront⟩ := List.find?_eq_some_iff_append.mp hf
  have hmap : (front ++ f :: behind).mapM (Field.outputColumn? d) = some columns := by
    rw [← hfields]
    exact (mapM_of_outputColumns? hcolumns).2
  obtain ⟨name, hname, hplace⟩ := exists_getElem?_mapM hmap
  refine ⟨front, f, behind, hfields, Field.isColumn_iff.mp hexpr, fun g hg hcolumn => ?_, ?_⟩
  · have hnot := hfront g hg
    rw [Field.isColumn_iff.mpr hcolumn] at hnot
    cases hnot
  · rw [outputName_of_find? hf hname]
    exact hplace

/-- Fields that all have names have them from their sources. -/
theorem exists_sources (h : fields.mapM (Field.outputColumn? d) = some columns) :
    ∃ sources : List ColumnSource, fields.map Field.columnSource? = sources.map some ∧
      columns = sources.map (ColumnSource.name d) := by
  -- The induction follows the fields, each of which has a name.
  induction fields generalizing columns with
  | nil =>
    obtain rfl := Option.some.inj h
    exact ⟨[], rfl, rfl⟩
  | cons f rest ih =>
    rw [List.mapM_cons] at h
    obtain ⟨name, hname, h⟩ := Option.bind_eq_some_iff.mp h
    obtain ⟨names, hnames, h⟩ := Option.bind_eq_some_iff.mp h
    obtain rfl := Option.some.inj h
    rw [Field.outputColumn?_eq] at hname
    obtain ⟨source, hsource, rfl⟩ := Option.map_eq_some_iff.mp hname
    obtain ⟨sources, hsources, rfl⟩ := ih hnames
    refine ⟨source :: sources, ?_, rfl⟩
    rw [List.map_cons, List.map_cons, hsource, hsources]

/-! ### The words of the order -/

/-- The words of an order by names; rows may be numbered in no order at all. -/
def orderWords (names : List (String × SortOrder)) : List Piece :=
  [word "ORDER BY"] ++
    if names.isEmpty then [word "(SELECT NULL)"]
    else [word ","].intercalate (names.map fun (name, direction) => [word name, word direction.sql])

/-- An order by columns. -/
def orderOfColumns (keys : List (String × SortOrder)) : List OrderField :=
  keys.map fun (column, direction) => ⟨.column column, direction⟩

/-- A column is sorted by its name, and the direction is always spelled out. -/
theorem gives_orderColumn (nameOf : String → String) (key : String × SortOrder) :
    (OrderField.draft d nameOf ⟨.column key.1, key.2⟩).Gives
      [word (nameOf key.1), word key.2.sql] := by
  have hname := ((gives_text (nameOf key.1)).append gives_blank).append (gives_text key.2.sql)
  rw [List.append_nil] at hname
  exact hname

/-- Columns are numbered in the order of the names that they are written under. -/
theorem QueryParts.gives_rowNumber_of_columns {p : QueryParts} {nameOf : String → String}
    {keys : List (String × SortOrder)}
    (horder : p.order = (orderOfColumns keys).map (OrderField.draft d nameOf)) :
    p.rowNumber.Gives
      (numberingWords (orderWords (keys.map fun key => (nameOf key.1, key.2)))) := by
  have hlist : (Draft.keyword "ORDER BY" ++
      if p.order.isEmpty then text "(SELECT NULL)" else Draft.commaSeparated p.order).Gives
      (orderWords (keys.map fun key => (nameOf key.1, key.2))) := by
    refine (gives_keyword "ORDER BY").append ?_
    rw [horder, orderOfColumns, List.isEmpty_map, List.isEmpty_map, List.isEmpty_map, List.map_map,
      List.map_map]
    split
    · exact gives_text "(SELECT NULL)"
    · exact gives_commaSeparated (forall₂_gives fun key _ => gives_orderColumn nameOf key)
  exact (((gives_step .comma).append (gives_keyword "ROW_NUMBER() OVER")).append
    hlist.parenthesized).append (gives_text " AS __row_num")

/-- The order of a page of different rows is written under the names of its fields. -/
theorem Query.order_parts {q : Query} {keys : List (String × SortOrder)}
    (hstyle : d.limitStyle = .rowNumber) (hq : isLimited q.offset q.count = true)
    (hdistinct : q.distinct = true) (hselect : q.select = some fields)
    (horder : q.orderBy = some (orderOfColumns keys)) :
    (q.parts d).order = (orderOfColumns keys).map (OrderField.draft d (outputName d fields)) := by
  have hname : q.orderName d = outputName d fields := by
    rw [orderName, windowed, isWindowed, hq, hstyle, hdistinct, hselect]
    rfl
  show (q.orderBy.getD []).map (OrderField.draft d (q.orderName d)) = _
  rw [hname, horder]
  rfl

/-! ### Pages of different rows -/

/-- Lists that correspond have partners for all their items. -/
theorem exists_mem_of_forall₂ {α β : Type} {R : α → β → Prop} {l : List α} {m : List β}
    (h : List.Forall₂ R l m) {a : α} (ha : a ∈ l) : ∃ b ∈ m, R a b := by
  induction h with
  | nil => cases ha
  | cons hab _ ih =>
    rcases List.mem_cons.mp ha with rfl | ha
    · exact ⟨_, List.mem_cons_self, hab⟩
    · obtain ⟨b, hb, hR⟩ := ih ha
      exact ⟨b, List.mem_cons_of_mem _ hb, hR⟩

/-- **The names in the order of a page.** Where all fields have names, every column that is one of
the fields is written under the name that the first such field has in the list of names.  So a page
of different rows that is chosen by number and ordered by such columns lists the names of its
fields, selects from a derived table that makes a column of each, and numbers the rows of that table
in the order of these names: each name of the order is listed, and the derived table has a column of
that name. -/
theorem compile_page_order (d : Dialect) (hcolumns : outputColumns? d fields = some columns) :
    (∀ column, (∃ f ∈ fields, f.expr = .column column) →
      NamesFirst fields columns column (outputName d fields column)) ∧
    ∀ (layout : Layout) (q : Query) (keys : List (String × SortOrder)),
      d.limitStyle = .rowNumber → 0 < q.offset ∨ 0 < q.count → q.distinct = true →
      q.select = some fields → q.orderBy = some (orderOfColumns keys) →
      (∀ key ∈ keys, ∃ f ∈ fields, f.expr = .column key.1) →
      Compiler.compile ⟨d, layout⟩ (.query q) =
          (q.written d true (Assembly.start layout)).map Assembly.compiled ∧
        ∀ topLevel a b, q.written d topLevel a = .ok b →
          ∃ names items body,
            List.Forall₂ (fun key name => NamesFirst fields columns key.1 name.1 ∧ name.2 = key.2)
              keys names ∧
            List.Forall₂ MakesColumn columns items ∧
            (∀ name ∈ names, name.1 ∈ columns ∧ ∃ item ∈ items, MakesColumn name.1 item) ∧
            ∀ parts, Text.Typeset parts a.writer.text →
              Text.Typeset (parts ++ d.texts a.index (pageWords d topLevel columns
                (numberedWords true items (orderWords names) body) (q.parts d).rowBounds))
                b.writer.text := by
  refine ⟨fun column => namesFirst_outputName hcolumns, ?_⟩
  intro layout q keys hstyle hq hdistinct hselect horder hkeys
  refine ⟨q.compile_eq ⟨d, layout⟩, fun topLevel a b hb => ?_⟩
  have hlimited : isLimited q.offset q.count = true := by
    simp only [isLimited, Bool.or_eq_true, decide_eq_true_eq]
    exact hq
  -- The query has been written, so none of its checks has failed.
  have hsound : (q.draft d topLevel).Sound := by
    rw [← Draft.isOk_addTo _ d a]
    exact congrArg Except.isOk hb
  obtain ⟨hne, hmap⟩ := mapM_of_outputColumns? hcolumns
  obtain ⟨sources, hsources, rfl⟩ := exists_sources hmap
  have hnumber := QueryParts.gives_rowNumber_of_columns
    (Query.order_parts hstyle hlimited hdistinct hselect horder)
  obtain ⟨items, body, hmakes, hgives⟩ :=
    Query.exists_gives_page_of_order hstyle hlimited hselect hne hsources hsound hnumber
  rw [hdistinct] at hgives
  have hnames : List.Forall₂ (fun key name => NamesFirst fields
        (sources.map (ColumnSource.name d)) key.1 name.1 ∧ name.2 = key.2)
      keys (keys.map fun key => (outputName d fields key.1, key.2)) :=
    List.forall₂_map_right_iff.mpr (List.forall₂_same.mpr fun key hkey =>
      ⟨namesFirst_outputName hcolumns (hkeys key hkey), rfl⟩)
  refine ⟨_, items, body, hnames, hmakes, List.forall_mem_map.mpr fun key hkey => ?_,
    fun parts hparts => hgives.typeset hb hparts⟩
  have hlisted := (namesFirst_outputName hcolumns (hkeys key hkey)).mem
  exact ⟨hlisted, exists_mem_of_forall₂ hmakes hlisted⟩

/-- Fields of which two are the same column, the first of them under an alias. -/
def Field.renamedTwice : List Field :=
  [{ expr := .column "t.a", label := some "x" }, { expr := .column "t.a" }, { expr := .column "b" }]

/-- A page of different rows, in the order of the column that has two names. -/
def Query.renamedPage : Query where
  distinct := true
  select := some Field.renamedTwice
  source := some { tables := [{ name := "t" }] }
  orderBy := some (orderOfColumns [("t.a", .desc), ("b", .asc)])
  count := 5

set_option maxRecDepth 2000 in
/-- Of two names of a column the order takes the first. -/
theorem compile_page_order_renamed :
    Compiler.compile ⟨.numbering, .compact⟩ (.query .renamedPage) =
        .ok ⟨"SELECT \"x\", a, b FROM (SELECT __distinct.*, " ++
          "ROW_NUMBER() OVER (ORDER BY \"x\" DESC, b ASC) AS __row_num " ++
          "FROM (SELECT DISTINCT t.a AS \"x\", t.a, b FROM t) AS __distinct) AS __paged " ++
          "WHERE __row_num > 0 AND __row_num <= 5 ORDER BY __row_num;", []⟩ ∧
      NamesFirst Field.renamedTwice ["\"x\"", "a", "b"] "t.a" "\"x\"" ∧
      ∃ (b : Assembly) (names : List (String × SortOrder)) (items : List (List Piece)),
        Query.renamedPage.written .numbering true (Assembly.start .compact) = .ok b ∧
        List.Forall₂ (fun key name =>
            NamesFirst Field.renamedTwice ["\"x\"", "a", "b"] key.1 name.1 ∧ name.2 = key.2)
          [("t.a", SortOrder.desc), ("b", .asc)] names ∧
        ∀ name ∈ names, ∃ item ∈ items, MakesColumn name.1 item := by
  have hcolumns : outputColumns? .numbering Field.renamedTwice = some ["\"x\"", "a", "b"] := rfl
  have hselected : ∀ key ∈ [("t.a", SortOrder.desc), ("b", .asc)],
      ∃ f ∈ Field.renamedTwice, f.expr = .column key.1 := by
    intro key hkey
    rcases List.mem_cons.mp hkey with rfl | hkey
    · exact ⟨_, List.mem_cons_self, rfl⟩
    · obtain rfl := List.mem_singleton.mp hkey
      exact ⟨_, List.mem_cons_of_mem _ (List.mem_cons_of_mem _ List.mem_cons_self), rfl⟩
  obtain ⟨hfirst, hpage⟩ := compile_page_order .numbering hcolumns
  obtain ⟨-, hwritten⟩ := hpage .compact .renamedPage [("t.a", .desc), ("b", .asc)] rfl
    (Or.inr (by decide)) rfl rfl rfl hselected
  obtain ⟨names, items, body, hnames, -, hmakes, -⟩ :=
    hwritten true (Assembly.start .compact) _ rfl
  refine ⟨rfl, hfirst "t.a" (hselected _ List.mem_cons_self), _, names, items, rfl, hnames, ?_⟩
  intro name hname
  exact (hmakes name hname).2

end SqlTree
