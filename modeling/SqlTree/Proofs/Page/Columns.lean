import SqlTree.Proofs.Draft.Words
import SqlTree.Proofs.Lists
import SqlTree.Proofs.Page.Limit

/-!
# The columns of a page

Where rows are chosen by number, a query selects from a derived table and names its columns.  Main
statement, `compile_page_columns`: the outer query lists the names of the fields in their order, the
derived table makes a column of that name from each field, and a listed name stands for one column
just when no other field has it and it is not the name of the row numbers.

A field has its name from an alias or from a column (`ColumnSource`), and drops the qualifier of the
column.  So fields from different sources may well have the same name, as in a join of two tables
with columns of one name.
-/

namespace SqlTree

open Draft (empty step text blank lineBreak commaSeparated parenthesized keyword gives_text
  gives_step gives_blank gives_lineBreak gives_empty gives_keyword gives_commaSeparated
  sound_append)
open Piece (word)

/-! ### Names -/

/-- What names the column of a field. -/
inductive ColumnSource where
  /-- An alias that is not empty. -/
  | label (s : String)
  /-- A column, with its qualifiers. -/
  | column (s : String)
  deriving DecidableEq, Repr

/-- The name that a column gets. -/
def ColumnSource.name (d : Dialect) : ColumnSource → String
  | .label s => d.quote s
  | .column s => unqualified s

/-- What names the column of a field, if it has a name. -/
def Field.columnSource? (f : Field) : Option ColumnSource :=
  match usedAlias f.label, f.expr with
  | some label, _ => some (.label label)
  | none, .column c => if unqualified c = "*" then none else some (.column c)
  | none, _ => none

variable {d : Dialect} {fields : List Field} {sources : List ColumnSource}

/-- The name that a field is selected by is that of the column that it makes. -/
theorem Field.outputColumn?_eq (d : Dialect) (f : Field) :
    f.outputColumn? d = f.columnSource?.map (ColumnSource.name d) := by
  unfold outputColumn? columnSource?
  cases usedAlias f.label with
  | some label => rfl
  | none =>
    cases f.expr with
    | column c =>
      dsimp only
      split <;> rfl
    | _ => rfl

/-- The names that the outer query lists. -/
theorem outputColumns?_eq (hne : fields ≠ [])
    (h : fields.map Field.columnSource? = sources.map some) :
    outputColumns? d fields = some (sources.map (ColumnSource.name d)) := by
  have hmap : fields.map (Field.outputColumn? d) =
      (sources.map (ColumnSource.name d)).map some := by
    have hname := congrArg (List.map (Option.map (ColumnSource.name d))) h
    rw [List.map_map, List.map_map] at hname
    rw [funext (Field.outputColumn?_eq d), List.map_map]
    exact hname
  rw [outputColumns?, if_neg (mt List.isEmpty_iff.mp hne)]
  exact mapM_eq_some_of_map_eq hmap

/-! ### The words of a field -/

/-- The words of a field that makes a column of a given name: the name stands behind `AS`, or it is
that of a column behind its qualifiers. -/
def MakesColumn (name : String) (item : List Piece) : Prop :=
  (∃ e, item = e ++ [word "AS", word name]) ∨ ∃ c, item = [word c] ∧ unqualified c = name

/-- A field that has a name writes an item that makes a column of this name. -/
theorem Field.exists_gives {f : Field} {source : ColumnSource}
    (hsource : f.columnSource? = some source) (hsound : (f.draft d).Sound) :
    ∃ item, (f.draft d).Gives item ∧ MakesColumn (source.name d) item := by
  rw [Field.draft_eq] at hsound ⊢
  unfold columnSource? at hsource
  unfold fieldDraft at hsound ⊢
  cases hlabel : usedAlias f.label with
  | some label =>
    rw [hlabel] at hsource hsound
    obtain rfl := Option.some.inj hsource
    -- The words of the expression are not looked at.
    simp only [sound_append] at hsound
    obtain ⟨e, he⟩ := hsound.1.1.1.1.exists_gives
    have hwords := (((he.append gives_blank).append (gives_text "AS")).append gives_blank).append
      (gives_text (d.quote label))
    refine ⟨_, hwords, .inl ⟨e, ?_⟩⟩
    simp only [List.append_nil, List.append_assoc]
    rfl
  | none =>
    rw [hlabel] at hsource
    cases hexpr : f.expr with
    | column c =>
      rw [hexpr] at hsource
      dsimp only at hsource
      split at hsource
      · cases hsource
      · obtain rfl := Option.some.inj hsource
        exact ⟨[word c], gives_text c, .inr ⟨c, rfl, rfl⟩⟩
    | _ =>
      rw [hexpr] at hsource
      cases hsource

/-- The fields of a list make columns of their names, in their order. -/
theorem exists_gives_fields (h : fields.map Field.columnSource? = sources.map some)
    (hsound : ∀ f ∈ fields, (f.draft d).Sound) :
    ∃ items, List.Forall₂ Draft.Gives (fields.map (Field.draft d)) items ∧
      List.Forall₂ MakesColumn (sources.map (ColumnSource.name d)) items := by
  induction fields generalizing sources with
  | nil =>
    obtain rfl := List.map_eq_nil_iff.mp h.symm
    exact ⟨[], .nil, .nil⟩
  | cons f rest ih =>
    obtain ⟨source, sources, rfl, hsource, hrest⟩ := List.map_eq_cons_iff.mp h.symm
    obtain ⟨hf, hsound⟩ := List.forall_mem_cons.mp hsound
    obtain ⟨item, hgives, hmakes⟩ := Field.exists_gives hsource.symm hf
    obtain ⟨items, hgivesRest, hmakesRest⟩ := ih hrest.symm hsound
    exact ⟨item :: items, .cons hgives hgivesRest, .cons hmakes hmakesRest⟩

/-! ### The words of a page -/

/-- The column of the row numbers. -/
def numberingWords (order : List Piece) : List Piece :=
  [word ",", word "ROW_NUMBER() OVER"] ++ ([word "("] ++ order ++ [word ")"]) ++
    [word " AS __row_num"]

/-- Fields, something behind them, and the clauses that the rows come from. -/
def projectionWords (distinct : Bool) (items : List (List Piece)) (extra body : List Piece) :
    List Piece :=
  [word "SELECT"] ++ (if distinct then [word "DISTINCT"] else []) ++
    [word ","].intercalate items ++ extra ++ body

/-- The fields and the row numbers.  Equal rows are dropped before they are numbered. -/
def numberedWords (distinct : Bool) (items : List (List Piece)) (order body : List Piece) :
    List Piece :=
  if distinct then
    [word "SELECT __distinct.*"] ++ numberingWords order ++ [word "FROM"] ++
      ([word "("] ++ projectionWords true items [] body ++ [word ")"]) ++ [word " AS __distinct"]
  else projectionWords false items (numberingWords order) body

/-- A selection of names from the derived table of numbered rows. -/
def pageWords (d : Dialect) (topLevel : Bool) (names : List String) (numbered : List Piece)
    (bounds : String) : List Piece :=
  [word "SELECT", word (", ".intercalate names), word "FROM"] ++
    ([word "("] ++ numbered ++ [word ")"]) ++ [word " AS __paged", word bounds] ++
      if topLevel then [word "ORDER BY __row_num", word d.terminator] else []

namespace QueryParts

variable {p : QueryParts} {items : List (List Piece)} {extra : Draft} {order body more : List Piece}

/-- Fields, further columns and clauses come one after the other. -/
theorem gives_projection (hfields : p.fields.Gives ([word ","].intercalate items))
    (hextra : extra.Gives more) (hbody : p.body.Gives body) :
    (p.projection extra).Gives (projectionWords p.distinct items more body) := by
  have hdistinct : (if p.distinct then blank ++ text "DISTINCT" else empty).Gives
      (if p.distinct then [word "DISTINCT"] else []) := by
    split
    · exact gives_blank.append (gives_text "DISTINCT")
    · exact gives_empty
  have hselect := ((gives_text "SELECT").append hdistinct).append gives_blank
  rw [List.append_nil] at hselect
  exact ((hselect.append hfields).append hextra).append hbody

theorem exists_gives_rowNumber (h : p.rowNumber.Sound) :
    ∃ order, p.rowNumber.Gives (numberingWords order) := by
  unfold rowNumber at h ⊢
  simp only [sound_append, Draft.sound_parenthesized] at h
  obtain ⟨order, horder⟩ := (sound_append.mpr h.1.2).exists_gives
  refine ⟨order, ?_⟩
  exact (((gives_step .comma).append (gives_keyword "ROW_NUMBER() OVER")).append
    horder.parenthesized).append (gives_text " AS __row_num")

/-- With `DISTINCT` the rows are numbered around the query, and without it inside. -/
theorem gives_numberedRows (hfields : p.fields.Gives ([word ","].intercalate items))
    (hnumber : p.rowNumber.Gives (numberingWords order)) (hbody : p.body.Gives body) :
    p.numberedRows.Gives (numberedWords p.distinct items order body) := by
  unfold numberedRows numberedWords
  -- Numbers would set equal rows apart, so that duplicates have to go first.
  cases hdistinct : p.distinct with
  | false =>
    have hrows := gives_projection hfields hnumber hbody
    rw [hdistinct] at hrows
    exact hrows
  | true =>
    have hrows := gives_projection hfields gives_empty hbody
    rw [hdistinct] at hrows
    have hselect := ((gives_text "SELECT __distinct.*").append hnumber).append gives_lineBreak
    rw [List.append_nil] at hselect
    exact ((hselect.append (gives_keyword "FROM")).append hrows.parenthesized).append
      (gives_text " AS __distinct")

end QueryParts

namespace Query

variable {q : Query} {topLevel : Bool}

/-- A page that can be written has a last row with a number, and clauses without faults. -/
theorem sound_of_page (hstyle : d.limitStyle = .rowNumber)
    (hq : isLimited q.offset q.count = true) (hsound : (q.draft d topLevel).Sound) :
    ¬q.Overflows ∧ (q.parts d).Sound := by
  have hoverflow : ¬q.Overflows := by
    intro hoverflow
    rw [draft_overflow hstyle hq hoverflow] at hsound
    exact hsound
  rw [draft_windowed hstyle hq hoverflow] at hsound
  have hnumbered : (q.parts d).numberedRows.Sound := by
    simp only [numberedTable, sound_append] at hsound
    exact hsound.1.1.2
  exact ⟨hoverflow, (QueryParts.sound_numberedRows _).mp hnumbered⟩

/-- A page is a selection of the names of its fields from the derived table of numbered rows. -/
theorem exists_gives_page_of_order {order : List Piece} (hstyle : d.limitStyle = .rowNumber)
    (hq : isLimited q.offset q.count = true) (hselect : q.select = some fields)
    (hne : fields ≠ []) (hsources : fields.map Field.columnSource? = sources.map some)
    (hsound : (q.draft d topLevel).Sound)
    (hnumber : (q.parts d).rowNumber.Gives (numberingWords order)) :
    ∃ items body, List.Forall₂ MakesColumn (sources.map (ColumnSource.name d)) items ∧
      (q.draft d topLevel).Gives (pageWords d topLevel (sources.map (ColumnSource.name d))
        (numberedWords q.distinct items order body) (q.parts d).rowBounds) := by
  obtain ⟨hoverflow, hfields, hbody, -⟩ := sound_of_page hstyle hq hsound
  rw [draft_windowed hstyle hq hoverflow]
  -- The page has fields, and so it selects them and not everything.
  have hlist : (q.parts d).fields = commaSeparated (fields.map (Field.draft d)) := by
    show selectDraft ((q.select.getD []).map (Field.draft d)) = _
    rw [hselect, Option.getD_some, selectDraft, List.isEmpty_map,
      if_neg (mt List.isEmpty_iff.mp hne)]
  have hcolumns : (q.parts d).columns = ", ".intercalate (sources.map (ColumnSource.name d)) := by
    show ((outputColumns? d (q.select.getD [])).map (", ".intercalate ·)).getD "*" = _
    rw [hselect, Option.getD_some, outputColumns?_eq hne hsources]
    rfl
  rw [hlist, Draft.sound_commaSeparated, List.forall_mem_map] at hfields
  obtain ⟨items, hitems, hmakes⟩ := exists_gives_fields hsources hfields
  obtain ⟨body, hbody⟩ := hbody.exists_gives
  refine ⟨items, body, hmakes, ?_⟩
  -- The rows of the inner query, with their numbers.
  have hrows : (q.parts d).numberedRows.Gives (numberedWords q.distinct items order body) := by
    refine QueryParts.gives_numberedRows ?_ hnumber hbody
    rw [hlist]
    exact gives_commaSeparated hitems
  have htable := (((gives_keyword "SELECT").append (gives_keyword (q.parts d).columns)).append
    (gives_keyword "FROM")).append (gives_step .openParenthesis)
  have hclosed := (htable.append hrows).append (gives_step .closeParenthesis)
  have hbounds := ((gives_text " AS __paged").append gives_lineBreak).append
    (gives_text (q.parts d).rowBounds)
  have hend : ((if topLevel then lineBreak ++ text "ORDER BY __row_num" else empty) ++
      ending d topLevel).Gives
      (if topLevel then [word "ORDER BY __row_num", word d.terminator] else []) := by
    unfold ending
    cases topLevel with
    | true =>
      exact (gives_lineBreak.append (gives_text "ORDER BY __row_num")).append
        (gives_step (.terminate d.terminator))
    | false => exact gives_empty.append gives_empty
  have hwhole := hclosed.append (hbounds.append hend)
  rw [hcolumns] at hwhole
  rw [numberedTable, hcolumns, pageWords]
  simp only [Draft.append_assoc, List.append_assoc] at hwhole ⊢
  exact hwhole

theorem exists_gives_page (hstyle : d.limitStyle = .rowNumber)
    (hq : isLimited q.offset q.count = true) (hselect : q.select = some fields)
    (hne : fields ≠ []) (hsources : fields.map Field.columnSource? = sources.map some)
    (hsound : (q.draft d topLevel).Sound) :
    ∃ items order body, List.Forall₂ MakesColumn (sources.map (ColumnSource.name d)) items ∧
      (q.draft d topLevel).Gives (pageWords d topLevel (sources.map (ColumnSource.name d))
        (numberedWords q.distinct items order body) (q.parts d).rowBounds) := by
  obtain ⟨-, -, -, horder⟩ := sound_of_page hstyle hq hsound
  obtain ⟨order, hnumber⟩ :=
    QueryParts.exists_gives_rowNumber ((QueryParts.sound_rowNumber _).mpr horder)
  obtain ⟨items, body, hpage⟩ :=
    exists_gives_page_of_order hstyle hq hselect hne hsources hsound hnumber
  exact ⟨items, order, body, hpage⟩

end Query

/-! ### Names that stand for one column -/

section Names

variable {α κ : Type} [DecidableEq κ] {l : List α} {a : α}

theorem count_map_eq_one_iff (key : α → κ) (hl : l.Nodup) (ha : a ∈ l) :
    (l.map key).count (key a) = 1 ↔ ∀ b ∈ l, b ≠ a → key b ≠ key a := by
  obtain ⟨s, t, rfl⟩ := List.append_of_mem ha
  have hnotMem : a ∉ s ++ t := (List.nodup_cons.mp (List.perm_middle.nodup_iff.mp hl)).1
  rw [(List.perm_middle.map key).count_eq, List.map_cons, List.count_cons_self, Nat.add_eq_right,
    List.count_eq_zero, List.mem_map]
  constructor
  · intro h b hb hne heq
    refine h ⟨b, ?_, heq⟩
    exact (List.mem_cons.mp (List.perm_middle.mem_iff.mp hb)).resolve_left hne
  · rintro h ⟨b, hb, heq⟩
    have hne : b ≠ a := fun hba => hnotMem (hba ▸ hb)
    exact h b (List.perm_middle.mem_iff.mpr (List.mem_cons_of_mem a hb)) hne heq

/-- One more key is counted with the others. -/
theorem count_map_concat_eq_one_iff (key : α → κ) (hl : l.Nodup) (ha : a ∈ l) (k : κ) :
    (l.map key ++ [k]).count (key a) = 1 ↔
      key a ≠ k ∧ ∀ b ∈ l, b ≠ a → key b ≠ key a := by
  have hpos : 0 < (l.map key).count (key a) :=
    List.count_pos_iff.mpr (List.mem_map_of_mem ha)
  rw [List.count_append, ← count_map_eq_one_iff key hl ha]
  -- The name at the end is the one that is counted, or it adds nothing.
  by_cases hk : key a = k
  · rw [hk, List.count_singleton_self]
    rw [hk] at hpos
    constructor
    · intro h
      omega
    · rintro ⟨hne, -⟩
      exact absurd rfl hne
  · have hzero : [k].count (key a) = 0 :=
      List.count_eq_zero.mpr fun h => hk (List.mem_singleton.mp h)
    rw [hzero, Nat.add_zero]
    exact (and_iff_right hk).symm

end Names

/-- **The columns that a page selects.** Where rows are chosen by number, a page of fields that all
have names lists these names, one for each field and in their order, and selects them from a derived
table that makes a column of each name from the field and has one more for the row numbers.  However
names are told apart, a listed name stands for one column of the derived table just when it is
neither that of the row numbers nor that of another field. -/
theorem compile_page_columns (c : Compiler) (q : Query) {fields : List Field}
    {sources : List ColumnSource} (hstyle : c.dialect.limitStyle = .rowNumber)
    (hq : 0 < q.offset ∨ 0 < q.count) (hselect : q.select = some fields) (hne : fields ≠ [])
    (hsources : fields.map Field.columnSource? = sources.map some) (hnodup : sources.Nodup) :
    let names := sources.map (ColumnSource.name c.dialect)
    c.compile (.query q) =
        (q.written c.dialect true (Assembly.start c.layout)).map Assembly.compiled ∧
      (∀ topLevel a b, q.written c.dialect topLevel a = .ok b →
        ∃ items order body, List.Forall₂ MakesColumn names items ∧
          ∀ parts, Text.Typeset parts a.writer.text →
            Text.Typeset (parts ++ c.dialect.texts a.index (pageWords c.dialect topLevel names
              (numberedWords q.distinct items order body) (q.parts c.dialect).rowBounds))
              b.writer.text) ∧
      ∀ (κ : Type) [DecidableEq κ] (identify : String → κ), ∀ source ∈ sources,
        ((names ++ ["__row_num"]).map identify).count (identify (source.name c.dialect)) = 1 ↔
          identify (source.name c.dialect) ≠ identify "__row_num" ∧
            ∀ other ∈ sources, other ≠ source →
              identify (other.name c.dialect) ≠ identify (source.name c.dialect) := by
  intro names
  have hlimited : isLimited q.offset q.count = true := by
    simp only [isLimited, Bool.or_eq_true, decide_eq_true_eq]
    exact hq
  refine ⟨q.compile_eq c, fun topLevel a b hb => ?_, fun κ _ identify source hsource => ?_⟩
  · have hsound : (q.draft c.dialect topLevel).Sound := by
      rw [← Draft.isOk_addTo _ c.dialect a]
      exact congrArg Except.isOk hb
    obtain ⟨items, order, body, hmakes, hgives⟩ :=
      Query.exists_gives_page hstyle hlimited hselect hne hsources hsound
    exact ⟨items, order, body, hmakes, fun parts hparts => hgives.typeset hb hparts⟩
  · rw [List.map_append, List.map_map]
    exact count_map_concat_eq_one_iff (fun s => identify (s.name c.dialect)) hnodup hsource _

/-- A dialect that chooses rows by number. -/
def Dialect.numbering : Dialect where
  name := "numbering"
  limitStyle := .rowNumber

/-- A page of two tables that both have a column of the same name. -/
def Query.joinedPage : Query where
  select := some [{ expr := .column "a.id" }, { expr := .column "b.id" }]
  source := some { tables := [{ name := "a" }, { name := "b" }] }
  count := 5

set_option maxRecDepth 2000 in
/-- A name that two columns of the derived table have stands for neither. -/
theorem compile_page_columns_joined :
    Compiler.compile ⟨.numbering, .compact⟩ (.query .joinedPage) =
        .ok ⟨"SELECT id, id FROM (SELECT a.id, b.id, " ++
          "ROW_NUMBER() OVER (ORDER BY (SELECT NULL)) AS __row_num FROM a, b) AS __paged " ++
          "WHERE __row_num > 0 AND __row_num <= 5 ORDER BY __row_num;", []⟩ ∧
      ["id", "id", "__row_num"].count "id" ≠ 1 := by
  refine ⟨rfl, fun hcount => ?_⟩
  have hsources : [({ expr := .column "a.id" } : Field), { expr := .column "b.id" }].map
      Field.columnSource? = [ColumnSource.column "a.id", .column "b.id"].map some := rfl
  obtain ⟨-, -, hone⟩ := compile_page_columns ⟨.numbering, .compact⟩ .joinedPage rfl
    (Or.inr (by decide)) rfl (List.cons_ne_nil _ _) hsources (by decide)
  obtain ⟨-, hother⟩ := (hone String id (.column "a.id") (by decide)).mp hcount
  exact hother (.column "b.id") (by decide) (by decide) rfl

end SqlTree
