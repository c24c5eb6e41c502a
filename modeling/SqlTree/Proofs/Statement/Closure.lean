import SqlTree.Proofs.Lists
import SqlTree.Proofs.Statement.Visit
import SqlTree.Proofs.Syntax.Spelled

/-!
# What holds of every draft

`Draft.Closed d name column P` lists what a property `P` of drafts has to satisfy to hold of the
draft of every tree whose strings are spelled as `name` and `column` say: it holds of the words of
the language and of the names of the tree, and survives each way of putting drafts together.
`Expression.draft_closed` is the induction, done once; `Expression.statementDraft_closed` is
about whole statements.

Parentheses come in pairs, and a sequence of conditions is written only if its groups are properly
nested.  A property that does not ask for that, since it holds of every single parenthesis, is
closed, too (`Draft.Stepwise.closed`).
-/

namespace SqlTree

open Draft

/-! ### Vocabulary -/

/-- The words and phrases that are written by themselves. -/
def words : List String :=
  ["NULL", "AS", "*", "SELECT", "DISTINCT", "FROM", "ON", "WHERE", "HAVING", "GROUP BY", "ORDER BY",
    "ROW_NUMBER() OVER", "(SELECT NULL)", "SELECT __distinct.*", "ORDER BY __row_num",
    "INSERT INTO ", "VALUES", "UPDATE ", "SET", "DELETE FROM "] ++
    Operator.all.map Operator.sql ++ SortOrder.all.map SortOrder.sql ++
    JoinKind.all.map JoinKind.sql ++ AggregateFunction.all.map AggregateFunction.sql

theorem Operator.sql_mem_words (op : Operator) : op.sql ∈ words := by
  cases op <;> decide

theorem SortOrder.sql_mem_words (direction : SortOrder) : direction.sql ∈ words := by
  cases direction <;> decide

theorem JoinKind.sql_mem_words (kind : JoinKind) : kind.sql ∈ words := by
  cases kind <;> decide

theorem AggregateFunction.sql_mem_words (function : AggregateFunction) : function.sql ∈ words := by
  cases function <;> decide

/-- The names of derived tables and of the column that numbers rows, behind a parenthesis. -/
def suffixes : List String := [" AS __row_num", " AS __distinct", " AS __paged"]

/-- The name under which a column leaves a query: an alias in quotes or a part of the name. -/
inductive IsOutput (d : Dialect) (name column : String → Prop) : String → Prop
  | label {s : String} (h : name s) (hne : s ≠ "") : IsOutput d name column (d.quote s)
  | column {s : String} (h : name s) (hcolumn : column s) : IsOutput d name column (unqualified s)

/-- Quoting like a built-in dialect is quoting with a quotation mark or an accent. -/
theorem Dialect.exists_quoteWith {d : Dialect} (h : ∃ b ∈ Dialect.builtIn, d.quote = b.quote) :
    ∃ mark, (mark = '"' ∨ mark = '`') ∧ d.quote = quoteWith mark := by
  obtain ⟨b, hb, hquote⟩ := h
  simp only [builtIn, List.mem_cons, List.not_mem_nil, or_false] at hb
  rcases hb with rfl | rfl | rfl
  · exact ⟨'"', Or.inl rfl, hquote⟩
  · exact ⟨'`', Or.inr rfl, hquote⟩
  · exact ⟨'"', Or.inl rfl, hquote⟩

/-- A quotation mark and an accent are the only characters that such a dialect adds to an
identifier. -/
theorem Dialect.lacks_quote {d : Dialect} (h : ∃ b ∈ Dialect.builtIn, d.quote = b.quote)
    {mark : Char} (hmark : mark ≠ '"' ∧ mark ≠ '`') {s : String} (hs : Text.Lacks mark s) :
    Text.Lacks mark (d.quote s) := by
  obtain ⟨quote, hquote, heq⟩ := exists_quoteWith h
  rw [heq]
  rcases hquote with rfl | rfl
  · exact Text.lacks_quoteWith hmark.1.symm hs
  · exact Text.lacks_quoteWith hmark.2.symm hs

/-- A property that two strings have together if both have it, and that every numeral has. -/
structure Text.Composes (R : String → Prop) : Prop where
  /-- Two strings that have the property have it together. -/
  append {s t : String} : R s → R t → R (s ++ t)
  /-- A numeral has the property. -/
  numeral (n : Nat) : R (toString n)

/-- A mark that is no digit is lacked by joined texts and by numbers. -/
theorem Text.lacks_composes {mark : Char} (hmark : mark.isDigit = false) :
    Text.Composes (Text.Lacks mark) where
  append := Lacks.append
  numeral := lacks_toString hmark

namespace Text.Composes

variable {R : String → Prop} (hR : Text.Composes R)
include hR

/-- A placeholder is a token, with a name or a number behind it. -/
theorem placeholder {d : Dialect} (htoken : R d.token) (hp : R "p") (k : Nat) {name : Option String}
    (hname : ∀ s ∈ name, R s) : R (d.placeholder k name).1 := by
  unfold Dialect.placeholder
  split
  · exact htoken
  · refine hR.append htoken ?_
    cases name with
    | none => exact hR.append hp (hR.numeral _)
    | some s => exact hname s rfl
  · exact hR.append htoken (hR.numeral _)

theorem page (hlimit : R "LIMIT ") (hcomma : R ",") (m n : Nat) :
    R ("LIMIT " ++ toString m ++ "," ++ toString n) :=
  hR.append (hR.append (hR.append hlimit (hR.numeral m)) hcomma) (hR.numeral n)

theorem rowBounds (hlower : R "WHERE __row_num > ") (hupper : R " AND __row_num <= ")
    (hempty : R "") (p : QueryParts) : R p.rowBounds := by
  refine hR.append (hR.append hlower (hR.numeral _)) ?_
  split
  · exact hempty
  · exact hR.append hupper (hR.numeral _)

end Text.Composes

/-- What holds of names, and of a name with what stands between it and an alias, holds of a table.
-/
theorem Table.draft_of_names {name : String → Prop} {P : Draft → Prop}
    (hfault : ∀ e, P (.fault e)) (happend : ∀ {x y : Draft}, P x → P y → P (x ++ y))
    (hname : ∀ {s : String}, name s → P (text s))
    (hlabelled : ∀ {s : String}, name s → s ≠ "" → P (text s ++ text " AS ")) {t : Table}
    (h : ∀ s ∈ t.strings, name s) : P t.draft := by
  have htable : name t.name := h _ List.mem_cons_self
  -- An alias that is empty is not written.
  have hlabel : ∀ s ∈ usedAlias t.label, name s := by
    intro s hs
    have hmem : s ∈ t.label := (Option.mem_filter_iff.mp hs).1
    exact h s (List.mem_cons_of_mem _ (Option.mem_toList.mpr hmem))
  unfold draft
  split
  · exact hfault _
  · next label hnamed hused =>
    have hne : t.name ≠ "" := by
      intro hempty
      rw [hempty] at hnamed
      cases hnamed
    exact happend (hlabelled htable hne) (hname (hlabel label hused))
  · exact hname htable
  · next label _ hused => exact hname (hlabel label hused)

/-- A property that holds of whatever is written without parentheses for a tree whose strings are
spelled in given ways. -/
structure Draft.Flat (d : Dialect) (name column : String → Prop) (P : Draft → Prop) : Prop where
  /-- A fault has the property. -/
  fault (e : Error) : P (.fault e)
  /-- Nothing has it. -/
  empty : P empty
  /-- Two drafts that have it have it together. -/
  append {x y : Draft} : P x → P y → P (x ++ y)
  /-- A space where one is due. -/
  blank : P blank
  /-- A comma. -/
  comma : P (step .comma)
  /-- A line break. -/
  lineBreak : P lineBreak
  /-- A placeholder without a name. -/
  argument (v : Value) : P (argument none v)
  /-- A word. -/
  word : ∀ s ∈ words, P (text s)
  /-- A number of rows. -/
  numeral : ∀ s ∈ ["LIMIT ", "OFFSET "], ∀ n : Nat, P (text (s ++ toString n))
  /-- An offset and a number of rows. -/
  page (m n : Nat) : P (text ("LIMIT " ++ toString m ++ "," ++ toString n))
  /-- The bounds on the number of a row. -/
  bounds (p : QueryParts) : P (text p.rowBounds)
  /-- A string of the tree. -/
  string {s : String} : name s → P (text s)
  /-- A table. -/
  table {t : Table} : (∀ s ∈ t.strings, name s) → P t.draft
  /-- The names of some columns. -/
  outputs {l : List String} : l ≠ [] → (∀ s ∈ l, IsOutput d name column s) →
    P (text (", ".intercalate l))
  /-- Something in parentheses with a name. -/
  labelled {x : Draft} : P x → ∀ s ∈ suffixes, P (parenthesized x ++ text s)
  /-- A column and what it is set to. -/
  assignment {s : String} {x : Draft} : name s → column s → P x → P (text s ++ text " = " ++ x)

/-- What is made of the items of a sequence of conditions has a property, where what is made of
markers is not used. -/
def Draft.Bodies (P : Draft → Prop) (part : Expression → Draft) (items : List Expression) : Prop :=
  ∀ e ∈ items, e.isMarker = false → P (part e)

/-- A property that holds of whatever is written for a tree whose strings are spelled in given
ways. -/
structure Draft.Closed (d : Dialect) (name column : String → Prop) (P : Draft → Prop) : Prop
    extends Draft.Flat d name column P where
  /-- Something in parentheses. -/
  parenthesized {x : Draft} : P x → P (parenthesized x)
  /-- Conditions on lines of their own, with groups that are properly nested. -/
  lines {part : Expression → Draft} {items : List Expression} : Conditions.balanced items = true →
    Bodies P part items → P (itemLines 0 true (items.zip (items.map part)))
  /-- Conditions on one line, with groups that are properly nested. -/
  conditions {part : Expression → Draft} {items : List Expression} :
    Conditions.balanced items = true → Bodies P part items →
      P (concat ((items.zip (items.map part)).map fun (item, body) =>
        Draft.blank ++ itemDraft item body))

/-- A property that holds of each step by which something is written for a tree whose strings are
spelled in given ways. -/
structure Draft.Stepwise (d : Dialect) (name column : String → Prop) (P : Draft → Prop) : Prop
    extends Draft.Flat d name column P where
  /-- An opening parenthesis. -/
  opening : P (step .openParenthesis)
  /-- A closing parenthesis. -/
  closing : P (step .closeParenthesis)
  /-- The start of the first item of a sequence of conditions. -/
  margin : P (step (.indent 0))
  /-- The start of any other item. -/
  line (depth : Nat) : P (Draft.lineBreak ++ step (.indent depth))

/-! ### Names of columns -/

section Names

variable {d : Dialect} {name column : String → Prop}

theorem Expression.Spelled.column_spelled {s : String}
    (h : (Expression.column s).Spelled name column) : name s ∧ column s := by
  obtain ⟨hstrings, hcolumns, -, -⟩ := h
  exact ⟨hstrings s List.mem_cons_self, hcolumns s List.mem_cons_self⟩

theorem isOutput_label {label : Option String} (h : ∀ s ∈ label, name s) {s : String}
    (hs : usedAlias label = some s) : IsOutput d name column (d.quote s) := by
  obtain ⟨hmem, hne⟩ := Option.mem_filter_iff.mp hs
  refine .label (h s hmem) ?_
  rintro rfl
  cases hne

/-- A column is listed by the alias of the field that selects it, or by the last part of its name.
-/
theorem isOutput_outputName {fields : List Field} (hlabels : ∀ s ∈ fieldStrings fields, name s)
    {s : String} (hs : name s) (hcolumn : column s) :
    IsOutput d name column (outputName d fields s) := by
  rw [outputName_eq]
  cases hlabel : (fields.find? (Field.isColumn s)).bind fun f => usedAlias f.label with
  | none => exact .column hs hcolumn
  | some label =>
    obtain ⟨f, hf, hused⟩ := Option.bind_eq_some_iff.mp hlabel
    refine isOutput_label (fun s hs => hlabels s ?_) hused
    exact mem_fieldStrings (List.mem_of_find?_eq_some hf) hs

theorem isOutput_outputColumn? {f : Field} (hlabel : ∀ s ∈ f.label, name s)
    (h : f.expr.Spelled name column) : ∀ s ∈ f.outputColumn? d, IsOutput d name column s := by
  intro s hs
  unfold Field.outputColumn? at hs
  split at hs
  · next label hused =>
    obtain rfl := Option.some.inj hs
    exact isOutput_label hlabel hused
  · split at hs
    · next c hc =>
      split at hs
      · cases hs
      · obtain rfl := Option.some.inj hs
        rw [hc] at h
        exact .column h.column_spelled.1 h.column_spelled.2
    · cases hs

end Names

/-! ### Step by step -/

theorem Draft.Flat.concat {d : Dialect} {name column : String → Prop} {P : Draft → Prop}
    (hP : Draft.Flat d name column P) {l : List Draft} (h : ∀ x ∈ l, P x) : P (concat l) := by
  induction l with
  | nil => exact hP.empty
  | cons x rest ih =>
    exact hP.append (h x List.mem_cons_self) (ih fun y hy => h y (List.mem_cons_of_mem x hy))

namespace Draft.Stepwise

variable {d : Dialect} {name column : String → Prop} {P : Draft → Prop}
  (hP : Draft.Stepwise d name column P)

include hP

/-- A marker writes a parenthesis, and every other item is written out. -/
theorem item {e : Expression} {body : Draft} (h : e.isMarker = false → P body) :
    P (itemDraft e body) := by
  unfold itemDraft
  split
  · exact hP.opening
  · next hopens =>
    split
    · exact hP.closing
    · next hcloses => exact h (by simp [Expression.isMarker, hopens, hcloses])

theorem itemLines {depth : Nat} {first : Bool} (hfirst : first = true → depth = 0)
    {part : Expression → Draft} {items : List Expression} (h : Bodies P part items) :
    P (itemLines depth first (items.zip (items.map part))) := by
  induction items generalizing depth first with
  | nil => exact hP.empty
  | cons e rest ih =>
    obtain ⟨hbody, hbodies⟩ := List.forall_mem_cons.mp h
    have hitem := hP.item hbody
    have hrest (depth : Nat) : P (SqlTree.itemLines depth false (rest.zip (rest.map part))) :=
      ih (fun h => absurd h Bool.false_ne_true) hbodies
    simp only [List.map_cons, List.zip_cons_cons]
    -- Only the first line has no line break in front, and then it has no margin either.
    cases first with
    | true =>
      obtain rfl : depth = 0 := hfirst rfl
      have hmargin : (if e.closesGroup then 0 - 1 else 0) = 0 := by split <;> rfl
      simp only [SqlTree.itemLines, if_true, empty_append, hmargin]
      exact hP.append (hP.append hP.margin hitem) (hrest _)
    | false => exact hP.append (hP.append (hP.line _) hitem) (hrest _)

/-- A property that holds of single parentheses does not ask how they are nested. -/
theorem closed : Draft.Closed d name column P where
  toFlat := hP.toFlat
  parenthesized hx := hP.append (hP.append hP.opening hx) hP.closing
  lines _ h := hP.itemLines (fun _ => rfl) h
  conditions {part items} _ h := by
    refine hP.concat fun x hx => ?_
    rw [zip_map_self, List.map_map] at hx
    obtain ⟨e, he, rfl⟩ := List.mem_map.mp hx
    exact hP.append hP.blank (hP.item (h e he))

end Draft.Stepwise

namespace Draft.Closed

variable {d : Dialect} {name column : String → Prop} {P : Draft → Prop}
  (hP : Draft.Closed d name column P) {x : Draft}

include hP

/-! ### Drafts put together -/

omit hP in
theorem ite {c : Prop} [Decidable c] {y : Draft} (hx : P x) (hy : P y) :
    P (if c then x else y) := by
  split
  · exact hx
  · exact hy

theorem ensure (c : Bool) (fault : ArgumentFault) : P (ensure c fault) :=
  ite hP.empty (hP.fault _)

theorem keyword {s : String} (hs : s ∈ words) : P (keyword s) := hP.append (hP.word s hs) hP.blank

theorem commaSeparated {l : List Draft} (h : ∀ x ∈ l, P x) : P (commaSeparated l) := by
  induction l with
  | nil => exact hP.empty
  | cons x rest ih =>
    have hx : P x := h x List.mem_cons_self
    have hrest := ih fun y hy => h y (List.mem_cons_of_mem x hy)
    cases rest with
    | nil => exact hx
    | cons y rest => exact hP.append (hP.append hx hP.comma) hrest

omit hP in
/-- What holds of every draft made from an element of a list holds of the mapped list. -/
theorem map {α : Type} {part : α → Draft} {l : List α} (h : ∀ a ∈ l, P (part a)) :
    ∀ x ∈ l.map part, P x := by
  intro x hx
  obtain ⟨a, ha, rfl⟩ := List.mem_map.mp hx
  exact h a ha

/-! ### Clauses -/

theorem value (v : Value) : P v.draft := ite (hP.word _ (by decide)) (hP.argument v)

theorem output {s : String} (hs : IsOutput d name column s) : P (text s) := by
  have h := hP.outputs (l := [s]) (by simp) (by simpa using hs)
  rwa [String.intercalate_singleton] at h

/-- A field is an expression, with an alias behind it if there is one. -/
theorem field (hx : P x) {label : Option String} (hlabel : ∀ s ∈ label, name s) :
    P (fieldDraft d x label) := by
  unfold fieldDraft
  split
  · next s hs =>
    have hword := hP.append (hP.append hx hP.blank) (hP.word "AS" (by decide))
    exact hP.append (hP.append hword hP.blank) (hP.output (isOutput_label hlabel hs))
  · exact hx

theorem select {fields : List Draft} (h : ∀ x ∈ fields, P x) : P (selectDraft fields) :=
  ite (hP.word _ (by decide)) (hP.commaSeparated h)

theorem orderField (hx : P x) (direction : SortOrder) : P (orderFieldDraft x direction) :=
  hP.append (hP.append hx hP.blank) (hP.word _ direction.sql_mem_words)

theorem enclosed (hx : P x) (e : Expression) : P (enclosed e x) := by
  cases e <;> first | exact hx | exact hP.parenthesized hx

theorem memberList (hx : P x) (e : Expression) : P (memberList e x) := by
  unfold SqlTree.memberList
  split
  · exact hP.parenthesized (hP.commaSeparated (map fun v _ => hP.value v))
  · exact hP.parenthesized hP.empty
  · exact hP.enclosed hx e

/-- Nothing is written for a sequence of conditions unless its groups are properly nested. -/
theorem ensured (items : List Expression) {y : Draft}
    (hy : Conditions.balanced items = true → P y) :
    P (Draft.ensure (Conditions.balanced items) .unbalancedGroups ++ y) := by
  unfold Draft.ensure
  split
  · next h => exact hP.append hP.empty (hy h)
  · exact hP.fault _

theorem sequence {part : Expression → Draft} {items : List Expression} (h : Bodies P part items) :
    P (sequenceDraft items (items.map part)) :=
  hP.ensured items fun hbalanced => hP.lines hbalanced h

/-- A clause of conditions is nothing, or a word and a sequence. -/
theorem conditionsClause {word : String} (hword : word ∈ words) {part : Expression → Draft}
    {items : List Expression} (h : Bodies P part items) :
    P (conditionsClause word items (items.map part)) := by
  refine ite hP.empty (hP.append ?_ (hP.sequence h))
  exact hP.append (hP.append hP.lineBreak (hP.word word hword)) hP.lineBreak

theorem join (kind : JoinKind) {table : Table} (htable : ∀ s ∈ table.strings, name s)
    {part : Expression → Draft} {items : List Expression} (h : Bodies P part items) :
    P (joinDraft kind table items (items.map part)) := by
  refine hP.append (hP.append (hP.keyword kind.sql_mem_words) (hP.table htable)) (ite hP.empty ?_)
  rw [append_assoc, append_assoc]
  refine hP.ensured items fun hbalanced => hP.append hP.blank (hP.append ?_ ?_)
  · exact hP.word "ON" (by decide)
  · exact hP.conditions hbalanced h

theorem source {tables : List Table} (htables : ∀ t ∈ tables, ∀ s ∈ t.strings, name s)
    {joins : List Draft} (h : ∀ x ∈ joins, P x) : P (sourceDraft tables joins) := by
  have hword := hP.append (hP.append (hP.ensure (!tables.isEmpty) .sourceWithoutTables)
    hP.lineBreak) (hP.keyword (s := "FROM") (by decide))
  have htables : P (Draft.commaSeparated (tables.map Table.draft)) :=
    hP.commaSeparated (map fun t ht => hP.table (htables t ht))
  refine hP.append (hP.append hword htables) (hP.concat ?_)
  exact map fun x hx => hP.append hP.lineBreak (h x hx)

theorem listClause {word : String} (hword : word ∈ words) {items : List Draft}
    (h : ∀ x ∈ items, P x) : P (listClause word items) :=
  ite hP.empty (hP.append (hP.append hP.lineBreak (hP.keyword hword)) (hP.commaSeparated h))

/-- A condition is written with the sides that it has. -/
theorem condition {left : Option Draft} (op : Operator) {right : Option (Expression × Draft)}
    (hleft : ∀ x ∈ left, P x) (hright : ∀ r ∈ right, P r.2) : P (conditionDraft left op right) := by
  have hop : P (Draft.keyword op.sql) := hP.keyword op.sql_mem_words
  -- Four forms, by which of the sides there are.
  cases left with
  | none =>
    cases right with
    | none => exact hP.word _ op.sql_mem_words
    | some r => exact hP.append hop (hP.enclosed (hright r rfl) r.1)
  | some l =>
    have hl : P (l ++ Draft.blank) := hP.append (hleft l rfl) hP.blank
    cases right with
    | none => exact hP.append hl (hP.word _ op.sql_mem_words)
    | some r =>
      have hr : P r.2 := hright r rfl
      exact hP.append (hP.append hl hop) (ite (hP.memberList hr r.1) hr)

/-! ### Pages -/

/-- The clauses of a query with a property. -/
structure Parts (P : Draft → Prop) (p : QueryParts) : Prop where
  /-- The field list has it. -/
  fields : P p.fields
  /-- The names of the columns have it. -/
  columns : P (text p.columns)
  /-- The clauses from `FROM` to `HAVING` have it. -/
  body : P p.body
  /-- The order has it. -/
  order : ∀ x ∈ p.order, P x

variable {p : QueryParts}

/-- What selects rows is made of the parts of the query and of a further column. -/
theorem projection (hp : Parts P p) (hx : P x) : P (p.projection x) := by
  have hdistinct : P (if p.distinct then Draft.blank ++ text "DISTINCT" else Draft.empty) :=
    ite (hP.append hP.blank (hP.word _ (by decide))) hP.empty
  have hselect := hP.append (hP.append (hP.word "SELECT" (by decide)) hdistinct) hP.blank
  exact hP.append (hP.append (hP.append hselect hp.fields) hx) hp.body

/-- The limits hold words and numbers alone. -/
theorem limitClause (d : Dialect) (p : QueryParts) : P (p.limitClause d) := by
  have hpage : P ((if 0 < p.count then text ("LIMIT " ++ toString p.count.toNat)
      else Draft.empty) ++ if 0 < p.offset then
      Draft.blank ++ text ("OFFSET " ++ toString p.offset.toNat) else Draft.empty) :=
    hP.append (ite (hP.numeral _ (by decide) _) hP.empty)
      (ite (hP.append hP.blank (hP.numeral _ (by decide) _)) hP.empty)
  unfold QueryParts.limitClause
  refine hP.append hP.lineBreak ?_
  split
  · exact hP.page _ _
  · exact hpage
  · exact hpage

theorem plain (hp : Parts P p) (d : Dialect) (limited : Bool) : P (p.plain d limited) :=
  hP.append (hP.append (hP.projection hp hP.empty) (hP.listClause (by decide) hp.order))
    (ite (hP.limitClause d p) hP.empty)

theorem rowNumber (hp : Parts P p) : P p.rowNumber := by
  have horder : P (if p.order.isEmpty then text "(SELECT NULL)"
      else Draft.commaSeparated p.order) :=
    ite (hP.word _ (by decide)) (hP.commaSeparated hp.order)
  have hover := hP.append hP.comma (hP.keyword (s := "ROW_NUMBER() OVER") (by decide))
  have hnumber := hP.labelled (hP.append (hP.keyword (s := "ORDER BY") (by decide)) horder)
    " AS __row_num" (by decide)
  rw [QueryParts.rowNumber, append_assoc]
  exact hP.append hover hnumber

theorem numberedRows (hp : Parts P p) : P p.numberedRows := by
  refine ite ?_ (hP.projection hp (hP.rowNumber hp))
  have hnumber := hP.append (hP.word "SELECT __distinct.*" (by decide)) (hP.rowNumber hp)
  have hfrom := hP.append (hP.append hnumber hP.lineBreak) (hP.keyword (s := "FROM") (by decide))
  rw [append_assoc]
  exact hP.append hfrom (hP.labelled (hP.projection hp hP.empty) " AS __distinct" (by decide))

theorem windowed (hp : Parts P p) (topLevel : Bool) : P (p.windowed topLevel) := by
  refine ite (hP.fault _) ?_
  have hselect := hP.append (hP.append (hP.keyword (s := "SELECT") (by decide))
    (hP.append hp.columns hP.blank)) (hP.keyword (s := "FROM") (by decide))
  have hrows := hP.labelled (hP.numberedRows hp) " AS __paged" (by decide)
  have hpage := hP.append hselect hrows
  rw [← append_assoc] at hpage
  refine hP.append (hP.append (hP.append hpage hP.lineBreak) (hP.bounds p)) ?_
  exact ite (hP.append hP.lineBreak (hP.word _ (by decide))) hP.empty

end Draft.Closed

/-! ### Expressions -/

section Expressions

variable {d : Dialect} {name column : String → Prop} {P : Draft → Prop}
  (hP : Draft.Closed d name column P)
include hP

open Draft.Closed (ite map Parts)

/-- The listed names are joined by commas, or an asterisk takes their place. -/
theorem outputs_closed {fields : List Field} (hlabels : ∀ s ∈ fieldStrings fields, name s)
    (h : ∀ e ∈ fields.map (·.expr), e.Spelled name column) :
    P (text (((outputColumns? d fields).map (", ".intercalate ·)).getD "*")) := by
  -- The columns are listed if all of them have names.
  cases hcolumns : outputColumns? d fields with
  | none => exact hP.word _ (by decide)
  | some columns =>
    unfold outputColumns? at hcolumns
    split at hcolumns
    · cases hcolumns
    · next hne =>
      refine hP.outputs ?_ fun s hs => ?_
      · -- There are fields, so that there are names.
        rintro rfl
        cases fields with
        | nil => exact hne rfl
        | cons f rest =>
          rw [List.mapM_cons] at hcolumns
          obtain ⟨b, -, h⟩ := Option.bind_eq_some_iff.mp hcolumns
          obtain ⟨bs, -, h⟩ := Option.bind_eq_some_iff.mp h
          cases h
      · obtain ⟨f, hf, hfs⟩ := exists_of_mem_mapM hcolumns s hs
        exact isOutput_outputColumn? (fun s hs => hlabels s (mem_fieldStrings hf hs))
          (h _ (List.mem_map_of_mem hf)) s hfs

theorem fieldDrafts_closed {fields : List Field} (hlabels : ∀ s ∈ fieldStrings fields, name s)
    (h : ∀ e ∈ fields.map (·.expr), P (e.draft d)) : ∀ x ∈ fields.map (Field.draft d), P x := by
  refine map fun f hf => ?_
  rw [Field.draft_eq]
  exact hP.field (h _ (List.mem_map_of_mem hf)) fun s hs => hlabels s (mem_fieldStrings hf hs)

/-- A column of an order is written by its name, everything else by its draft. -/
theorem orderDrafts_closed {nameOf : String → String}
    (hname : ∀ s, name s → column s → P (text (nameOf s))) {fields : List OrderField}
    (hspelled : ∀ e ∈ fields.map (·.expr), e.Spelled name column)
    (h : ∀ e ∈ fields.map (·.expr), P (e.draft d)) :
    ∀ x ∈ fields.map (OrderField.draft d nameOf), P x := by
  refine map fun f hf => ?_
  have hspelled := hspelled _ (List.mem_map_of_mem hf)
  have h := h _ (List.mem_map_of_mem hf)
  obtain ⟨expr, direction⟩ := f
  cases expr with
  | column s =>
    exact hP.orderField (hname s hspelled.column_spelled.1 hspelled.column_spelled.2) direction
  | _ => exact hP.orderField h direction

theorem Join.draft_closed {j : Join} (htable : ∀ s ∈ j.table.strings, name s)
    (h : ∀ e ∈ j.conditions, e.isMarker = false → P (e.draft d)) : P (j.draft d) := by
  rw [Join.draft_eq]
  exact hP.join j.kind htable h

/-- The tables have names, and the joins have conditions. -/
theorem Source.draft_closed {s : Source} (hstrings : ∀ t ∈ s.strings, name t)
    (h : ∀ e ∈ s.children, e.isMarker = false → P (e.draft d)) : P (s.draft d) := by
  rw [Source.draft_eq]
  refine hP.source (fun t ht x hx => hstrings x ?_) (map fun j hj => ?_)
  · exact List.mem_append_left _ (List.mem_flatMap.mpr ⟨t, ht, hx⟩)
  · refine Join.draft_closed hP (fun x hx => hstrings x ?_) (Source.forall_conditions h hj)
    exact List.mem_append_right _ (List.mem_flatMap.mpr ⟨j, hj, hx⟩)

/-- The parts of a query have the property if its operands and items do. -/
theorem Query.parts_closed {q : Query} (hstrings : ∀ s ∈ q.strings, name s)
    (hspelled : ∀ e ∈ (Expression.query q).operands, e.Spelled name column)
    (hoperands : ∀ e ∈ (Expression.query q).operands, P (e.draft d))
    (hitems : ∀ e ∈ (Expression.query q).items, e.isMarker = false → P (e.draft d)) :
    Parts P (q.parts d) := by
  have hlabels : ∀ s ∈ fieldStrings (q.select.getD []), name s :=
    fun s hs => hstrings s (List.mem_append_left _ hs)
  simp only [Expression.operands, List.mem_append, or_imp, forall_and] at hspelled hoperands
  simp only [Expression.items, List.mem_append, or_imp, forall_and] at hitems
  obtain ⟨⟨hselect, -⟩, horder⟩ := hspelled
  obtain ⟨⟨hfields, hgroups⟩, horders⟩ := hoperands
  obtain ⟨⟨hjoins, hfilter⟩, hhaving⟩ := hitems
  -- Above a derived table a column of the order has the name under which it leaves that table.
  have hname : ∀ s, name s → column s → P (text (q.orderName d s)) := by
    intro s hs hcolumn
    unfold orderName
    split
    · exact hP.output (isOutput_outputName hlabels hs hcolumn)
    · exact hP.string hs
  have hsource : P (q.sourceClause d) := by
    unfold sourceClause
    cases hs : q.source with
    | none => exact hP.empty
    | some s =>
      rw [hs] at hjoins
      refine Source.draft_closed hP (fun x hx => hstrings x ?_) hjoins
      exact List.mem_append_right _ (by rwa [hs])
  have hwhere := hP.conditionsClause (show "WHERE" ∈ words by decide) hfilter
  have hgroup := hP.listClause (show "GROUP BY" ∈ words by decide) (map hgroups)
  have hhaving := hP.conditionsClause (show "HAVING" ∈ words by decide) hhaving
  exact {
    fields := hP.select (fieldDrafts_closed hP hlabels hfields)
    columns := outputs_closed hP hlabels hselect
    body := hP.append (hP.append hsource hwhere) (ite hP.empty (hP.append hgroup hhaving))
    order := orderDrafts_closed hP hname horder horders }

/-- A query without the terminator of a statement. -/
theorem Query.page_closed (topLevel : Bool) {q : Query} (hstrings : ∀ s ∈ q.strings, name s)
    (hspelled : ∀ e ∈ (Expression.query q).operands, e.Spelled name column)
    (hoperands : ∀ e ∈ (Expression.query q).operands, P (e.draft d))
    (hitems : ∀ e ∈ (Expression.query q).items, e.isMarker = false → P (e.draft d)) :
    P (if q.windowed d then (q.parts d).windowed topLevel
      else (q.parts d).plain d (isLimited q.offset q.count)) := by
  have hparts := Query.parts_closed hP hstrings hspelled hoperands hitems
  exact ite (hP.windowed hparts topLevel) (hP.plain hparts d _)

/-- A query has the property in either form; its terminator is asked for only at the top. -/
theorem Query.draft_closed (topLevel : Bool)
    (hend : topLevel = true → P (step (.terminate d.terminator))) {q : Query}
    (hstrings : ∀ s ∈ q.strings, name s)
    (hspelled : ∀ e ∈ (Expression.query q).operands, e.Spelled name column)
    (hoperands : ∀ e ∈ (Expression.query q).operands, P (e.draft d))
    (hitems : ∀ e ∈ (Expression.query q).items, e.isMarker = false → P (e.draft d)) :
    P (q.draft d topLevel) := by
  have hend : P (if topLevel then step (.terminate d.terminator) else empty) := by
    split
    · next h => exact hend h
    · exact hP.empty
  rw [Query.draft_eq]
  exact hP.append (Query.page_closed hP topLevel hstrings hspelled hoperands hitems) hend

/-- The property holds of every expression inside a statement. -/
theorem Expression.draft_closed {e : Expression} (he : e.Spelled name column) : P (e.draft d) := by
  induction he with
  | @intro e hstrings hcolumns hspelled _ hoperands hitems =>
    cases e with
    | query q =>
      refine hP.parenthesized (Query.draft_closed hP false ?_ hstrings hspelled hoperands hitems)
      exact fun h => absurd h Bool.false_ne_true
    | table t => exact hP.table hstrings
    | column s | sql raw => exact hP.string (hstrings _ List.mem_cons_self)
    | value v => exact hP.value v
    | condition c =>
      show P (c.draft d)
      rw [Condition.draft_eq]
      refine hP.condition c.op (fun x hx => ?_) fun r hr => ?_
      · obtain ⟨left, hleft, rfl⟩ := Option.map_eq_some_iff.mp hx
        exact Condition.forall_left hoperands left hleft
      · obtain ⟨right, hright, rfl⟩ := Option.map_eq_some_iff.mp hr
        exact Condition.forall_right hoperands right hright
    | conditions items =>
      rw [draft_conditions]
      exact hP.sequence hitems
    | aggregate function argument =>
      exact hP.append (hP.word _ function.sql_mem_words)
        (hP.parenthesized (hoperands argument List.mem_cons_self))
    | select fields =>
      rw [draft_select]
      exact hP.select (fieldDrafts_closed hP hstrings hoperands)
    | source s => exact Source.draft_closed hP hstrings hitems
    | join j => exact Join.draft_closed hP hstrings hitems
    | filter items | having items =>
      simp only [draft_filter, draft_having]
      exact hP.conditionsClause (by decide) hitems
    | groupBy fields =>
      rw [draft_groupBy]
      exact hP.listClause (by decide) (map hoperands)
    | orderBy fields =>
      rw [draft_orderBy]
      refine hP.listClause (by decide) (orderDrafts_closed hP ?_ hspelled hoperands)
      exact fun s hs _ => hP.string hs
    | field f =>
      have hexpr : P (f.expr.draft d) := hoperands f.expr List.mem_cons_self
      show P (f.draft d)
      rw [Field.draft_eq]
      exact hP.field hexpr fun s hs => hstrings s (Option.mem_toList.mpr hs)
    | null => exact hP.word _ (by decide)
    | operator op => exact hP.word _ op.sql_mem_words
    | zero => exact hP.empty
    -- What remains cannot stand inside a statement.
    | _ => exact hP.fault _

/-! ### Whole statements -/

theorem filterDraft_closed {filter : Option (List Expression)}
    (h : ∀ e ∈ filter.getD [], e.isMarker = false → P (e.draft d)) : P (filterDraft d filter) := by
  rw [filterDraft_eq]
  exact hP.conditionsClause (by decide) h

theorem orderDraft_closed {order : Option (List OrderField)}
    (h : ∀ e ∈ (order.getD []).map (·.expr), e.Spelled name column) : P (orderDraft d order) := by
  rw [orderDraft_eq]
  refine hP.listClause (by decide) (orderDrafts_closed hP (fun s hs _ => hP.string hs) h ?_)
  exact fun e he => Expression.draft_closed hP (h e he)

theorem rowLimit_closed (kind : NodeKind) (count : UInt64) : P (rowLimit d kind count) :=
  ite hP.empty (ite (hP.fault _) (hP.append hP.lineBreak (hP.numeral _ (by decide) _)))

theorem ensureNamed_closed (t : Table) : P (ensureNamed t) := hP.ensure _ _

/-- A query is what has the property, and then a terminator. -/
theorem Query.exists_body {q : Query} (he : (Expression.query q).Spelled name column) :
    ∃ x, P x ∧ q.draft d true = x ++ step (.terminate d.terminator) := by
  obtain ⟨hstrings, -, hspelled, hitems⟩ := he
  refine ⟨_, Query.page_closed hP true hstrings hspelled ?_ ?_, Query.draft_eq d true q⟩
  · exact fun e he => Expression.draft_closed hP (hspelled e he)
  · exact fun e he hmarker => Expression.draft_closed hP (hitems e he hmarker)

theorem Insert.exists_body {i : Insert} (he : (Expression.insert i).Spelled name column) :
    ∃ x, P x ∧ i.draft d = x ++ step (.terminate d.terminator) := by
  obtain ⟨hstrings, -, hvalues, -⟩ := he
  have htable : P (text i.table.name) :=
    hP.string (hstrings _ (List.mem_append_left _ List.mem_cons_self))
  have hcolumns : P (commaSeparated (i.assignments.map fun a => text a.column)) :=
    hP.commaSeparated (map fun a ha =>
      hP.string (hstrings _ (List.mem_append_right _ (List.mem_map_of_mem ha))))
  have hvalues : P (commaSeparated (i.assignments.map fun a => a.value.draft d)) :=
    hP.commaSeparated <| map fun a ha =>
      Expression.draft_closed hP (hvalues _ (List.mem_map_of_mem ha))
  have hchecks := hP.append (ensureNamed_closed hP i.table)
    (hP.ensure (!i.assignments.isEmpty) (.insertWithoutValues i.table.name))
  have hinto := hP.append (hP.append (hP.append hchecks (hP.word "INSERT INTO " (by decide)))
    htable) hP.blank
  have hhead := hP.append (hP.append (hP.append hinto (hP.parenthesized hcolumns)) hP.lineBreak)
    (hP.keyword (s := "VALUES") (by decide))
  exact ⟨_, hP.append hhead (hP.parenthesized hvalues), rfl⟩

theorem Update.exists_body {u : Update} (he : (Expression.update u).Spelled name column) :
    ∃ x, P x ∧ u.draft d = x ++ step (.terminate d.terminator) := by
  obtain ⟨hstrings, hcolumns, hoperands, hitems⟩ := he
  simp only [Expression.operands, List.mem_append, or_imp, forall_and] at hoperands
  obtain ⟨hvalues, horder⟩ := hoperands
  have htable : P (text u.table.name) :=
    hP.string (hstrings _ (List.mem_append_left _ List.mem_cons_self))
  -- An assignment is a column, an equals sign and a value.
  have hset : P (commaSeparated (u.assignments.map fun a =>
      text a.column ++ text " = " ++ a.value.draft d)) := by
    refine hP.commaSeparated (map fun a ha => hP.assignment ?_ ?_ ?_)
    · exact hstrings _ (List.mem_append_right _ (List.mem_map_of_mem ha))
    · exact hcolumns _ (List.mem_map_of_mem ha)
    · exact Expression.draft_closed hP (hvalues _ (List.mem_map_of_mem ha))
  have hchecks := hP.append (ensureNamed_closed hP u.table)
    (hP.ensure (!u.assignments.isEmpty) (.updateWithoutColumns u.table.name))
  have hupdate := hP.append (hP.append hchecks (hP.word "UPDATE " (by decide))) htable
  have hhead := hP.append (hP.append hupdate hP.lineBreak) (hP.keyword (s := "SET") (by decide))
  have hfilter := filterDraft_closed hP fun e he hmarker =>
    Expression.draft_closed hP (hitems e he hmarker)
  have hclauses := hP.append (hP.append (hP.append hhead hset) hfilter)
    (orderDraft_closed hP horder)
  exact ⟨_, hP.append hclauses (rowLimit_closed hP .update u.count), rfl⟩

theorem Delete.exists_body {s : Delete} (he : (Expression.delete s).Spelled name column) :
    ∃ x, P x ∧ s.draft d = x ++ step (.terminate d.terminator) := by
  obtain ⟨hstrings, -, horder, hitems⟩ := he
  have htable : P (text s.table.name) := hP.string (hstrings _ List.mem_cons_self)
  have hhead := hP.append (hP.append (ensureNamed_closed hP s.table)
    (hP.word "DELETE FROM " (by decide))) htable
  have hfilter := filterDraft_closed hP fun e he hmarker =>
    Expression.draft_closed hP (hitems e he hmarker)
  have hclauses := hP.append (hP.append hhead hfilter) (orderDraft_closed hP horder)
  exact ⟨_, hP.append hclauses (rowLimit_closed hP .delete s.count), rfl⟩

/-- A statement is something that has the property, and a terminator. -/
theorem Expression.exists_body {e : Expression} (hstatement : e.isStatement = true)
    (he : e.Spelled name column) :
    ∃ x, P x ∧ e.statementDraft d = x ++ step (.terminate d.terminator) := by
  cases e with
  | query q => exact Query.exists_body hP he
  | insert i => exact Insert.exists_body hP he
  | update u => exact Update.exists_body hP he
  | delete s => exact Delete.exists_body hP he
  | _ => cases hstatement

/-- The property holds of every statement if it holds of the end of a statement, too. -/
theorem Expression.statementDraft_closed (hend : P (step (.terminate d.terminator)))
    {e : Expression} (he : e.Spelled name column) : P (e.statementDraft d) := by
  cases hstatement : e.isStatement with
  | true =>
    obtain ⟨x, hx, hdraft⟩ := Expression.exists_body hP hstatement he
    rw [hdraft]
    exact hP.append hx hend
  | false =>
    cases e with
    | query _ | insert _ | update _ | delete _ => cases hstatement
    | _ => exact hP.fault _

end Expressions

end SqlTree
