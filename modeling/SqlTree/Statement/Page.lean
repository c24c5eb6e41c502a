import SqlTree.Statement.Clause

/-!
# Pages

A query with an offset or a count returns one page of its rows.  Where the dialect has a limit
clause the page is a suffix of the query (`limitClause`).  Where it has none the rows are numbered
in a derived table and chosen by number (`windowedQuery`); the outer query then has to name the
columns of the derived table, which `outputColumns` and `outputName` find.
-/

namespace SqlTree

open Draft (empty step text blank lineBreak commaSeparated parenthesized keyword)

/-! ### Names of columns -/

/-- The part of a column name after its last point. -/
def unqualified (column : String) : String :=
  String.ofList (column.toList.reverse.takeWhile (· != '.')).reverse

/-- The name under which a column leaves a list of fields: the alias of the first field that is the
column, else the unqualified name. -/
def outputName (d : Dialect) (fields : List Field) (column : String) : String :=
  let selects (f : Field) : Bool := match f.expr with
    | .column c => c == column
    | _ => false
  match (fields.find? selects).bind fun f => usedAlias f.label with
  | some label => d.quote label
  | none => unqualified column

/-- The name of the column that a field makes, if it has one. -/
def Field.outputColumn? (d : Dialect) (f : Field) : Option String :=
  match usedAlias f.label with
  | some label => some (d.quote label)
  | none =>
    match f.expr with
    | .column c => if unqualified c = "*" then none else some (unqualified c)
    | _ => none

/-- The names of the columns that a list of fields makes; `none` when one of them has no name or
there are no fields. -/
def outputColumns? (d : Dialect) (fields : List Field) : Option (List String) :=
  if fields.isEmpty then none else fields.mapM (Field.outputColumn? d)

/-! ### The parts of a query -/

/-- The clauses of a query as drafts, and what its page needs to know of it. -/
structure QueryParts where
  /-- Whether equal rows are returned once. -/
  distinct : Bool
  /-- The field list. -/
  fields : Draft
  /-- The names of the columns that leave the query, or a star. -/
  columns : String
  /-- The clauses from `FROM` to `HAVING`. -/
  body : Draft
  /-- The fields of the order; in the window of a query that returns equal rows once, columns are
  written under the names that they have there. -/
  order : List Draft
  /-- The number of rows to skip. -/
  offset : UInt64
  /-- The number of rows to return, zero for all. -/
  count : UInt64

namespace QueryParts

/-- Everything from `SELECT` to `HAVING`, with something after the field list. -/
def projection (p : QueryParts) (extra : Draft) : Draft :=
  text "SELECT" ++ (if p.distinct then blank ++ text "DISTINCT" else empty) ++ blank ++ p.fields ++
    extra ++ p.body

/-! ### Limit clauses -/

/-- The limit clause of a page. -/
def limitClause (d : Dialect) (p : QueryParts) : Draft :=
  lineBreak ++
    match d.limitStyle with
    | .offsetComma => text ("LIMIT " ++ toString p.offset.toNat ++ "," ++ toString p.count.toNat)
    | .limitOffset | .rowNumber =>
      (if 0 < p.count then text ("LIMIT " ++ toString p.count.toNat) else empty) ++
        if 0 < p.offset then blank ++ text ("OFFSET " ++ toString p.offset.toNat) else empty

/-- A query that is not windowed. -/
def plain (d : Dialect) (limited : Bool) (p : QueryParts) : Draft :=
  p.projection empty ++ listClause "ORDER BY" p.order ++ if limited then p.limitClause d else empty

/-! ### Numbered rows -/

/-- The column that numbers the rows in the order of the query. -/
def rowNumber (p : QueryParts) : Draft :=
  step .comma ++ keyword "ROW_NUMBER() OVER" ++
    parenthesized (keyword "ORDER BY" ++
      if p.order.isEmpty then text "(SELECT NULL)" else commaSeparated p.order) ++
    text " AS __row_num"

/-- The derived table with numbered rows.  Numbered rows are all different, so equal rows are
dropped in a further derived table below. -/
def numberedRows (p : QueryParts) : Draft :=
  if p.distinct then
    text "SELECT __distinct.*" ++ p.rowNumber ++ lineBreak ++ keyword "FROM" ++
      parenthesized (p.projection empty) ++ text " AS __distinct"
  else p.projection p.rowNumber

/-- The bounds on the number of a row. -/
def rowBounds (p : QueryParts) : String :=
  "WHERE __row_num > " ++ toString p.offset.toNat ++
    if p.count = 0 then ""
    else " AND __row_num <= " ++ toString (p.offset.toNat + p.count.toNat)

/-- A query that chooses its page by row number.  Only a whole statement keeps the order. -/
def windowed (topLevel : Bool) (p : QueryParts) : Draft :=
  if UInt64.size ≤ p.offset.toNat + p.count.toNat ∧ p.count ≠ 0 then
    .fault (.invalidArgument (.rowWindowOverflow p.offset p.count))
  else
    keyword "SELECT" ++ keyword p.columns ++ keyword "FROM" ++ parenthesized p.numberedRows ++
      text " AS __paged" ++ lineBreak ++ text p.rowBounds ++
      if topLevel then lineBreak ++ text "ORDER BY __row_num" else empty

end QueryParts

end SqlTree
