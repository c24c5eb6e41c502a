import SqlTree.Draft
import SqlTree.Expression.Basic

/-!
# Clauses

How the parts of a statement are put together when the parts themselves are already drafts.  Nothing
here recurses into expressions; what is asked of an expression is only which kind it is.
-/

namespace SqlTree

open Draft (empty step text blank lineBreak argument concat commaSeparated parenthesized ensure
  keyword)

/-! ### Leaves -/

/-- An alias, unless it is absent or empty. -/
def usedAlias (label : Option String) : Option String := label.filter fun a => !a.isEmpty

/-- A value: a placeholder, or the keyword for the null value. -/
def Value.draft (v : Value) : Draft := if v.isNull then text "NULL" else argument none v

/-- A table: its name, its alias or both. -/
def Table.draft (t : Table) : Draft :=
  match t.name.isEmpty, usedAlias t.label with
  | true, none => .fault (.invalidArgument .unnamedTable)
  | false, some label => text t.name ++ text " AS " ++ text label
  | false, none => text t.name
  | true, some label => text label

/-- A field with its alias in quotes, if it has one. -/
def fieldDraft (d : Dialect) (expr : Draft) (label : Option String) : Draft :=
  match usedAlias label with
  | some label => expr ++ blank ++ text "AS" ++ blank ++ text (d.quote label)
  | none => expr

/-- A list of fields; no fields stand for all columns. -/
def selectDraft (fields : List Draft) : Draft :=
  if fields.isEmpty then text "*" else commaSeparated fields

/-- A field of an order. -/
def orderFieldDraft (expr : Draft) (direction : SortOrder) : Draft :=
  expr ++ blank ++ text direction.sql

/-! ### Conditions -/

/-- An expression in one pair of parentheses: a subquery brings its own. -/
def enclosed (e : Expression) (body : Draft) : Draft :=
  match e with
  | .query _ => body
  | _ => parenthesized body

/-- The right side of a membership test: the values of a list each get a placeholder, and null
stands for the empty list. -/
def memberList (e : Expression) (body : Draft) : Draft :=
  match e with
  | .value (.list items) => parenthesized (commaSeparated (items.map Value.draft))
  | .value .null => parenthesized empty
  | _ => enclosed e body

/-- A condition whose sides are drafts already; the right side comes with its expression. -/
def conditionDraft (left : Option Draft) (op : Operator) (right : Option (Expression × Draft)) :
    Draft :=
  match left, right with
  | none, none => text op.sql
  | none, some (e, body) => keyword op.sql ++ enclosed e body
  | some left, none => left ++ blank ++ text op.sql
  | some left, some (e, body) =>
    left ++ blank ++ keyword op.sql ++ if op.isMembership then memberList e body else body

/-- An item of a sequence of conditions: markers open and close a group. -/
def itemDraft (item : Expression) (body : Draft) : Draft :=
  if item.opensGroup then step .openParenthesis
  else if item.closesGroup then step .closeParenthesis
  else body

/-- Items of a sequence of conditions, one a line, from a depth on.  A marker that closes a group
stands at the depth of the one that opened it. -/
def itemLines : (depth : Nat) → (first : Bool) → List (Expression × Draft) → Draft
  | _, _, [] => empty
  | depth, first, (item, body) :: rest =>
    let here := if item.closesGroup then depth - 1 else depth
    let after := if item.opensGroup then here + 1 else here
    (if first then empty else lineBreak) ++ step (.indent here) ++ itemDraft item body ++
      itemLines after false rest

/-- A sequence of conditions, whose groups have to be properly nested. -/
def sequenceDraft (items : List Expression) (bodies : List Draft) : Draft :=
  ensure (Conditions.balanced items) .unbalancedGroups ++ itemLines 0 true (items.zip bodies)

/-- A clause made of conditions; without conditions there is no clause. -/
def conditionsClause (word : String) (items : List Expression) (bodies : List Draft) : Draft :=
  if items.isEmpty then empty
  else lineBreak ++ text word ++ lineBreak ++ sequenceDraft items bodies

/-! ### Clauses of a query -/

/-- A join with its conditions on the same line. -/
def joinDraft (kind : JoinKind) (table : Table) (items : List Expression) (bodies : List Draft) :
    Draft :=
  keyword kind.sql ++ table.draft ++
    if items.isEmpty then empty
    else
      ensure (Conditions.balanced items) .unbalancedGroups ++ blank ++ text "ON" ++
        concat ((items.zip bodies).map fun (item, body) => blank ++ itemDraft item body)

/-- A `FROM` clause, which has to have a table. -/
def sourceDraft (tables : List Table) (joins : List Draft) : Draft :=
  ensure (!tables.isEmpty) .sourceWithoutTables ++ lineBreak ++ keyword "FROM" ++
    commaSeparated (tables.map Table.draft) ++ concat (joins.map fun join => lineBreak ++ join)

/-- A clause made of a list; without items there is no clause. -/
def listClause (word : String) (items : List Draft) : Draft :=
  if items.isEmpty then empty else lineBreak ++ keyword word ++ commaSeparated items

end SqlTree
