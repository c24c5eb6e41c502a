import SqlTree.Proofs.Statement.Visit
import SqlTree.Proofs.Syntax.Children

/-!
# Well-formed statements

`e.WellFormed d` says what a statement has to satisfy to be written in a dialect: what stands below
it, which tables it names, how its conditions are grouped, and what it asks of its rows.  Nothing
here depends on the order in which a statement is visited.  Only what is written counts
(`Expression.Renders`): the `HAVING` clause of a query without groups does not.
-/

namespace SqlTree

/-! ### What is written -/

/-- Whether a query has groups, without which its `HAVING` clause is not written. -/
def Query.isGrouped (q : Query) : Bool := !(q.groupBy.getD []).isEmpty

/-- The expressions in the clauses of a query that are written. -/
def Query.rendered (q : Query) : List Expression :=
  (q.select.getD []).map (·.expr) ++ (q.source.map Source.children).getD [] ++ q.filter.getD [] ++
    (if q.isGrouped then q.groupBy.getD [] ++ q.having.getD [] else []) ++
    (q.orderBy.getD []).map (·.expr)

/-- The expressions directly inside an expression that are written with it. -/
def Expression.rendered : Expression → List Expression
  | .query q => q.rendered
  | e => e.children

/-- An expression is written somewhere below another one. -/
inductive Expression.Renders : Expression → Expression → Prop
  | direct {e p : Expression} (h : p ∈ e.rendered) : e.Renders p
  | inside {e c p : Expression} (h : c ∈ e.rendered) (hp : c.Renders p) : e.Renders p

/-- The tables of a `FROM` clause and of its joins. -/
def Source.allTables (s : Source) : List Table := s.tables ++ s.joins.map (·.table)

/-- The tables that a node itself names; the target of a statement is not among them. -/
def Expression.tables : Expression → List Table
  | .table t => [t]
  | .source s => s.allTables
  | .join j => [j.table]
  | .query q => q.source.toList.flatMap Source.allTables
  | _ => []

/-- The `FROM` clause of a node. -/
def Expression.sources : Expression → List Source
  | .source s => [s]
  | .query q => q.source.toList
  | _ => []

/-- The sequences of conditions that a node itself writes. -/
def Expression.sequences : Expression → List Conditions
  | .conditions items | .filter items | .having items => [items]
  | .join j => [j.conditions]
  | .source s => s.joins.map (·.conditions)
  | .query q =>
    (q.source.toList.flatMap fun s => s.joins.map (·.conditions)) ++ q.filter.toList ++
      if q.isGrouped then q.having.toList else []
  | .update u => u.filter.toList
  | .delete s => s.filter.toList
  | _ => []

/-! ### Well-formedness -/

/-- Whether an expression may stand inside a statement. -/
def Expression.isPart : Expression → Bool
  | .insert _ | .update _ | .delete _ | .text _ | .procedure _ | .parameter _ | .output _ => false
  | _ => true

/-- The rows that a node asks for can be told by their numbers: the number of the last one fits
sixty-four bits, and no statement changes a limited number of rows. -/
def Expression.CountsRows : Expression → Prop
  | .query q => 0 < q.count → q.offset.toNat + q.count.toNat < UInt64.size
  | .update u => u.count = 0
  | .delete s => s.count = 0
  | _ => True

/-- A statement that changes a table names it, and gives values if it is to give any. -/
def Expression.HasTarget : Expression → Prop
  | .insert i => i.table.name ≠ "" ∧ i.assignments ≠ []
  | .update u => u.table.name ≠ "" ∧ u.assignments ≠ []
  | .delete s => s.table.name ≠ ""
  | _ => True

/-- A node whose own tables, conditions and rows are in order. -/
structure Expression.Admissible (d : Dialect) (e : Expression) : Prop where
  /-- Every table has a name or an alias. -/
  tables : ∀ t ∈ e.tables, t.name ≠ "" ∨ ∃ label, t.label = some label ∧ label ≠ ""
  /-- Every `FROM` clause has a table. -/
  sources : ∀ s ∈ e.sources, s.tables ≠ []
  /-- The groups of every sequence of conditions are properly nested. -/
  sequences : ∀ items ∈ e.sequences, Conditions.balanced items = true
  /-- Where pages are chosen by row number, they can be. -/
  rows : d.limitStyle = .rowNumber → e.CountsRows

/-- A statement that can be written. -/
structure Expression.WellFormed (d : Dialect) (e : Expression) : Prop where
  /-- It is a query or changes a table. -/
  statement : e.isStatement = true
  /-- It has the target that it needs. -/
  target : e.HasTarget
  /-- Only parts of statements are written below it. -/
  parts : ∀ p, e.Renders p → p.isPart = true
  /-- The statement itself and everything written below it is in order. -/
  admissible : ∀ p, p = e ∨ e.Renders p → p.Admissible d

end SqlTree
