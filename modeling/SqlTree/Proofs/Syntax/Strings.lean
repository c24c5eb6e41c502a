import SqlTree.Proofs.Syntax.Children
import SqlTree.Proofs.Text.Unmarked

/-!
# The strings of a statement tree

`Expression.strings` lists the names, aliases and raw texts that a node holds itself, apart from its
children; the strings inside values are not among them, since no value is ever written.  An
expression is unmarked if neither it nor anything inside it has a question mark in a string.
-/

namespace SqlTree

/-- The name and the alias of a table. -/
def Table.strings (t : Table) : List String := t.name :: t.label.toList

/-- The names and aliases of the tables of a `FROM` clause. -/
def Source.strings (s : Source) : List String :=
  s.tables.flatMap Table.strings ++ s.joins.flatMap fun j => j.table.strings

/-- The aliases of fields. -/
def fieldStrings (fields : List Field) : List String := fields.flatMap fun f => f.label.toList

theorem mem_fieldStrings {fields : List Field} {f : Field} (hf : f ∈ fields) {s : String}
    (hs : s ∈ f.label) : s ∈ fieldStrings fields :=
  List.mem_flatMap.mpr ⟨f, hf, Option.mem_toList.mpr hs⟩

/-- The strings in the clauses of a query. -/
def Query.strings (q : Query) : List String :=
  fieldStrings (q.select.getD []) ++ (q.source.map Source.strings).getD []

/-- The columns that are set. -/
def assignmentStrings (assignments : List Assignment) : List String := assignments.map (·.column)

/-- The strings that an expression holds itself. -/
def Expression.strings : Expression → List String
  | .query q => q.strings
  | .insert i => i.table.strings ++ assignmentStrings i.assignments
  | .update u => u.table.strings ++ assignmentStrings u.assignments
  | .delete s => s.table.strings
  | .text t => [t.sql]
  | .procedure p => p.name :: p.parameters.map (·.name)
  | .table t => t.strings
  | .column name => [name]
  | .parameter p => [p.name]
  | .output name => [name]
  | .select fields => fieldStrings fields
  | .source s => s.strings
  | .join j => j.table.strings
  | .field f => f.label.toList
  | .sql raw => [raw]
  | .value _ | .condition _ | .conditions _ | .aggregate _ _ | .filter _ | .groupBy _ | .having _
  | .orderBy _ | .null | .operator _ | .zero => []

/-- No string of an expression, or of anything inside it, has a question mark. -/
inductive Expression.Unmarked : Expression → Prop
  | intro {e : Expression} (strings : ∀ s ∈ e.strings, Text.Unmarked s)
    (children : ∀ c ∈ e.children, c.Unmarked) : e.Unmarked

end SqlTree
