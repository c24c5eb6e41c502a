import SqlTree.Proofs.Syntax.Strings

/-!
# How the names in a tree are spelled

`e.Spelled name column` says that all strings in `e` satisfy `name`, and all names of columns
`column`, too.  The markers that open and close the groups of a sequence of conditions are free:
they are written as parentheses, not as texts.  So the expressions directly inside another one are
told apart by whether they are items of such a sequence.
-/

namespace SqlTree

/-! ### Items and operands -/

/-- Whether an expression is the marker of a group where it is an item. -/
def Expression.isMarker (e : Expression) : Bool := e.opensGroup || e.closesGroup

/-- The expressions in the sequences of conditions of an expression. -/
def Expression.items : Expression → List Expression
  | .query q => (q.source.map Source.children).getD [] ++ q.filter.getD [] ++ q.having.getD []
  | .update u => u.filter.getD []
  | .delete s => s.filter.getD []
  | .source s => s.children
  | .join j => j.conditions
  | .conditions items | .filter items | .having items => items
  | _ => []

/-- The expressions directly inside an expression that are in no sequence of conditions. -/
def Expression.operands : Expression → List Expression
  | .query q =>
    (q.select.getD []).map (·.expr) ++ q.groupBy.getD [] ++ (q.orderBy.getD []).map (·.expr)
  | .insert i => i.children
  | .update u => u.assignments.map (·.value) ++ (u.orderBy.getD []).map (·.expr)
  | .delete s => (s.orderBy.getD []).map (·.expr)
  | .source _ | .join _ | .conditions _ | .filter _ | .having _ => []
  | e => e.children

/-- The children of a node are its operands and its items. -/
theorem Expression.mem_children_iff (e c : Expression) :
    c ∈ e.children ↔ c ∈ e.operands ∨ c ∈ e.items := by
  cases e with
  | query q =>
    simp only [children, operands, items, Query.children, List.mem_append]
    grind
  | update u =>
    simp only [children, operands, items, Update.children, List.mem_append]
    grind
  | delete s =>
    simp only [children, operands, items, Delete.children, List.mem_append]
    exact or_comm
  | _ => simp [children, operands, items]

/-! ### Names -/

/-- The names of columns that an expression holds itself. -/
def Expression.columnNames : Expression → List String
  | .column name => [name]
  | .insert i => assignmentStrings i.assignments
  | .update u => assignmentStrings u.assignments
  | _ => []

/-- Every string of an expression, and of anything inside it but the markers of groups, is spelled
in one way, and every name of a column in another way, too. -/
inductive Expression.Spelled (name column : String → Prop) : Expression → Prop
  | intro {e : Expression} (strings : ∀ s ∈ e.strings, name s)
    (columns : ∀ s ∈ e.columnNames, column s)
    (operands : ∀ c ∈ e.operands, c.Spelled name column)
    (items : ∀ c ∈ e.items, c.isMarker = false → c.Spelled name column) : e.Spelled name column

/-- What holds of all strings holds of those of any expression. -/
theorem Expression.spelled_of_forall {name column : String → Prop} (hname : ∀ s, name s)
    (hcolumn : ∀ s, column s) (e : Expression) : e.Spelled name column := by
  induction e using Expression.induction with
  | step e ih =>
    refine ⟨fun s _ => hname s, fun s _ => hcolumn s, fun c hc => ?_, fun c hc _ => ?_⟩
    · exact ih c ((e.mem_children_iff c).mpr (Or.inl hc))
    · exact ih c ((e.mem_children_iff c).mpr (Or.inr hc))

end SqlTree
