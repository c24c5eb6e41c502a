import SqlTree.Expression.Basic

/-!
# Building statement trees

Functions that make a statement step by step.  Lists grow at their end, so that the order of the
calls is the order of the parts.
-/

namespace SqlTree

/-! ### Tables, fields and orders -/

/-- The table under an alias. -/
def Table.named (t : Table) (label : String) : Table := { t with label := some label }

/-- The field under an alias. -/
def Field.named (f : Field) (label : String) : Field := { f with label := some label }

/-- An order with one more field. -/
def orderWith (order : Option (List OrderField)) (expr : Expression) (direction : SortOrder) :
    Option (List OrderField) :=
  some (order.getD [] ++ [⟨expr, direction⟩])

/-! ### Conditions -/

namespace Condition

/-- An operator between two expressions. -/
def binary (left : Expression) (op : Operator) (right : Expression) : Condition :=
  ⟨some left, op, some right⟩

/-- A column compared with a bound value. -/
def compare (column : String) (op : Operator) (value : Value) : Condition :=
  binary (.column column) op (.value value)

/-- A column equal to a bound value. -/
def equals (column : String) (value : Value) : Condition := compare column .eq value

/-- A column among the values of a list. -/
def inList (column : String) (values : Value) : Condition := compare column .isIn values

/-- An expression followed by an operator. -/
def postfixed (left : Expression) (op : Operator) : Condition := ⟨some left, op, none⟩

/-- An operator in front of an expression. -/
def prefixed (op : Operator) (right : Expression) : Condition := ⟨none, op, some right⟩

/-- A column that is null. -/
def isNull (column : String) : Condition := postfixed (.column column) .isNull

end Condition

namespace Conditions

/-- The sequence with one more item. -/
def push (items : Conditions) (item : Expression) : Conditions := items ++ [item]

/-- The sequence followed by `AND`. -/
def and (items : Conditions) : Conditions := push items (.operator .and)

/-- The sequence followed by `OR`. -/
def or (items : Conditions) : Conditions := push items (.operator .or)

/-- The sequence with a group opened. -/
def openGroup (items : Conditions) : Conditions := push items .openGroup

/-- The sequence with a group closed. -/
def closeGroup (items : Conditions) : Conditions := push items .closeGroup

end Conditions

/-! ### Statements -/

/-- A column set to a value. -/
def Assignment.ofValue (column : String) (value : Value) : Assignment := ⟨column, .value value⟩

/-- The statement with one more column. -/
def Insert.assign (i : Insert) (a : Assignment) : Insert :=
  { i with assignments := i.assignments ++ [a] }

/-- The statement with one more column. -/
def Update.assign (u : Update) (a : Assignment) : Update :=
  { u with assignments := u.assignments ++ [a] }

/-- The statement with one more field in its order. -/
def Update.orderedBy (u : Update) (expr : Expression) (direction : SortOrder) : Update :=
  { u with orderBy := orderWith u.orderBy expr direction }

/-- The statement with one more field in its order. -/
def Delete.orderedBy (d : Delete) (expr : Expression) (direction : SortOrder) : Delete :=
  { d with orderBy := orderWith d.orderBy expr direction }

namespace Query

/-- All columns of a table. -/
def ofTable (t : Table) : Query := { source := some { tables := [t] } }

/-- The query with one more field. -/
def withField (q : Query) (f : Field) : Query := { q with select := some (q.select.getD [] ++ [f]) }

/-- The query with one more join; a query without a `FROM` clause gets one without tables. -/
def withJoin (q : Query) (j : Join) : Query :=
  let s := q.source.getD {}
  { q with source := some { s with joins := s.joins ++ [j] } }

/-- The query with one more field in its order. -/
def orderedBy (q : Query) (expr : Expression) (direction : SortOrder) : Query :=
  { q with orderBy := orderWith q.orderBy expr direction }

/-- The query restricted to the rows of one page. -/
def page (q : Query) (offset count : UInt64) : Query := { q with offset := offset, count := count }

end Query

/-- The template with an input parameter under a name, in place of one that was there. -/
def Template.bind (t : Template) (name : String) (value : Value) : Template :=
  { t with parameters := t.parameters.set name { name := name, value := value } }

/-- The call with one more parameter. -/
def Procedure.withParameter (p : Procedure) (parameter : Parameter) : Procedure :=
  { p with parameters := p.parameters ++ [parameter] }

/-- The parameters that name the result of a call. -/
def Procedure.results (p : Procedure) : List Parameter :=
  p.parameters.filter fun parameter => parameter.direction == .result

end SqlTree
