/-!
# Operators and other small vocabularies

The closed sets of words that a statement tree is made of.  Each has a `name`, by which documents
refer to it, and where it is written in a statement a `sql` text.  `ofName?` finds a word by its
name (`Operator.ofName?_name` and its siblings).
-/

namespace SqlTree

/-- The first of several words that has a given name. -/
def byName? {α : Type} (name : α → String) (words : List α) (s : String) : Option α :=
  words.find? fun w => name w == s

/-- Comparisons, membership tests and logical operators. -/
inductive Operator where
  | eq | ne | gt | gte | lt | lte | like | notLike | isIn | notIn | isNull | isNotNull
  | not | exists | notExists | between | and | or
  deriving DecidableEq, Repr, Inhabited

namespace Operator

/-- Every operator. -/
def all : List Operator :=
  [eq, ne, gt, gte, lt, lte, like, notLike, isIn, notIn, isNull, isNotNull, not, .exists, notExists,
    between, and, or]

/-- The name of an operator in documents. -/
def name : Operator → String
  | eq => "Eq"
  | ne => "Ne"
  | gt => "Gt"
  | gte => "Gte"
  | lt => "Lt"
  | lte => "Lte"
  | like => "Like"
  | notLike => "NotLike"
  | isIn => "In"
  | notIn => "NotIn"
  | isNull => "IsNull"
  | isNotNull => "IsNotNull"
  | not => "Not"
  | .exists => "Exists"
  | notExists => "NotExists"
  | between => "Between"
  | and => "And"
  | or => "Or"

/-- The keyword or symbol of an operator. -/
def sql : Operator → String
  | eq => "="
  | ne => "<>"
  | gt => ">"
  | gte => ">="
  | lt => "<"
  | lte => "<="
  | like => "LIKE"
  | notLike => "NOT LIKE"
  | isIn => "IN"
  | notIn => "NOT IN"
  | isNull => "IS NULL"
  | isNotNull => "IS NOT NULL"
  | not => "NOT"
  | .exists => "EXISTS"
  | notExists => "NOT EXISTS"
  | between => "BETWEEN"
  | and => "AND"
  | or => "OR"

/-- Whether the right side of an operator is written as a list. -/
def isMembership : Operator → Bool
  | isIn | notIn => true
  | _ => false

/-- The operator of a name. -/
def ofName? : String → Option Operator := byName? name all

theorem ofName?_name (op : Operator) : ofName? op.name = some op := by
  cases op <;> decide

end Operator

/-- The kinds of join. -/
inductive JoinKind where
  | inner | left | right | full | cross
  deriving DecidableEq, Repr, Inhabited

namespace JoinKind

/-- Every kind of join. -/
def all : List JoinKind := [inner, left, right, full, cross]

/-- The name of a kind of join in documents. -/
def name : JoinKind → String
  | inner => "Inner"
  | left => "Left"
  | right => "Right"
  | full => "Full"
  | cross => "Cross"

/-- The keywords of a kind of join. -/
def sql : JoinKind → String
  | inner => "INNER JOIN"
  | left => "LEFT JOIN"
  | right => "RIGHT JOIN"
  | full => "FULL JOIN"
  | cross => "CROSS JOIN"

/-- The kind of join of a name. -/
def ofName? : String → Option JoinKind := byName? name all

theorem ofName?_name (k : JoinKind) : ofName? k.name = some k := by
  cases k <;> decide

end JoinKind

/-- The two directions of an order. -/
inductive SortOrder where
  | asc | desc
  deriving DecidableEq, Repr, Inhabited

namespace SortOrder

/-- Both directions. -/
def all : List SortOrder := [asc, desc]

/-- The name of a direction in documents. -/
def name : SortOrder → String
  | asc => "Asc"
  | desc => "Desc"

/-- The keyword of a direction. -/
def sql : SortOrder → String
  | asc => "ASC"
  | desc => "DESC"

/-- The direction of a name. -/
def ofName? : String → Option SortOrder := byName? name all

theorem ofName?_name (o : SortOrder) : ofName? o.name = some o := by
  cases o <;> decide

end SortOrder

/-- The aggregate functions. -/
inductive AggregateFunction where
  | avg | count | max | min | sum
  deriving DecidableEq, Repr, Inhabited

namespace AggregateFunction

/-- Every aggregate function. -/
def all : List AggregateFunction := [avg, count, max, min, sum]

/-- The name of a function in documents. -/
def name : AggregateFunction → String
  | avg => "Avg"
  | count => "Count"
  | max => "Max"
  | min => "Min"
  | sum => "Sum"

/-- The name of a function in statements. -/
def sql : AggregateFunction → String
  | avg => "AVG"
  | count => "COUNT"
  | max => "MAX"
  | min => "MIN"
  | sum => "SUM"

/-- The function of a name. -/
def ofName? : String → Option AggregateFunction := byName? name all

theorem ofName?_name (f : AggregateFunction) : ofName? f.name = some f := by
  cases f <;> decide

end AggregateFunction

/-- The ways in which a parameter passes a value. -/
inductive Direction where
  /-- Into the call. -/
  | input
  /-- Out of the call. -/
  | output
  /-- Into the call and out of it. -/
  | inout
  /-- The result of the call. -/
  | result
  deriving DecidableEq, Repr, Inhabited

namespace Direction

/-- Every direction. -/
def all : List Direction := [input, output, inout, result]

/-- The name of a direction. -/
def name : Direction → String
  | input => "In"
  | output => "Out"
  | inout => "InOut"
  | result => "Return"

/-- Whether an argument of this direction is read back after the call. -/
def isOut : Direction → Bool
  | output | inout => true
  | input | result => false

/-- The direction of a name. -/
def ofName? : String → Option Direction := byName? name all

theorem ofName?_name (d : Direction) : ofName? d.name = some d := by
  cases d <;> decide

end Direction

/-- The kinds of node of a statement tree. -/
inductive NodeKind where
  | query | insert | update | delete | text | procedure | table | column | value | parameter
  | output | condition | conditions | aggregate | select | source | join | filter | groupBy | having
  | orderBy | field | null | sql | operator | zero
  deriving DecidableEq, Repr, Inhabited

namespace NodeKind

/-- Every kind of node. -/
def all : List NodeKind :=
  [query, insert, update, delete, text, procedure, table, column, value, parameter, output,
    condition, conditions, aggregate, select, source, join, filter, groupBy, having, orderBy, field,
    null, sql, operator, zero]

/-- The name of a kind of node. -/
def name : NodeKind → String
  | query => "Query"
  | insert => "Insert"
  | update => "Update"
  | delete => "Delete"
  | text => "Text"
  | procedure => "Procedure"
  | table => "Table"
  | column => "Column"
  | value => "Value"
  | parameter => "Parameter"
  | output => "Output"
  | condition => "Condition"
  | conditions => "Conditions"
  | aggregate => "Aggregate"
  | select => "Select"
  | source => "From"
  | join => "Join"
  | filter => "Where"
  | groupBy => "GroupBy"
  | having => "Having"
  | orderBy => "OrderBy"
  | field => "Field"
  | null => "Null"
  | sql => "Sql"
  | operator => "Operator"
  | zero => "Zero"

/-- The kind of a name. -/
def ofName? : String → Option NodeKind := byName? name all

end NodeKind

end SqlTree
