import SqlTree.Value.Basic

/-!
# Values as JSON documents

`Value.toJson` writes a value under the name of its kind, and `Value.ofJson?` reads such a document.
-/

namespace SqlTree

open Calendar (Date DateTime)

/-- A float; one that is not finite has no number in a document. -/
def Json.ofFloat (x : Float) : Json := if x.isFinite then .float x else .null

namespace Value

mutual

/-- A value under the name of its kind. -/
def toJson : Value → Json
  | .null => .string "Null"
  | .bool b => .object [("Bool", .bool b)]
  | .int n => .object [("Int", .int n.toInt)]
  | .float x => .object [("Float", Json.ofFloat x)]
  | .string s => .object [("String", .string s)]
  | .bytes content => .object [("Bytes", .array (content.map fun b => .int b.toNat))]
  | .date d => .object [("Date", .string (String.ofList d.text))]
  | .dateTime t => .object [("DateTime", .string (String.ofList (t.text 'T')))]
  | .uuid u => .object [("Uuid", .string (String.ofList u.text))]
  | .list items => .object [("List", .array (toJsonItems items))]

/-- The documents of a list of values. -/
def toJsonItems : List Value → List Json
  | [] => []
  | item :: rest => toJson item :: toJsonItems rest

end

/-- Reads a value from a document nested at most `levels` deep. -/
def ofJson? : (levels : Nat) → Json → Option Value
  | 0, j => if j.plainName? 0 = some "Null" then some .null else none
  | levels + 1, j =>
    match j with
    | .object [("Bool", j)] => j.bool?.map .bool
    | .object [("Int", j)] => j.int64?.map .int
    | .object [("Float", j)] => j.float?.map .float
    | .object [("String", j)] => j.string?.map .string
    | .object [("Bytes", j)] => (j.list? levels fun _ => Json.byte?).map .bytes
    | .object [("Date", .string s)] => (Date.ofText? s.toList).map .date
    | .object [("DateTime", .string s)] => (DateTime.ofText? s.toList).map .dateTime
    | .object [("Uuid", .string s)] => (Uuid.ofText? s.toList).map .uuid
    | .object [("List", .array items)] =>
      match levels with
      | 0 => none
      | levels + 1 => (items.mapM (ofJson? levels)).map .list
    | j => if j.plainName? (levels + 1) = some "Null" then some .null else none

end Value

end SqlTree
