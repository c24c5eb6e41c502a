import SqlTree.Calendar.DateTime
import SqlTree.Json.Printer
import SqlTree.Text.Hex
import SqlTree.Uuid

/-!
# Bindable values

What a placeholder of a statement stands for.  `Value.display` is the readable form of a value, and
`Value.ofJson` takes a free-form JSON document as a value.
-/

namespace SqlTree

open Calendar (Date DateTime)

/-- A value that can be bound to a placeholder. -/
inductive Value where
  /-- The absent value. -/
  | null
  /-- A truth value. -/
  | bool (b : Bool)
  /-- A whole number of sixty-four bits. -/
  | int (n : Int64)
  /-- A float. -/
  | float (x : Float)
  /-- A string. -/
  | string (s : String)
  /-- Raw bytes. -/
  | bytes (content : List UInt8)
  /-- A date. -/
  | date (d : Date)
  /-- A date and a time without a zone. -/
  | dateTime (t : DateTime)
  /-- A unique identifier. -/
  | uuid (u : Uuid)
  /-- An ordered sequence of values. -/
  | list (items : List Value)
  deriving Inhabited

namespace Value

/-- Whether a value is the absent one. -/
def isNull : Value → Bool
  | .null => true
  | _ => false

/-- A text between single quotes, as it is. -/
def inQuotes (cs : List Char) : String := String.ofList ('\'' :: cs ++ ['\''])

mutual

/-- The readable form of a value. -/
def display : Value → String
  | .null => "NULL"
  | .bool b => if b then "true" else "false"
  | .int n => toString n.toInt
  | .float x => String.ofList (Decimal.plain x)
  | .string s => inQuotes s.toList
  | .bytes content => "0x" ++ String.ofList (content.flatMap Text.Hex.byteText)
  | .date d => inQuotes d.text
  | .dateTime t => inQuotes (t.text ' ')
  | .uuid u => inQuotes u.text
  | .list items => "[" ++ displayItems items ++ "]"

/-- The readable forms of items, separated by commas. -/
def displayItems : List Value → String
  | [] => ""
  | [item] => display item
  | item :: rest => display item ++ ", " ++ displayItems rest

end

mutual

/-- A free-form JSON document as a value: whole numbers of sixty-four signed bits stay whole, other
numbers are floats, arrays are lists, and an object is the string of its JSON text. -/
def ofJson : Json → Value
  | .null | .unreadable => .null
  | .bool b => .bool b
  | .int n =>
    match Json.int64? (.int n) with
    | some n => .int n
    | none => .float (Json.floatOfInt n)
  | .float x => .float x
  | .string s => .string s
  | .array items => .list (ofJsonItems items)
  | .object members => .string (Json.compact (.object members))

/-- Free-form JSON documents as values. -/
def ofJsonItems : List Json → List Value
  | [] => []
  | item :: rest => ofJson item :: ofJsonItems rest

end

end Value

end SqlTree
