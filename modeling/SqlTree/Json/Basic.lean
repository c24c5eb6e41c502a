import SqlTree.Dictionary

/-!
# JSON documents

`Json` is a document as it was read: members of an object in their order, repeated keys included.
`canonical` sorts the members of every object by key and keeps the last of those with one key.
`admissible` says that a document is no deeper than a bound and holds no `unreadable` part.
-/

namespace SqlTree

/-- A JSON document. -/
inductive Json where
  /-- The word `null`. -/
  | null
  /-- A truth value. -/
  | bool (b : Bool)
  /-- A whole number of at most sixty-four bits, signed or unsigned. -/
  | int (n : Int)
  /-- Any other number. -/
  | float (x : Float)
  /-- A string. -/
  | string (s : String)
  /-- An array. -/
  | array (items : List Json)
  /-- An object, its members in the order of the text. -/
  | object (members : List (String × Json))
  /-- A part that obeys the grammar and has no value: a number that is too large for a float, or a
  string that pairs surrogates wrongly. -/
  | unreadable
  deriving Inhabited

namespace Json

mutual

/-- The document with the members of every object in increasing order of their keys, the last one of
each key. -/
def canonical : Json → Json
  | .array items => .array (canonicalItems items)
  | .object members => .object (Dictionary.ofList (canonicalMembers members)).entries
  | .null => .null
  | .bool b => .bool b
  | .int n => .int n
  | .float x => .float x
  | .string s => .string s
  | .unreadable => .unreadable

/-- `canonical` for the items of an array. -/
def canonicalItems : List Json → List Json
  | [] => []
  | item :: rest => canonical item :: canonicalItems rest

/-- `canonical` for the members of an object. -/
def canonicalMembers : List (String × Json) → List (String × Json)
  | [] => []
  | (key, value) :: rest => (key, canonical value) :: canonicalMembers rest

end

mutual

/-- Whether every part has a value and arrays and objects are nested at most `levels` deep. -/
def admissible : (levels : Nat) → Json → Bool
  | _, .unreadable => false
  | 0, .array _ | 0, .object _ => false
  | levels + 1, .array items => admissibleItems levels items
  | levels + 1, .object members => admissibleMembers levels members
  | _, .null | _, .bool _ | _, .int _ | _, .float _ | _, .string _ => true

/-- `admissible` for every item of an array. -/
def admissibleItems (levels : Nat) : List Json → Bool
  | [] => true
  | item :: rest => admissible levels item && admissibleItems levels rest

/-- `admissible` for every member of an object. -/
def admissibleMembers (levels : Nat) : List (String × Json) → Bool
  | [] => true
  | (_, value) :: rest => admissible levels value && admissibleMembers levels rest

end

mutual

/-- How deep arrays and objects are nested. -/
def depth : Json → Nat
  | .array items => depthItems items + 1
  | .object members => depthMembers members + 1
  | .null | .bool _ | .int _ | .float _ | .string _ | .unreadable => 0

/-- The depth of the deepest item. -/
def depthItems : List Json → Nat
  | [] => 0
  | item :: rest => max (depth item) (depthItems rest)

/-- The depth of the deepest member. -/
def depthMembers : List (String × Json) → Nat
  | [] => 0
  | (_, value) :: rest => max (depth value) (depthMembers rest)

end

/-- The deepest nesting that a document given as text may have. -/
def textLevels : Nat := 127

/-! ### Parts of a document -/

/-- The string that a document consists of. -/
def string? : Json → Option String
  | .string s => some s
  | _ => none

/-- The truth value that a document consists of. -/
def bool? : Json → Option Bool
  | .bool b => some b
  | _ => none

/-- The whole number from `0` to `bound - 1` that a document consists of. -/
def natBelow? (bound : Nat) : Json → Option Nat
  | .int n => if 0 ≤ n ∧ n < bound then some n.toNat else none
  | _ => none

/-- The number of sixty-four bits that a document consists of. -/
def uint64? (j : Json) : Option UInt64 := (j.natBelow? UInt64.size).map UInt64.ofNat

/-- The byte that a document consists of. -/
def byte? (j : Json) : Option UInt8 := (j.natBelow? UInt8.size).map UInt8.ofNat

/-- The signed number of sixty-four bits that a document consists of. -/
def int64? : Json → Option Int64
  | .int n => if (Int64.ofInt n).toInt = n then some (Int64.ofInt n) else none
  | _ => none

/-- A whole number of at most sixty-four bits as a float, rounded to nearest. -/
def floatOfInt (n : Int) : Float :=
  if n < 0 then -(n.natAbs.toUInt64.toFloat) else n.natAbs.toUInt64.toFloat

/-- The number that a document consists of, as a float. -/
def float? : Json → Option Float
  | .int n => some (floatOfInt n)
  | .float x => some x
  | _ => none

/-- The items of an array, which is one of `levels` levels of nesting. -/
def list? {α : Type} (levels : Nat) (item? : Nat → Json → Option α) : Json → Option (List α)
  | .array items =>
    match levels with
    | 0 => none
    | levels + 1 => items.mapM (item? levels)
  | _ => none

/-- A document that may be `null` in place of a value. -/
def nullable? {α : Type} (value? : Json → Option α) : Json → Option (Option α)
  | .null => some none
  | j => (value? j).map some

/-! ### Records and alternatives -/

/-- Whether one of the keys stands twice among the members. -/
def repeats (keys : List String) (members : List (String × Json)) : Bool :=
  keys.any fun key => 1 < (members.filter fun m => m.1 == key).length

/-- The fields of a record, in the order of `keys`: an object that names each field at most once and
may have other members, or an array of the leading fields. -/
def fields? (keys : List String) : Json → Option (List (Option Json))
  | .object members =>
    if repeats keys members then none else some (keys.map fun key => members.lookup key)
  | .array items =>
    if items.length ≤ keys.length then
      some (items.map some ++ List.replicate (keys.length - items.length) none)
    else none
  | _ => none

/-- A field that has to be present. -/
def required {α : Type} (value? : Json → Option α) : Option Json → Option α
  | some j => value? j
  | none => none

/-- A field with a value for its absence. -/
def optional {α : Type} (absent : α) (value? : Json → Option α) : Option Json → Option α
  | some j => value? j
  | none => some absent

/-- An alternative without content: its name alone, or its name over `null`. -/
def plainName? : (levels : Nat) → Json → Option String
  | _, .string name => some name
  | _ + 1, .object [(name, .null)] => some name
  | _, _ => none

end Json

end SqlTree
