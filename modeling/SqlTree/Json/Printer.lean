import SqlTree.Decimal.Notation
import SqlTree.Json.Basic
import SqlTree.Text.Hex

/-!
# Writing JSON documents

`Json.compact` writes a document without blanks, and `Json.pretty` one item or member a line,
indented by two blanks a level.  Strings escape quotes, backslashes and control characters and
nothing else.
-/

namespace SqlTree.Json

/-- A character inside a string. -/
def escaped (c : Char) : List Char :=
  if c = '"' then ['\\', '"']
  else if c = '\\' then ['\\', '\\']
  else if c = '\x08' then ['\\', 'b']
  else if c = '\x0c' then ['\\', 'f']
  else if c = '\n' then ['\\', 'n']
  else if c = '\r' then ['\\', 'r']
  else if c = '\t' then ['\\', 't']
  else if c.toNat < 0x20 then
    ['\\', 'u', '0', '0'] ++ Text.Hex.byteText c.toNat.toUInt8
  else [c]

/-- A string between quotes. -/
def quoted (s : String) : String := "\"" ++ String.ofList (s.toList.flatMap escaped) ++ "\""

/-- A number, or `null` for a float that no number denotes. -/
def floatText (x : Float) : String :=
  match Decimal.document? x with
  | some text => String.ofList text
  | none => "null"

/-- A document that is neither an array nor an object. -/
def scalarText : Json → String
  | .bool true => "true"
  | .bool false => "false"
  | .int n => toString n
  | .float x => floatText x
  | .string s => quoted s
  | .null | .array _ | .object _ | .unreadable => "null"

/-! ### Layouts -/

/-- How the parts of arrays and objects are set apart. -/
structure Style where
  /-- What stands in front of an item, a member or a closing bracket at a depth. -/
  gap : (depth : Nat) → String
  /-- What stands between a key and its value. -/
  colon : String

/-- Everything in one line, without blanks. -/
def Style.compact : Style := ⟨fun _ => "", ":"⟩

/-- One item or member a line, indented by two blanks a level. -/
def Style.pretty : Style :=
  ⟨fun depth => "\n" ++ String.ofList (List.replicate (2 * depth) ' '), ": "⟩

mutual

/-- A document at a depth. -/
def writeAt (style : Style) (depth : Nat) : Json → String
  | .array [] => "[]"
  | .object [] => "\x7b\x7d"
  | .array items => "[" ++ writeItems style (depth + 1) items ++ style.gap depth ++ "]"
  | .object members =>
    "\x7b" ++ writeMembers style (depth + 1) members ++ style.gap depth ++ "\x7d"
  | .null => scalarText .null
  | .bool b => scalarText (.bool b)
  | .int n => scalarText (.int n)
  | .float x => scalarText (.float x)
  | .string s => scalarText (.string s)
  | .unreadable => scalarText .unreadable

/-- Items at a depth, separated by commas. -/
def writeItems (style : Style) (depth : Nat) : List Json → String
  | [] => ""
  | [item] => style.gap depth ++ writeAt style depth item
  | item :: rest =>
    style.gap depth ++ writeAt style depth item ++ "," ++ writeItems style depth rest

/-- Members at a depth, separated by commas. -/
def writeMembers (style : Style) (depth : Nat) : List (String × Json) → String
  | [] => ""
  | [(key, value)] => style.gap depth ++ quoted key ++ style.colon ++ writeAt style depth value
  | (key, value) :: rest =>
    style.gap depth ++ quoted key ++ style.colon ++ writeAt style depth value ++ "," ++
      writeMembers style depth rest

end

/-- A document without blanks. -/
def compact (j : Json) : String := writeAt .compact 0 j

/-- A document with one item or member a line. -/
def pretty (j : Json) : String := writeAt .pretty 0 j

end SqlTree.Json
