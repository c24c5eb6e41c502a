import SqlTree.Value.Codec

/-!
# Compiled statements
-/

namespace SqlTree

/-- The text of a statement and the values of its placeholders, in order. -/
structure Compiled where
  /-- The text. -/
  sql : String
  /-- The values. -/
  arguments : List Value
  deriving Inhabited

/-- The document of a compiled statement. -/
def Compiled.toJson (c : Compiled) : Json :=
  .object [("sql", .string c.sql), ("args", .array (Value.toJsonItems c.arguments))]

end SqlTree
