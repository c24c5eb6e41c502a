import SqlTree.Draft
import SqlTree.Expression.Basic

/-!
# Templates

A template is raw SQL in which `{name}` stands for a placeholder.  A name runs up to the next
closing brace and is trimmed; everything outside braces stands for itself.  Faults are reported from
the left, with the offset in bytes of the brace that opens the faulty placeholder.
-/

namespace SqlTree

open Draft (empty text argument)

/-- The character that opens a placeholder. -/
def openBrace : Char := '\x7b'

/-- The character that closes a placeholder. -/
def closeBrace : Char := '\x7d'

namespace Template

/-- The placeholder of a name that stands in braces. -/
def placeholder (parameters : Dictionary Parameter) (offset : Nat) (identifier : List Char) :
    Draft :=
  let name := String.ofList (Text.trim identifier)
  if name.isEmpty then .fault (.malformedTemplate offset .unnamed)
  else
    match parameters.find? name with
    | some parameter => argument (some name) parameter.value
    | none => .fault (.unknownParameter name)

/-- Scans a template.  Inside a placeholder `opened` holds the offset of its brace and the
characters of its name, the last one first. -/
def scan (parameters : Dictionary Parameter) :
    (offset : Nat) → (opened : Option (Nat × List Char)) → List Char → Draft
  | _, none, [] => empty
  | _, some (start, _), [] => .fault (.malformedTemplate start .neverClosed)
  | offset, none, c :: rest =>
    if c = openBrace then scan parameters (offset + c.utf8Size) (some (offset, [])) rest
    else text (String.singleton c) ++ scan parameters (offset + c.utf8Size) none rest
  | offset, some (start, name), c :: rest =>
    if c = closeBrace then
      placeholder parameters start name.reverse ++
        scan parameters (offset + c.utf8Size) none rest
    else scan parameters (offset + c.utf8Size) (some (start, c :: name)) rest

/-- A template with its placeholders resolved. -/
def draft (t : Template) : Draft :=
  if Text.isAllBlank t.sql then .fault (.invalidArgument .emptyTemplate)
  else scan t.parameters 0 none t.sql.toList

end Template

/-- Compiles a template; its layout is its own. -/
def compileTemplate (d : Dialect) (t : Template) : Except Error Compiled :=
  t.draft.assemble d .pretty

end SqlTree
