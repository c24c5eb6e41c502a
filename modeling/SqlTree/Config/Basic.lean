import SqlTree.Config.Toml
import SqlTree.Writer

/-!
# Configuration

The dialect and the layout that are used when a command names none.
-/

namespace SqlTree

/-- The settings of a configuration file. -/
structure Config where
  /-- The key of the dialect. -/
  dialect : String := "ansi"
  /-- The layout. -/
  layout : Layout := .pretty
  deriving DecidableEq, Repr, Inhabited

namespace Config

/-- The configuration with one more setting; a setting has to be known.  A layout may be written as
a string or as the key of a table without content. -/
def apply (c : Config) (e : Toml.Entry) : Option Config :=
  match e.path, e.content with
  | ["dialect"], .text s => some { c with dialect := s }
  | ["layout"], .text s => (Layout.ofName? s).map fun layout => { c with layout := layout }
  | ["layout", name], .empty =>
    (Layout.ofName? name).map fun layout => { c with layout := layout }
  | _, _ => none

/-- The configuration of the text of a file, in which no setting is repeated. -/
def ofText? (text : String) : Option Config := do
  let entries ← Toml.entries? text
  if (entries.map (·.path.head?)).Nodup then entries.foldlM apply {} else none

end Config

end SqlTree
