import SqlTree.Dialect.BuiltIn
import SqlTree.Procedure
import SqlTree.Statement.Basic
import SqlTree.Template

/-!
# Compilers

A `Compiler` is a dialect together with a layout.  It compiles queries, statements that change a
table, templates and procedure calls, and refuses every other expression.
-/

namespace SqlTree

/-- A dialect and a layout. -/
structure Compiler where
  /-- The dialect. -/
  dialect : Dialect
  /-- The layout. -/
  layout : Layout := .pretty

/-- Compiles an expression. -/
def Compiler.compile (c : Compiler) (e : Expression) : Except Error Compiled :=
  match e with
  | .text t => compileTemplate c.dialect t
  | .procedure p => compileProcedure c.dialect c.layout p
  | e => compileStatement c.dialect c.layout e

end SqlTree
