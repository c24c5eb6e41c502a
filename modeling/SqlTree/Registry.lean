import SqlTree.Compiler

/-!
# Registries

Dialects and compilers under keys.  A key is trimmed when something is registered under it and taken
as it is when something is looked up; the first registration of a key stays.  A call that registers
something gives its answer together with what is registered after it, whether or not it succeeds.
-/

namespace SqlTree

/-- Whatever compiles expressions. -/
abbrev AnyCompiler := Expression → Except Error Compiled

/-- Dialects and compilers under keys. -/
structure Registry where
  /-- The dialects. -/
  dialects : Dictionary Dialect := .empty
  /-- The compilers. -/
  compilers : Dictionary AnyCompiler := .empty

namespace Registry

/-- Adds an entry under a trimmed key, which has to be neither blank nor taken. -/
def register {α : Type} (what : Registered) (entries : Dictionary α) (key : String) (item : α) :
    Except Error Unit × Dictionary α :=
  let key := Text.trimmed key
  if key.isEmpty then (.error (.configuration (.blankKey what)), entries)
  else if entries.contains key then (.error (.configuration (.takenKey what key)), entries)
  else (.ok (), entries.set key item)

/-- Registers a dialect. -/
def registerDialect (r : Registry) (key : String) (d : Dialect) : Except Error Unit × Registry :=
  let (answer, dialects) := register .dialect r.dialects key d
  (answer, { r with dialects := dialects })

/-- Registers a compiler. -/
def registerCompiler (r : Registry) (key : String) (c : AnyCompiler) :
    Except Error Unit × Registry :=
  let (answer, compilers) := register .compiler r.compilers key c
  (answer, { r with compilers := compilers })

/-- The built-in dialects and their compilers in a layout, each under its name. -/
def builtIn (layout : Layout) : Registry where
  dialects := .ofList (Dialect.builtIn.map fun d => (d.name, d))
  compilers := .ofList (Dialect.builtIn.map fun d => (d.name, Compiler.compile ⟨d, layout⟩))

/-- The dialect under a key. -/
def dialect (r : Registry) (key : String) : Except Error Dialect :=
  match r.dialects.find? key with
  | some d => .ok d
  | none => .error (.notFound .dialect key)

/-- The compiler under a key. -/
def compiler (r : Registry) (key : String) : Except Error AnyCompiler :=
  match r.compilers.find? key with
  | some c => .ok c
  | none => .error (.notFound .compiler key)

/-- Compiles an expression with the compiler under a key. -/
def compile (r : Registry) (key : String) (e : Expression) : Except Error Compiled := do
  (← r.compiler key) e

/-- The keys of the compilers, in increasing order. -/
def keys (r : Registry) : List String := r.compilers.keys

end Registry

end SqlTree
