import SqlTree.Draft
import SqlTree.Expression.Builder

/-!
# Procedure calls

A backend that cannot bind output parameters gets a script: it sets a session variable for each
parameter that goes both ways, calls the procedure with variables in the output places, and selects
the variables.  A native call is one statement with `NULL` in the output places, or a selection from
the function when there is a result.
-/

namespace SqlTree

open Draft (empty step text blank lineBreak argument concat joined commaSeparated parenthesized
  ensure)

namespace Procedure

/-- The placeholder of a parameter's value; a parameter without a name lends none. -/
def bound (p : Parameter) : Draft :=
  argument (if p.name.isEmpty then none else some p.name) p.value

/-- The session variable of a parameter, which has to have a name. -/
def sessionVariable (call : Procedure) (p : Parameter) : Draft :=
  let name := Text.trimmed p.name
  if name.isEmpty then .fault (.invalidArgument (.unnamedVariable p.direction call.name))
  else text ("@" ++ name)

/-- Sets the variable of a parameter that goes both ways. -/
def seed (d : Dialect) (call : Procedure) (p : Parameter) : Draft :=
  text "SET " ++ call.sessionVariable p ++ text " = " ++ bound p ++
    step (.terminate d.terminator) ++ lineBreak

/-- The script that passes values back through session variables. -/
def session (d : Dialect) (call : Procedure) : Draft :=
  let seeds := call.parameters.filter fun p => p.direction == .inout
  let slots := call.parameters.filter fun p => p.direction != .result
  let outputs := call.parameters.filter fun p => p.direction != .input
  concat (seeds.map (call.seed d)) ++
    (match call.results.head? with
      | some result => text "SET " ++ call.sessionVariable result ++ text " = " ++ text call.name
      | none => text "CALL " ++ text call.name) ++
    parenthesized (commaSeparated (slots.map fun p =>
      if p.direction.isOut then call.sessionVariable p else bound p)) ++
    step (.terminate d.terminator) ++
    if outputs.isEmpty then empty
    else
      lineBreak ++ text "SELECT" ++ blank ++
        joined (text ", ") (outputs.map call.sessionVariable) ++ step (.terminate d.terminator)

/-- The call as one statement of the backend.  A function that returns a result takes no output
parameters. -/
def native (d : Dialect) (call : Procedure) : Draft :=
  let returns := !call.results.isEmpty
  let slots := call.parameters.filter fun p =>
    p.direction != .result && !(returns && p.direction == .output)
  text (if returns then "SELECT * FROM " else "CALL ") ++ text call.name ++
    parenthesized (commaSeparated (slots.map fun p =>
      if p.direction == .output then text "NULL" else bound p)) ++
    step (.terminate d.terminator)

/-- A procedure call in the style of a dialect. -/
def draft (d : Dialect) (call : Procedure) : Draft :=
  ensure (!Text.isAllBlank call.name) .unnamedProcedure ++
    ensure (call.results.length ≤ 1) (.severalResults call.name) ++
    match d.procedureStyle with
    | .sessionVariables => call.session d
    | .nativeCall => call.native d

end Procedure

/-- Compiles a procedure call. -/
def compileProcedure (d : Dialect) (layout : Layout) (call : Procedure) : Except Error Compiled :=
  (call.draft d).assemble d layout

end SqlTree
