import SqlTree.Procedure

/-!
# The parts of a procedure call

The script of a call has a part for each of its statements, and every part one slot for each
parameter that it is about.  Both styles of call are written out from these parts (`session_eq`,
`native_eq`).
-/

namespace SqlTree.Procedure

open Draft (empty step text blank lineBreak concat joined commaSeparated parenthesized)

/-- The parameters of given directions, in the order of their declaration. -/
def withDirection (call : Procedure) (p : Direction → Bool) : List Parameter :=
  call.parameters.filter fun x => p x.direction

/-- The text in front of the slots of a script's call: the result goes to its variable. -/
def opening (call : Procedure) : Draft :=
  match call.results.head? with
  | some result => text "SET " ++ call.sessionVariable result ++ text " = " ++ text call.name
  | none => text "CALL " ++ text call.name

/-- The slot of a parameter in a script's call. -/
def slot (call : Procedure) (p : Parameter) : Draft :=
  if p.direction.isOut then call.sessionVariable p else bound p

/-- The statement that selects the session variables of some parameters. -/
def readBack (d : Dialect) (call : Procedure) (outputs : List Parameter) : Draft :=
  if outputs.isEmpty then empty
  else
    lineBreak ++ text "SELECT" ++ blank ++ joined (text ", ") (outputs.map call.sessionVariable) ++
      step (.terminate d.terminator)

/-- Whether a native call has a slot for a direction. -/
def hasNativeSlot (call : Procedure) (x : Direction) : Bool :=
  x != .result && !(!call.results.isEmpty && x == .output)

/-- The slot of a parameter in a native call. -/
def nativeSlot (p : Parameter) : Draft :=
  if p.direction == .output then text "NULL" else bound p

/-- The script of a call through session variables: seeds, the call itself, and what is read back.
-/
theorem session_eq (d : Dialect) (call : Procedure) :
    call.session d =
      concat ((call.withDirection (· == .inout)).map (call.seed d)) ++ call.opening ++
        parenthesized (commaSeparated ((call.withDirection (· != .result)).map call.slot)) ++
        step (.terminate d.terminator) ++ call.readBack d (call.withDirection (· != .input)) :=
  rfl

/-- The statement of a call by the routine's own syntax. -/
theorem native_eq (d : Dialect) (call : Procedure) :
    call.native d =
      text (if !call.results.isEmpty then "SELECT * FROM " else "CALL ") ++ text call.name ++
        parenthesized (commaSeparated ((call.withDirection call.hasNativeSlot).map nativeSlot)) ++
        step (.terminate d.terminator) :=
  rfl

end SqlTree.Procedure
