import SqlTree.Dialect.BuiltIn
import SqlTree.Proofs.Procedure.Words

/-!
# The two styles of a procedure call

Main statement, `compileProcedure_styles`: in two dialects that call procedures in different styles
and agree otherwise, a call has the same faults, up to the names of session variables, and binds the
same values, up to their order.  The slots of both calls are those of the same parameters unless
there is a result (`Procedure.StylesAgree`).

The script walks the parameters more often than the native call.  All walks keep the order of the
declaration, and so they differ only in the directions that they select; what is left to show about
them is a statement about one direction at a time.
-/

namespace SqlTree

/-- The dialect that calls procedures in a given style, and is the same otherwise. -/
def Dialect.calling (d : Dialect) (style : ProcedureStyle) : Dialect :=
  { d with procedureStyle := style }

namespace Procedure

/-- The fault of a call that no style accepts. -/
def fault? (call : Procedure) : Option ArgumentFault :=
  if Text.isAllBlank call.name then some .unnamedProcedure
  else if 1 < call.results.length then some (.severalResults call.name)
  else none

/-- The two styles of a call, in dialects that agree otherwise. -/
structure StylesAgree (d : Dialect) (layout : Layout) (call : Procedure) : Prop where
  /-- What one style rejects for its name or its results, the other rejects with the same fault. -/
  rejects : ∀ e, call.fault? = some e → ∀ style,
    compileProcedure (d.calling style) layout call = .error (.invalidArgument e)
  /-- A native call asks for nothing else. -/
  native_accepts : call.fault? = none →
    ∃ r, compileProcedure (d.calling .nativeCall) layout call = .ok r
  /-- A script asks for the names of its variables, and for nothing else. -/
  session_accepts : call.fault? = none →
    ((∃ r, compileProcedure (d.calling .sessionVariables) layout call = .ok r) ↔
      ∀ p ∈ call.parameters, p.direction ≠ .input → Text.isAllBlank p.name = false)
  /-- The arguments of a native call are in the order of the declaration. -/
  native_arguments : ∀ r, compileProcedure (d.calling .nativeCall) layout call = .ok r →
    r.arguments = call.inputs.map (·.value)
  /-- The arguments of a script are the same, with those that also go out of the call first. -/
  session_arguments : ∀ r, compileProcedure (d.calling .sessionVariables) layout call = .ok r →
    r.arguments = (call.inputs.filter (·.direction == .inout) ++
      call.inputs.filter (·.direction != .inout)).map (·.value)
  /-- Both texts have the words of their call, with the slots of their parameters. -/
  typeset : ∀ style r, compileProcedure (d.calling style) layout call = .ok r →
    Text.Typeset ((d.calling style).texts 0 (call.words (d.calling style) style)) r.sql.toList
  /-- The result has no slot in a native call. -/
  result_slot : ∀ p ∈ call.slotted .nativeCall, p.direction ≠ .result
  /-- Without a result, every parameter has a slot in both calls. -/
  slots : call.results = [] →
    call.slotted .nativeCall = call.parameters ∧ call.slotted .sessionVariables = call.parameters
  /-- With a result, the parameters that keep a slot are those with a value that goes in. -/
  result_slots : call.results ≠ [] → call.slotted .nativeCall = call.inputs
  /-- The slots that are null are those of the parameters that only go out. -/
  null_slot : ∀ p, slotWord .nativeCall p = .word "NULL" ↔ p.direction = .output

/-! ### Faults -/

variable {d : Dialect} {layout : Layout} {call : Procedure}

/-- A call that has a fault is rejected with it in every style. -/
theorem compile_fault {e : ArgumentFault} (h : call.fault? = some e) (d : Dialect)
    (layout : Layout) : compileProcedure d layout call = .error (.invalidArgument e) := by
  unfold fault? at h
  -- The name is checked before the results are counted.
  split at h
  · next hname =>
    obtain rfl := Option.some.inj h
    exact compile_unnamed hname d layout
  · next hname =>
    split at h
    · next hresults =>
      obtain rfl := Option.some.inj h
      exact compile_severalResults (Bool.eq_false_iff.mpr hname) hresults d layout
    · cases h

theorem fault?_eq_none :
    call.fault? = none ↔ Text.isAllBlank call.name = false ∧ call.results.length ≤ 1 := by
  unfold fault?
  cases Text.isAllBlank call.name with
  | true => simp
  | false => simp

/-- A call by a routine's own syntax needs no names. -/
theorem native_compiles (h : call.fault? = none) (hd : d.procedureStyle = .nativeCall)
    (layout : Layout) : ∃ r, compileProcedure d layout call = .ok r := by
  obtain ⟨hname, hresults⟩ := fault?_eq_none.mp h
  obtain ⟨r, hr, -⟩ := (gives_native d call).assemble d layout
  refine ⟨r, ?_⟩
  rw [compile_eq hname hresults, hd]
  exact hr

/-! ### Slots -/

theorem withDirection_eq_parameters {x : Direction → Bool}
    (h : ∀ p ∈ call.parameters, x p.direction = true) : call.withDirection x = call.parameters :=
  List.filter_eq_self.mpr h

theorem direction_ne_result (h : call.results = []) :
    ∀ p ∈ call.parameters, p.direction ≠ .result := by
  intro p hp hresult
  have hmem : p ∈ call.results := List.mem_filter.mpr ⟨hp, beq_iff_eq.mpr hresult⟩
  rw [h] at hmem
  exact absurd hmem List.not_mem_nil

theorem slotted_of_no_result (h : call.results = []) (style : ProcedureStyle) :
    call.slotted style = call.parameters := by
  refine withDirection_eq_parameters fun p hp => ?_
  have hne := bne_iff_ne.mpr (direction_ne_result h p hp)
  cases style with
  | sessionVariables => exact hne
  | nativeCall =>
    rw [hasSlot, hasNativeSlot, h, hne]
    rfl

/-- Of a function only those parameters have a slot that carry a value in. -/
theorem slotted_of_result (h : call.results ≠ []) : call.slotted .nativeCall = call.inputs := by
  refine withDirection_congr fun p _ => ?_
  have hempty : call.results.isEmpty = false := Bool.eq_false_iff.mpr (mt List.isEmpty_iff.mp h)
  rw [hasSlot, hasNativeSlot, hempty]
  cases p.direction <;> rfl

/-- A parameter that carries no value in has a slot without one. -/
theorem slotWord_eq_null (p : Parameter) :
    slotWord .nativeCall p = .word "NULL" ↔ p.direction = .output := by
  unfold slotWord
  dsimp only
  by_cases houtput : p.direction = .output
  · rw [if_pos (beq_iff_eq.mpr houtput)]
    exact ⟨fun _ => houtput, fun _ => rfl⟩
  · rw [if_neg (mt beq_iff_eq.mp houtput)]
    refine ⟨fun h => ?_, fun h => absurd h houtput⟩
    cases h

end Procedure

/-- **Both styles of a procedure call accept and bind the same.** Dialects that differ in the style
of their calls reject a call without a name or with several results with the same fault, and what
else a script rejects is a variable without a name.  Both bind the values that go into the call; a
script has those first that also go out of it.  Their slots are those of the same parameters if
there is no result, and in a native call with a result those of the values that it binds. -/
theorem compileProcedure_styles (d : Dialect) (layout : Layout) (call : Procedure) :
    call.StylesAgree d layout where
  rejects _ h _ := Procedure.compile_fault h _ layout
  native_accepts h := Procedure.native_compiles h rfl layout
  session_accepts h := by
    obtain ⟨hname, hresults⟩ := Procedure.fault?_eq_none.mp h
    rw [Procedure.compiles_iff_callable rfl layout]
    exact ⟨Procedure.Callable.named, fun hnamed => ⟨hname, hresults, hnamed⟩⟩
  native_arguments _ h := (Procedure.compiled_words h).2
  session_arguments _ h := by
    rw [← Procedure.boundIn_session]
    exact (Procedure.compiled_words h).2
  typeset _ _ h := (Procedure.compiled_words h).1
  result_slot p hp hresult := by
    have hslot := (List.mem_filter.mp hp).2
    rw [hresult] at hslot
    cases hslot
  slots h := ⟨Procedure.slotted_of_no_result h _, Procedure.slotted_of_no_result h _⟩
  result_slots := Procedure.slotted_of_result
  null_slot := Procedure.slotWord_eq_null

/-- A native call and a script of parameters of mixed directions: the values that also go out of the
script come first in it. -/
theorem compileProcedure_styles_mixed :
    let call : Procedure := {
      name := "bump"
      parameters := [
        { name := "step", value := .int 2 },
        { name := " counter ", direction := .inout, value := .int 1 },
        { name := "r", direction := .result },
        { name := "total", direction := .output },
        { name := "last", direction := .inout, value := .null }] }
    (∃ r, compileProcedure (Dialect.ansi.calling .nativeCall) .compact call = .ok r ∧
        r.arguments = [.int 2, .int 1, .null]) ∧
      ∃ r, compileProcedure (Dialect.ansi.calling .sessionVariables) .compact call = .ok r ∧
        r.arguments = [.int 1, .null, .int 2] := by
  intro call
  have hagree := compileProcedure_styles .ansi .compact call
  have hfault : call.fault? = none := by decide
  obtain ⟨r, hr⟩ := hagree.native_accepts hfault
  obtain ⟨r', hr'⟩ := (hagree.session_accepts hfault).mpr (by decide)
  exact ⟨⟨r, hr, hagree.native_arguments r hr⟩, ⟨r', hr', hagree.session_arguments r' hr'⟩⟩

end SqlTree
