import SqlTree.Proofs.Draft.Words
import SqlTree.Proofs.Procedure.Script

/-!
# The words of a procedure call

Layout aside, a call is a list of words and placeholders in either style (`Procedure.words`).  A
call that compiles is typeset from these words, and has the values of `Procedure.boundIn` as its
arguments (`Procedure.compiled_words`).  Whether it compiles depends on its name and the number of
its results, and where values pass through session variables on their names
(`Procedure.compiles_iff_callable`).
-/

namespace SqlTree

open Draft (empty step text blank lineBreak concat joined commaSeparated parenthesized ensure
  gives_text gives_step gives_blank gives_lineBreak gives_empty gives_argument gives_concat
  gives_joined gives_commaSeparated forall₂_gives sound_append sound_joined sound_text)

namespace Procedure

/-! ### Slots -/

/-- The session variable of a parameter. -/
def variableWord (p : Parameter) : Piece := .word ("@" ++ Text.trimmed p.name)

/-- The name that a parameter lends its placeholder; one without a name lends none. -/
def lentName (p : Parameter) : Option String := if p.name.isEmpty then none else some p.name

/-- The placeholder of a parameter. -/
def valueWord (p : Parameter) : Piece := .argument (lentName p) p.value

/-- Whether a call of a style has a slot for a direction. -/
def hasSlot (call : Procedure) : ProcedureStyle → Direction → Bool
  | .sessionVariables, x => x != .result
  | .nativeCall, x => call.hasNativeSlot x

/-- The parameters that have a slot in a call of a style, in the order of their declaration. -/
def slotted (call : Procedure) (style : ProcedureStyle) : List Parameter :=
  call.withDirection (call.hasSlot style)

/-- What stands in the slot of a parameter. -/
def slotWord : ProcedureStyle → Parameter → Piece
  | .sessionVariables, p => if p.direction.isOut then variableWord p else valueWord p
  | .nativeCall, p => if p.direction == .output then .word "NULL" else valueWord p

/-- Whether a call of a style has a placeholder in the slot of a direction. -/
def passes : ProcedureStyle → Direction → Bool
  | .sessionVariables, x => x == .input
  | .nativeCall, x => x == .input || x == .inout

/-- The parameters with a value that goes into the call, in the order of their declaration. -/
def inputs (call : Procedure) : List Parameter :=
  call.withDirection fun x => x == .input || x == .inout

/-- The parameters that have a placeholder in a call of a style, in the order of the placeholders.
Session variables are set before the call. -/
def boundIn (call : Procedure) : ProcedureStyle → List Parameter
  | .sessionVariables => call.withDirection (· == .inout) ++ call.withDirection (· == .input)
  | .nativeCall => call.inputs

/-- The parameters that have a session variable, in the order of their declaration.  A script sets
the variables of those that also have a value and of the result, passes all but that of the result,
and selects all of them. -/
def outputs (call : Procedure) : List Parameter := call.withDirection (· != .input)

/-! ### Statements -/

/-- What stands in front of the name of a procedure. -/
def openingWords (call : Procedure) : ProcedureStyle → List Piece
  | .sessionVariables =>
    match call.results.head? with
    | some result => [.word "SET ", variableWord result, .word " = "]
    | none => [.word "CALL "]
  | .nativeCall => [.word (if !call.results.isEmpty then "SELECT * FROM " else "CALL ")]

/-- A call of a style, with its slots between commas. -/
def callWords (d : Dialect) (call : Procedure) (style : ProcedureStyle) : List Piece :=
  call.openingWords style ++ [.word call.name] ++
    ([.word "("] ++
      [.word ","].intercalate ((call.slotted style).map fun p => [slotWord style p]) ++
      [.word ")"]) ++ [.word d.terminator]

/-- Sets the variable of a parameter to its value. -/
def seedWords (d : Dialect) (p : Parameter) : List Piece :=
  [.word "SET ", variableWord p, .word " = ", valueWord p, .word d.terminator]

/-- Selects the variables of parameters, if there are any. -/
def selectWords (d : Dialect) (outputs : List Parameter) : List Piece :=
  if outputs.isEmpty then []
  else
    [.word "SELECT"] ++ [.word ", "].intercalate (outputs.map fun p => [variableWord p]) ++
      [.word d.terminator]

/-- A call with the statements around it. -/
def words (d : Dialect) (call : Procedure) : ProcedureStyle → List Piece
  | .sessionVariables =>
    (call.withDirection (· == .inout)).flatMap (seedWords d) ++
      call.callWords d .sessionVariables ++ selectWords d call.outputs
  | .nativeCall => call.callWords d .nativeCall

variable {d : Dialect} {layout : Layout} {call : Procedure} {p : Parameter}

/-! ### Bound parameters -/

/-- Directions that are told apart in the same way select the same parameters. -/
theorem withDirection_congr {x y : Direction → Bool}
    (h : ∀ p ∈ call.parameters, x p.direction = y p.direction) :
    call.withDirection x = call.withDirection y :=
  List.filter_congr h

theorem filter_inputs (call : Procedure) (x : Direction → Bool) :
    call.inputs.filter (fun p => x p.direction) =
      call.withDirection fun y => x y && (y == .input || y == .inout) :=
  List.filter_filter

/-- A script binds the values of a native call, and those that its seeds set come first. -/
theorem boundIn_session (call : Procedure) :
    call.boundIn .sessionVariables =
      call.inputs.filter (·.direction == .inout) ++ call.inputs.filter (·.direction != .inout) := by
  rw [call.filter_inputs (· == .inout), call.filter_inputs (· != .inout), boundIn]
  congr 1
  · exact withDirection_congr fun p _ => by cases p.direction <;> rfl
  · exact withDirection_congr fun p _ => by cases p.direction <;> rfl

/-- Every style binds the same parameters. -/
theorem perm_boundIn (call : Procedure) (style : ProcedureStyle) :
    (call.boundIn style).Perm call.inputs := by
  cases style with
  | nativeCall => exact List.Perm.refl _
  | sessionVariables =>
    rw [boundIn_session]
    exact List.filter_append_perm _ _

/-! ### What a parameter gives -/

theorem sessionVariable_eq (call : Procedure) (p : Parameter) :
    call.sessionVariable p =
      if Text.isAllBlank p.name then
        .fault (.invalidArgument (.unnamedVariable p.direction call.name))
      else text ("@" ++ Text.trimmed p.name) := by
  rw [← Text.isEmpty_trimmed]
  rfl

theorem gives_sessionVariable (call : Procedure) (hp : Text.isAllBlank p.name = false) :
    (call.sessionVariable p).Gives [variableWord p] := by
  rw [sessionVariable_eq, hp, if_neg Bool.false_ne_true]
  exact gives_text _

theorem sound_sessionVariable (call : Procedure) (p : Parameter) :
    (call.sessionVariable p).Sound ↔ Text.isAllBlank p.name = false := by
  rw [sessionVariable_eq]
  cases Text.isAllBlank p.name with
  | true => exact ⟨False.elim, fun h => absurd h (by decide)⟩
  | false => exact ⟨fun _ => rfl, fun _ => trivial⟩

theorem gives_bound (p : Parameter) : (bound p).Gives [valueWord p] := gives_argument _ _

theorem gives_seed (d : Dialect) (call : Procedure) (hp : Text.isAllBlank p.name = false) :
    (call.seed d p).Gives (seedWords d p) := by
  have hset := ((gives_text "SET ").append (gives_sessionVariable call hp)).append
    (gives_text " = ")
  exact ((hset.append (gives_bound p)).append (gives_step (.terminate d.terminator))).append
    gives_lineBreak

/-- What goes out of a call that has all it needs has a name. -/
theorem Callable.isAllBlank_name (h : call.Callable) {x : Direction → Bool}
    (hx : x .input = false) : ∀ p ∈ call.withDirection x, Text.isAllBlank p.name = false := by
  intro p hp
  obtain ⟨hmem, hdirection⟩ := List.mem_filter.mp hp
  refine h.named p hmem fun hinput => ?_
  rw [hinput, hx] at hdirection
  cases hdirection

/-- A slot is a single word, for whatever is passed through a variable has a name. -/
theorem gives_slot (h : call.Callable) (hp : p ∈ call.parameters) :
    (call.slot p).Gives [slotWord .sessionVariables p] := by
  unfold slot slotWord
  dsimp only
  by_cases hout : p.direction.isOut = true
  · rw [if_pos hout, if_pos hout]
    exact gives_sessionVariable call
      (h.isAllBlank_name (x := Direction.isOut) rfl p (List.mem_filter.mpr ⟨hp, hout⟩))
  · rw [if_neg hout, if_neg hout]
    exact gives_bound p

theorem gives_nativeSlot (p : Parameter) : (nativeSlot p).Gives [slotWord .nativeCall p] := by
  unfold nativeSlot slotWord
  dsimp only
  by_cases houtput : (p.direction == .output) = true
  · rw [if_pos houtput, if_pos houtput]
    exact gives_text "NULL"
  · rw [if_neg houtput, if_neg houtput]
    exact gives_bound p

/-! ### What a call gives -/

theorem gives_opening (h : call.Callable) :
    call.opening.Gives (call.openingWords .sessionVariables ++ [.word call.name]) := by
  unfold opening openingWords
  cases hresult : call.results.head? with
  | none => exact (gives_text "CALL ").append (gives_text call.name)
  | some result =>
    have hname : Text.isAllBlank result.name = false :=
      h.isAllBlank_name (x := (· == .result)) rfl result (List.mem_of_head? hresult)
    have hset := ((gives_text "SET ").append (gives_sessionVariable call hname)).append
      (gives_text " = ")
    exact hset.append (gives_text call.name)

theorem gives_readBack (d : Dialect) (call : Procedure) {outputs : List Parameter}
    (h : ∀ p ∈ outputs, Text.isAllBlank p.name = false) :
    (call.readBack d outputs).Gives (selectWords d outputs) := by
  unfold readBack selectWords
  by_cases hempty : outputs.isEmpty = true
  · rw [if_pos hempty, if_pos hempty]
    exact gives_empty
  · rw [if_neg hempty, if_neg hempty]
    have hselect := (gives_lineBreak.append (gives_text "SELECT")).append gives_blank
    have hvariables := gives_joined (gives_text ", ")
      (forall₂_gives fun p hp => gives_sessionVariable call (h p hp))
    exact (hselect.append hvariables).append (gives_step (.terminate d.terminator))

/-- The words of a call through session variables. -/
theorem gives_session (d : Dialect) (h : call.Callable) :
    (call.session d).Gives (call.words d .sessionVariables) := by
  have hseeds := gives_concat (forall₂_gives fun p hp =>
    gives_seed d call (h.isAllBlank_name (x := (· == .inout)) rfl p hp))
  have hslots : (parenthesized (commaSeparated
      ((call.slotted .sessionVariables).map call.slot))).Gives _ :=
    (gives_commaSeparated
      (forall₂_gives fun p hp => gives_slot h (List.mem_filter.mp hp).1)).parenthesized
  have hcall := ((gives_opening h).append hslots).append (gives_step (.terminate d.terminator))
  have hselect := gives_readBack d call (h.isAllBlank_name (x := (· != .input)) rfl)
  have hwhole := (hseeds.append hcall).append hselect
  rw [session_eq]
  simp only [Draft.append_assoc] at hwhole ⊢
  exact hwhole

/-- The words of a call by the routine's own syntax, which needs no names. -/
theorem gives_native (d : Dialect) (call : Procedure) :
    (call.native d).Gives (call.words d .nativeCall) := by
  have hslots : (parenthesized (commaSeparated
      ((call.slotted .nativeCall).map nativeSlot))).Gives _ :=
    (gives_commaSeparated (forall₂_gives fun p _ => gives_nativeSlot p)).parenthesized
  rw [native_eq]
  exact (((gives_text _).append (gives_text call.name)).append hslots).append
    (gives_step (.terminate d.terminator))

/-! ### Placeholders -/

/-- What the placeholder of a parameter carries. -/
def lent (p : Parameter) : Option String × Value := (lentName p, p.value)

/-- Two walks over the parameters collect the same if every parameter adds the same to both. -/
theorem filterMap_withDirection {α : Type} {x y : Direction → Bool} {f : Parameter → Option α}
    {g : Parameter → α}
    (h : ∀ p, (if x p.direction then f p else none) = if y p.direction then some (g p) else none) :
    (call.withDirection x).filterMap f = (call.withDirection y).map g := by
  unfold withDirection
  rw [List.filterMap_filter, funext h, ← List.filterMap_eq_map, List.filterMap_filter]
  rfl

theorem argument?_seedWords (d : Dialect) (l : List Parameter) :
    (l.flatMap (seedWords d)).filterMap Piece.argument? = l.map lent := by
  induction l with
  | nil => rfl
  | cons p rest ih => exact congrArg (lent p :: ·) ih

theorem argument?_selectWords (d : Dialect) (l : List Parameter) :
    (selectWords d l).filterMap Piece.argument? = [] := by
  have hvariables : l.filterMap (fun p => Piece.argument? (variableWord p)) = [] :=
    List.filterMap_eq_nil_iff.mpr fun _ _ => rfl
  unfold selectWords
  split
  · rfl
  · rw [List.filterMap_append, List.filterMap_append, Piece.filterMap_argument?_intercalate,
      hvariables]
    rfl

/-- Of the slots those lend a value that the style passes as one. -/
theorem argument?_slotted (call : Procedure) (style : ProcedureStyle) :
    ((call.slotted style).filterMap fun p => Piece.argument? (slotWord style p)) =
      (call.withDirection (passes style)).map lent := by
  refine filterMap_withDirection fun p => ?_
  obtain ⟨name, direction, value⟩ := p
  cases style with
  | sessionVariables => cases direction <;> rfl
  | nativeCall =>
    unfold hasSlot hasNativeSlot
    cases call.results.isEmpty <;> cases direction <;> rfl

theorem argument?_callWords (d : Dialect) (call : Procedure) (style : ProcedureStyle) :
    (call.callWords d style).filterMap Piece.argument? =
      (call.withDirection (passes style)).map lent := by
  have hopening : (call.openingWords style).filterMap Piece.argument? = [] := by
    cases style with
    | nativeCall => rfl
    | sessionVariables =>
      unfold openingWords
      cases call.results.head? <;> rfl
  have hword (s : String) : [Piece.word s].filterMap Piece.argument? = [] := rfl
  simp only [callWords, List.filterMap_append, Piece.filterMap_argument?_intercalate, hopening,
    hword, argument?_slotted, List.nil_append, List.append_nil]

/-- The placeholders of a call are those of its bound parameters. -/
theorem argument?_words (d : Dialect) (call : Procedure) (style : ProcedureStyle) :
    (call.words d style).filterMap Piece.argument? = (call.boundIn style).map lent := by
  cases style with
  | nativeCall => exact argument?_callWords d call .nativeCall
  | sessionVariables =>
    rw [words, List.filterMap_append, List.filterMap_append, argument?_seedWords,
      argument?_callWords, argument?_selectWords, List.append_nil, boundIn, List.map_append]
    rfl

/-! ### Calls that compile -/

/-- A call in a style. -/
def styled (d : Dialect) (call : Procedure) : ProcedureStyle → Draft
  | .sessionVariables => call.session d
  | .nativeCall => call.native d

theorem compile_unnamed (h : Text.isAllBlank call.name = true) (d : Dialect) (layout : Layout) :
    compileProcedure d layout call = .error (.invalidArgument .unnamedProcedure) := by
  unfold compileProcedure draft
  rw [h]
  rfl

theorem compile_severalResults (h : Text.isAllBlank call.name = false)
    (hresults : 1 < call.results.length) (d : Dialect) (layout : Layout) :
    compileProcedure d layout call = .error (.invalidArgument (.severalResults call.name)) := by
  unfold compileProcedure draft
  rw [h, decide_eq_false (Nat.not_le.mpr hresults)]
  rfl

theorem compile_eq (h : Text.isAllBlank call.name = false) (hresults : call.results.length ≤ 1)
    (d : Dialect) (layout : Layout) :
    compileProcedure d layout call = (call.styled d d.procedureStyle).assemble d layout := by
  unfold compileProcedure draft
  rw [h, decide_eq_true hresults]
  cases d.procedureStyle <;> exact congrArg (Draft.assemble d layout) (Draft.empty_append _)

/-- A script without a fault has a name for every variable that it selects. -/
theorem names_of_sound_session (h : (call.session d).Sound) :
    ∀ p ∈ call.parameters, p.direction ≠ .input → Text.isAllBlank p.name = false := by
  intro p hp hdirection
  have houtput : p ∈ call.withDirection (· != .input) :=
    List.mem_filter.mpr ⟨hp, bne_iff_ne.mpr hdirection⟩
  rw [session_eq] at h
  -- Whatever needs a variable is read back at the end, so the names can be seen there.
  have hreadBack := (sound_append.mp h).2
  unfold readBack at hreadBack
  rw [if_neg (mt List.isEmpty_iff.mp (List.ne_nil_of_mem houtput))] at hreadBack
  have hvariables := (sound_append.mp (sound_append.mp hreadBack).1).2
  simp only [sound_joined (sound_text ", "), List.forall_mem_map, sound_sessionVariable]
    at hvariables
  exact hvariables p houtput

/-- A call that compiles has a name and at most one result. -/
theorem of_compile_eq_ok {r : Compiled} (h : compileProcedure d layout call = .ok r) :
    Text.isAllBlank call.name = false ∧ call.results.length ≤ 1 := by
  cases hname : Text.isAllBlank call.name with
  | true =>
    rw [compile_unnamed hname] at h
    cases h
  | false =>
    refine ⟨rfl, Nat.not_lt.mp fun hresults => ?_⟩
    rw [compile_severalResults hname hresults] at h
    cases h

/-- A script compiles if the call has all that it needs, and only then. -/
theorem compiles_iff_callable (hd : d.procedureStyle = .sessionVariables) (layout : Layout) :
    (∃ r, compileProcedure d layout call = .ok r) ↔ call.Callable := by
  -- A call that compiles has passed its checks; one that can be made gives words.
  constructor
  · rintro ⟨r, h⟩
    obtain ⟨hname, hresults⟩ := of_compile_eq_ok h
    rw [compile_eq hname hresults, hd] at h
    obtain ⟨b, hb, -⟩ := Draft.assemble_eq_ok h
    refine ⟨hname, hresults, names_of_sound_session (d := d) ?_⟩
    rw [← Draft.isOk_addTo _ d (Assembly.start layout)]
    exact congrArg Except.isOk hb
  · intro h
    obtain ⟨r, hr, -⟩ := (gives_session d h).assemble d layout
    exact ⟨r, by rw [compile_eq h.name h.results, hd]; exact hr⟩

theorem gives_styled (d : Dialect) (call : Procedure) {style : ProcedureStyle}
    (h : style = .sessionVariables → call.Callable) :
    (call.styled d style).Gives (call.words d style) := by
  cases style with
  | sessionVariables => exact gives_session d (h rfl)
  | nativeCall => exact gives_native d call

/-- A call that compiles is typeset from its words and binds the values of its bound parameters. -/
theorem compiled_words {r : Compiled} (h : compileProcedure d layout call = .ok r) :
    Text.Typeset (d.texts 0 (call.words d d.procedureStyle)) r.sql.toList ∧
      r.arguments = (call.boundIn d.procedureStyle).map (·.value) := by
  obtain ⟨hname, hresults⟩ := of_compile_eq_ok h
  have hgives := gives_styled d call fun hd => (compiles_iff_callable hd layout).mp ⟨r, h⟩
  obtain ⟨r', hr', htext, harguments⟩ := hgives.assemble d layout
  rw [compile_eq hname hresults, hr'] at h
  obtain rfl := Except.ok.inj h
  refine ⟨htext, ?_⟩
  rw [harguments, Piece.filterMap_value?, argument?_words, List.map_map]
  rfl

end Procedure

end SqlTree
