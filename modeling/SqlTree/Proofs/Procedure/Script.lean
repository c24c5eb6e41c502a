import SqlTree.Dialect.BuiltIn
import SqlTree.Proofs.Placeholder.Filled
import SqlTree.Proofs.Procedure.Parts
import SqlTree.Proofs.Text.Trim

/-!
# The script of a procedure call

Main statement, `compileProcedure_script`: where values pass through session variables, a call
compiles to the script `Procedure.script`, a list of statements of which every one has a slot for
each parameter that it is about.

The parameters are walked once for each kind of statement, so what is proved is one lemma for what a
parameter adds (`prints_sessionVariable`, `prints_bound`), one for a walk (`prints_concat`,
`prints_joined`), and one for each statement.  A blank character at the end of a text would be
dropped by what comes next; a variable is trimmed and a token has none, so every statement keeps
all that was written.
-/

namespace SqlTree

open Draft (step text blank lineBreak concat joined commaSeparated parenthesized prints_empty
  prints_text prints_argument prints_parenthesis prints_closing prints_comma prints_lineBreak
  prints_terminate prints_concat prints_joined)

/-- A dialect whose calls are scripts, with placeholders that carry no names. -/
structure Dialect.Scripts (d : Dialect) : Prop where
  /-- Values pass through session variables. -/
  style : d.procedureStyle = .sessionVariables
  /-- Placeholders are tokens alone or with numbers. -/
  mode : d.mode ≠ .named
  /-- Placeholders can be seen. -/
  token : d.token ≠ ""
  /-- The token and the terminator have no blank character and no parenthesis. -/
  plain : ∀ c ∈ d.token.toList ++ d.terminator.toList,
    Text.isBlank c = false ∧ c ≠ '(' ∧ c ≠ ')'

namespace Procedure

/-- A call that has all that its script needs. -/
structure Callable (call : Procedure) : Prop where
  /-- It has a name. -/
  name : Text.isAllBlank call.name = false
  /-- At most one parameter takes the result. -/
  results : call.results.length ≤ 1
  /-- What goes out of the call has the name of a variable to go to. -/
  named : ∀ p ∈ call.parameters, p.direction ≠ .input → Text.isAllBlank p.name = false

/-! ### The statements of a script -/

/-- The session variable of a parameter. -/
def variableOf (p : Parameter) : Fragment := .literal ("@" ++ Text.trimmed p.name)

/-- A placeholder for the value of a parameter. -/
def valueOf (p : Parameter) : Fragment := .value p.name p.value

/-- Sets the variable of a parameter to its value. -/
def seedStatement (p : Parameter) : List Fragment :=
  [.literal "SET ", variableOf p, .literal " = ", valueOf p]

/-- What a call passes for a parameter that is not its result. -/
def slotOf (p : Parameter) : Fragment :=
  match p.direction with
  | .input => valueOf p
  | .output | .inout | .result => variableOf p

/-- Calls the procedure; the result is the new value of its variable. -/
def callStatement (call : Procedure) : List Fragment :=
  (match call.results.head? with
    | some result => [.literal "SET ", variableOf result, .literal " = "]
    | none => [.literal "CALL "]) ++
    [.literal call.name, .literal "("] ++
    ((call.withDirection (· != .result)).map slotOf).intersperse (.literal ", ") ++
    [.literal ")"]

/-- Selects the variables of parameters. -/
def selectStatement (outputs : List Parameter) : List Fragment :=
  [.literal "SELECT "] ++ (outputs.map variableOf).intersperse (.literal ", ")

/-- The statements of a script: seeds, the call, and a selection if there is something to select. -/
def statements (call : Procedure) : List (List Fragment) :=
  let outputs := call.withDirection (· != .input)
  (call.withDirection (· == .inout)).map seedStatement ++
    call.callStatement :: if outputs.isEmpty then [] else [selectStatement outputs]

/-- A statement with its terminator. -/
def terminated (d : Dialect) (statement : List Fragment) : List Fragment :=
  statement ++ [.literal d.terminator]

/-- What stands between two statements. -/
def lineEnd (layout : Layout) : Fragment := .literal (String.singleton layout.separator)

/-- The script of a call: its statements with terminators, on lines of their own. -/
def script (d : Dialect) (layout : Layout) (call : Procedure) : List Fragment :=
  [lineEnd layout].intercalate (call.statements.map (terminated d))

/-! ### The lines of a script -/

variable {d : Dialect} {layout : Layout} {call : Procedure} {P : Writer → Prop}

/-- A statement in front of others is followed by a separator. -/
theorem intercalate_append_cons {α : Type} (separator : List α) (front : List (List α))
    (s : List α) (rest : List (List α)) :
    separator.intercalate (front ++ s :: rest) =
      front.flatMap (· ++ separator) ++ separator.intercalate (s :: rest) := by
  induction front with
  | nil => rfl
  | cons x front ih =>
    have hne : front ++ s :: rest ≠ [] :=
      List.append_ne_nil_of_right_ne_nil front (List.cons_ne_nil s rest)
    rw [List.cons_append, List.intercalate_cons_of_ne_nil hne, ih, List.flatMap_cons]
    simp only [List.append_assoc]

/-- The last line of a script, if there is something to select. -/
def selection (d : Dialect) (layout : Layout) (outputs : List Parameter) : List Fragment :=
  if outputs.isEmpty then [] else [lineEnd layout] ++ terminated d (selectStatement outputs)

/-- The script with the call apart from the seeds in front and the selection behind. -/
theorem script_eq :
    call.script d layout =
      (call.withDirection (· == .inout)).flatMap
        (fun p => terminated d (seedStatement p) ++ [lineEnd layout]) ++
      (terminated d call.callStatement ++
        selection d layout (call.withDirection (· != .input))) := by
  rw [script, statements, List.map_append, List.map_cons, intercalate_append_cons,
    List.flatMap_map, List.flatMap_map, selection]
  congr 1
  by_cases houtputs : (call.withDirection (· != .input)).isEmpty = true
  · simp only [houtputs, if_true, List.map_nil, List.intercalate_singleton, List.append_nil]
  · simp only [houtputs, if_false, List.map_cons, List.map_nil, List.intercalate_cons_cons,
      List.intercalate_singleton, List.append_assoc, Bool.false_eq_true]

/-! ### What a parameter adds -/

/-- A variable is an at sign and the trimmed name, which is not empty. -/
theorem prints_sessionVariable {p : Parameter} (hp : Text.isAllBlank p.name = false) :
    (call.sessionVariable p).Prints d layout P Writer.Unpadded [variableOf p] := by
  have hname : Text.trimmed p.name ≠ "" := Text.trimmed_ne_empty hp
  have hempty : ¬ (Text.trimmed p.name).isEmpty = true := by rwa [String.isEmpty_iff]
  unfold sessionVariable
  dsimp only
  rw [if_neg hempty]
  refine prints_text fun w _ => Writer.unpadded_write ?_ fun c hc => ?_
  · exact fun h => hname (String.append_eq_empty_iff.mp h).2
  -- The name is trimmed, so the variable ends in no blank.
  · have hlast : (Text.trimmed p.name).toList.getLast? = some c := by
      have hne : (Text.trimmed p.name).toList ≠ [] := mt String.toList_eq_nil_iff.mp hname
      rw [String.toList_append, List.getLast?_append, List.getLast?_eq_some_getLast hne,
        Option.some_or, ← List.getLast?_eq_some_getLast hne] at hc
      exact hc
    rw [Text.trimmed, String.toList_ofList] at hlast
    exact Text.getLast?_trimEnd hlast

/-- A placeholder is solid where it carries no name. -/
theorem endsSolid_mark (hd : d.Scripts) (number : Nat) (name : String) :
    EndsSolid (d.mark number name).toList := by
  have htoken : EndsSolid d.token.toList := by
    refine endsSolid_of_forall (mt String.toList_eq_nil_iff.mp hd.token) fun c hc => ?_
    obtain ⟨hblank, hopen, -⟩ := hd.plain c (List.mem_append_left _ hc)
    exact ⟨hblank, hopen⟩
  unfold Dialect.mark
  cases hmode : d.mode with
  | positional => exact htoken
  | indexed => exact endsSolid_numeral d.token number
  | named => exact absurd hmode hd.mode

theorem prints_bound (hd : d.Scripts) (p : Parameter) :
    (bound p).Prints d layout P Writer.Solid [valueOf p] :=
  prints_argument (fun hmode => absurd hmode hd.mode) p.value
    fun _ number _ => Writer.solid_write (endsSolid_mark hd number p.name)

/-- Behind what is solid the terminator of a statement is solid. -/
theorem prints_terminator (hd : d.Scripts) :
    (step (.terminate d.terminator)).Prints d layout Writer.Solid Writer.Solid
      [.literal d.terminator] := by
  refine prints_terminate (fun _ hw => hw.unpadded) fun _ hw => hw.terminate fun c hc => ?_
  obtain ⟨hblank, hopen, -⟩ := hd.plain c (List.mem_append_right _ hc)
  exact ⟨hblank, hopen⟩

theorem prints_select :
    (text "SELECT" ++ blank).Prints d layout P (fun _ => True) [.literal "SELECT "] := by
  intro a f _ _ hholds
  have hsolid : (a.writer.write "SELECT").Solid :=
    Writer.solid_write ⟨'T', "CELES".toList, rfl, by decide, by decide⟩
  have htext : (a.writer.write "SELECT").blank.text = a.writer.text ++ "SELECT ".toList := by
    rw [hsolid.blank, Writer.text_push, Writer.text_write, List.append_assoc]
    rfl
  exact ⟨_, rfl, trivial, hholds.literal htext⟩

/-! ### Statements -/

theorem prints_seed (hd : d.Scripts) {p : Parameter} (hp : Text.isAllBlank p.name = false) :
    (call.seed d p).Prints d layout (fun _ => True) (fun _ => True)
      (terminated d (seedStatement p) ++ [lineEnd layout]) := by
  have hset : (text "SET ").Prints d layout (fun _ => True) (fun _ => True) [.literal "SET "] :=
    prints_text fun _ _ => trivial
  have hequals : (text " = ").Prints d layout Writer.Unpadded (fun _ => True) [.literal " = "] :=
    prints_text fun _ _ => trivial
  have hvariable : (call.sessionVariable p).Prints d layout (fun _ => True) Writer.Unpadded
      [variableOf p] := prints_sessionVariable hp
  have hvalue := ((hset.append hvariable).append hequals).append (prints_bound hd p)
  exact (hvalue.append (prints_terminator hd)).append prints_lineBreak

/-- An input is passed as its value, and the others as variables. -/
theorem prints_slot (hd : d.Scripts) (hcall : call.Callable) {p : Parameter}
    (hp : p ∈ call.withDirection (· != .result)) :
    (call.slot p).Prints d layout (fun _ => True) Writer.Unpadded [slotOf p] := by
  obtain ⟨hmem, hresult⟩ := List.mem_filter.mp hp
  have hvariable (hdirection : p.direction ≠ .input) :
      (call.sessionVariable p).Prints d layout (fun _ => True) Writer.Unpadded [variableOf p] :=
    prints_sessionVariable (hcall.named p hmem hdirection)
  unfold slot slotOf
  -- One case for each direction; results have no slot.
  cases hdirection : p.direction with
  | input =>
    rw [if_neg (by decide)]
    exact (prints_bound hd p).weaken (fun _ h => h) fun _ h => h.unpadded
  | output =>
    rw [if_pos (by decide)]
    exact hvariable (by rw [hdirection]; decide)
  | inout =>
    rw [if_pos (by decide)]
    exact hvariable (by rw [hdirection]; decide)
  | result =>
    rw [hdirection] at hresult
    exact absurd hresult (by decide)

theorem prints_opening (hcall : call.Callable) :
    call.opening.Prints d layout (fun _ => True) (fun _ => True)
      ((match call.results.head? with
        | some result => [.literal "SET ", variableOf result, .literal " = "]
        | none => [.literal "CALL "]) ++ [.literal call.name]) := by
  have htext (s : String) (P : Writer → Prop) :
      (text s).Prints d layout P (fun _ => True) [.literal s] := prints_text fun _ _ => trivial
  unfold opening
  -- A call has one result at most.
  cases hresult : call.results.head? with
  | none => exact (htext "CALL " _).append (htext call.name _)
  | some result =>
    obtain ⟨hmem, hdirection⟩ := List.mem_filter.mp (List.mem_of_head? hresult)
    have hname : Text.isAllBlank result.name = false := by
      refine hcall.named result hmem fun hinput => ?_
      rw [hinput] at hdirection
      exact absurd hdirection (by decide)
    exact (((htext "SET " _).append (prints_sessionVariable hname)).append (htext " = " _)).append
      (htext call.name _)

/-- The call with its slots in parentheses. -/
theorem prints_call (hd : d.Scripts) (hcall : call.Callable) :
    (call.opening ++
        parenthesized (commaSeparated ((call.withDirection (· != .result)).map call.slot))).Prints
      d layout (fun _ => True) Writer.Solid call.callStatement := by
  have hopen : (step .openParenthesis).Prints d layout (fun _ => True) Writer.Unpadded
      [.literal "("] := prints_parenthesis fun _ _ => Writer.unpadded_openParenthesis
  have hslots : (commaSeparated ((call.withDirection (· != .result)).map call.slot)).Prints d layout
      Writer.Unpadded Writer.Unpadded
      (((call.withDirection (· != .result)).map slotOf).intersperse (.literal ", ")) := by
    -- Without slots there is nothing between the parentheses.
    by_cases hnil : call.withDirection (· != .result) = []
    · rw [hnil]
      exact prints_empty
    · exact (prints_joined hnil prints_comma fun p hp => prints_slot hd hcall hp).weaken
        (fun _ _ => trivial) fun _ h => h
  have hparentheses := (hopen.append hslots).append prints_closing
  have hwhole := (prints_opening hcall).append hparentheses
  simpa only [callStatement, parenthesized, List.append_assoc, List.cons_append,
    List.nil_append] using hwhole

/-- The variables are selected in their order, or nothing is selected if there are none. -/
theorem prints_readBack (hcall : call.Callable) :
    (call.readBack d (call.withDirection (· != .input))).Prints d layout Writer.Solid
      (fun _ => True) (selection d layout (call.withDirection (· != .input))) := by
  have hvariable : ∀ p ∈ call.withDirection (· != .input),
      (call.sessionVariable p).Prints d layout (fun _ => True) Writer.Unpadded [variableOf p] := by
    intro p hp
    obtain ⟨hmem, hdirection⟩ := List.mem_filter.mp hp
    exact prints_sessionVariable (hcall.named p hmem (bne_iff_ne.mp hdirection))
  unfold readBack selection
  -- Nothing is selected unless something has been written.
  by_cases houtputs : (call.withDirection (· != .input)).isEmpty = true
  · rw [if_pos houtputs, if_pos houtputs]
    exact prints_empty.weaken (fun _ h => h) fun _ _ => trivial
  · rw [if_neg houtputs, if_neg houtputs]
    have hbetween : (text ", ").Prints d layout Writer.Unpadded (fun _ => True) [.literal ", "] :=
      prints_text fun _ _ => trivial
    have hvariables := prints_joined (mt List.isEmpty_iff.mpr houtputs) hbetween hvariable
    have hend : (step (.terminate d.terminator)).Prints d layout Writer.Unpadded (fun _ => True)
        [.literal d.terminator] := prints_terminate (fun _ h => h) fun _ _ => trivial
    have hselect := ((prints_select (P := fun _ => True)).append hvariables).append hend
    have hwhole := prints_lineBreak.append hselect
    rw [Draft.append_assoc, Draft.append_assoc, Draft.append_assoc]
    rwa [Draft.append_assoc, Draft.append_assoc] at hwhole

/-- The whole script, from any text that it is put behind. -/
theorem prints_session (hd : d.Scripts) (hcall : call.Callable) :
    (call.session d).Prints d layout (fun _ => True) (fun _ => True) (call.script d layout) := by
  have hseeds : (concat ((call.withDirection (· == .inout)).map (call.seed d))).Prints d layout
      (fun _ => True) (fun _ => True) ((call.withDirection (· == .inout)).flatMap
        fun p => terminated d (seedStatement p) ++ [lineEnd layout]) := by
    refine prints_concat fun p hp => prints_seed hd ?_
    obtain ⟨hmem, hdirection⟩ := List.mem_filter.mp hp
    refine hcall.named p hmem fun hinput => ?_
    rw [hinput] at hdirection
    exact absurd hdirection (by decide)
  have hwhole := hseeds.append
    (((prints_call hd hcall).append (prints_terminator hd)).append (prints_readBack hcall))
  rw [session_eq, script_eq]
  simp only [Draft.append_assoc] at hwhole ⊢
  exact hwhole

/-! ### Arguments -/

theorem boundValues_intersperse (s : String) (l : List Fragment) :
    boundValues (l.intersperse (.literal s)) = boundValues l := by
  induction l with
  | nil => rfl
  | cons x rest ih =>
    -- The separator stands in front of every item but the first.
    cases rest with
    | nil => rfl
    | cons y rest =>
      rw [List.intersperse_cons_cons]
      show boundValues ([x] ++ [.literal s] ++ (y :: rest).intersperse (.literal s)) =
        boundValues ([x] ++ y :: rest)
      rw [boundValues_append, boundValues_append, boundValues_append, ih]
      exact congrArg (· ++ boundValues (y :: rest)) (List.append_nil _)

theorem boundValues_variables (l : List Parameter) : boundValues (l.map variableOf) = [] := by
  induction l with
  | nil => rfl
  | cons p rest ih => exact ih

theorem boundValues_slots (l : List Parameter) :
    boundValues ((l.filter (·.direction != .result)).map slotOf) =
      (l.filter (·.direction == .input)).map (·.value) := by
  induction l with
  | nil => rfl
  | cons p rest ih =>
    obtain ⟨name, direction, value⟩ := p
    cases direction with
    | input => exact congrArg (value :: ·) ih
    | output | inout | result => exact ih

/-- The call binds the values of its inputs in their order. -/
theorem boundValues_callStatement :
    boundValues call.callStatement = (call.withDirection (· == .input)).map (·.value) := by
  have hfront : boundValues
      (match call.results.head? with
        | some result => [.literal "SET ", variableOf result, .literal " = "]
        | none => [.literal "CALL "]) = [] := by
    cases call.results.head? <;> rfl
  have hslots : boundValues ((call.withDirection (· != .result)).map slotOf) =
      (call.withDirection (· == .input)).map (·.value) := boundValues_slots call.parameters
  rw [callStatement, boundValues_append, boundValues_append, boundValues_append, hfront,
    boundValues_intersperse, hslots]
  exact List.append_nil _

/-- The values of a script are those that its seeds set, and then those that its call passes. -/
theorem boundValues_script :
    boundValues (call.script d layout) =
      (call.withDirection (· == .inout) ++ call.withDirection (· == .input)).map (·.value) := by
  -- Each seed binds the value of its parameter.
  have hseeds (l : List Parameter) :
      boundValues (l.flatMap fun p => terminated d (seedStatement p) ++ [lineEnd layout]) =
        l.map (·.value) := by
    induction l with
    | nil => rfl
    | cons p rest ih => exact congrArg (p.value :: ·) ih
  have hselect (l : List Parameter) : boundValues (selectStatement l) = [] := by
    rw [selectStatement, boundValues_append, boundValues_intersperse, boundValues_variables]
    rfl
  have hselection (l : List Parameter) : boundValues (selection d layout l) = [] := by
    unfold selection
    split
    · rfl
    · rw [boundValues_append, terminated, boundValues_append, hselect]
      rfl
  have hterminator : boundValues [.literal d.terminator] = [] := rfl
  rw [script_eq, boundValues_append, boundValues_append, hseeds, terminated, boundValues_append,
    boundValues_callStatement, hterminator, hselection, List.append_nil, List.append_nil,
    List.map_append]

end Procedure

/-- **A script moves every parameter correctly.** A call that has all that its script needs compiles
to the script: it sets the variable of every parameter that goes both ways, calls the procedure with
a slot for every parameter but the result, and selects every variable if there is one.  The
arguments are the values of the parameters that go both ways, and then of those that go in. -/
theorem compileProcedure_script {d : Dialect} {call : Procedure} (hd : d.Scripts)
    (hcall : call.Callable) (layout : Layout) :
    compileProcedure d layout call =
        .ok ⟨String.ofList (filled d 1 (call.script d layout)),
          boundValues (call.script d layout)⟩ ∧
      boundValues (call.script d layout) =
        (call.withDirection (· == .inout) ++ call.withDirection (· == .input)).map (·.value) := by
  have hname : (!Text.isAllBlank call.name) = true := by
    rw [hcall.name]
    rfl
  have hdraft : call.draft d = call.session d := by
    rw [Procedure.draft, hd.style, hname, decide_eq_true hcall.results]
    exact Draft.empty_append _
  refine ⟨?_, Procedure.boundValues_script⟩
  rw [compileProcedure, hdraft]
  exact (Procedure.prints_session hd hcall).assemble

/-- Parameters of every direction, in a mixed order. -/
theorem compileProcedure_script_mixed :
    compileProcedure .mysql .compact {
        name := "bump"
        parameters := [
          { name := "step", value := .int 2 },
          { name := " counter ", direction := .inout, value := .int 1 },
          { name := "r", direction := .result },
          { name := "total", direction := .output },
          { name := "last", direction := .inout, value := .null }] } =
      .ok ⟨"SET @counter = ?; SET @last = ?; SET @r = bump(?, @counter, @total, @last); " ++
        "SELECT @counter, @r, @total, @last;", [.int 1, .null, .int 2]⟩ := by
  have hplain : ∀ c ∈ ['?', ';'], Text.isBlank c = false ∧ c ≠ '(' ∧ c ≠ ')' := by
    rw [List.forall_mem_cons, List.forall_mem_singleton]
    decide
  have hscripts : Dialect.mysql.Scripts := ⟨rfl, by decide, by decide, hplain⟩
  exact (compileProcedure_script hscripts ⟨by decide, by decide, by decide⟩ .compact).1

end SqlTree
