import Mathlib.Data.List.Pairwise
import SqlTree.Proofs.Procedure.Words
import SqlTree.Proofs.Text.Solid

/-!
# The names of a procedure's placeholders

A placeholder that carries a name has that of its parameter, or `p` and its number if the parameter
has none (`Procedure.calledName`).  Two main statements about calls whose names are different:

* `compileProcedure_placeholders`: the placeholders of two parameters are different, unless a
  parameter has the name that the other one gets from its number, or both names are blank and the
  same.
* `compileProcedure_variables`: where placeholders start like session variables, a placeholder is a
  session variable just when it stands for a parameter that goes both ways and is its own variable.

Blank characters can be lost at the end of a placeholder, and so both are proved for either way to
compare texts (`Text.Same`).
-/

namespace SqlTree

open Text (Same)

namespace Procedure

/-! ### Names -/

/-- The name that the placeholder of a parameter carries when it has a given number. -/
def calledName (p : Parameter) (number : Nat) : String :=
  if p.name.isEmpty then "p" ++ toString number else p.name

/-- Parameters whose names are different when they are trimmed, or blank. -/
def Apart (p q : Parameter) : Prop :=
  Text.isAllBlank p.name = false → Text.isAllBlank q.name = false →
    Text.trimmed p.name ≠ Text.trimmed q.name

/-- A call whose parameters have different names, except for those that have blank names. -/
def NamesDiffer (call : Procedure) : Prop := call.parameters.Pairwise Apart

/-- The bound parameters `p` and `q`, with the numbers `i` and `j`, get the same placeholder: the
number of one that has no name makes the name of the other, or both names are blank and the same, as
names are compared. -/
def Meet (c : Text.Comparison) (p : Parameter) (i : Nat) (q : Parameter) (j : Nat) : Prop :=
  if p.name.isEmpty then q.name.isEmpty = false ∧ Same c ("p" ++ toString i) q.name
  else if q.name.isEmpty then Same c p.name ("p" ++ toString j)
  else Text.isAllBlank p.name = true ∧ Text.isAllBlank q.name = true ∧ Same c p.name q.name

instance (c : Text.Comparison) (p : Parameter) (i : Nat) (q : Parameter) (j : Nat) :
    Decidable (Meet c p i q j) := instDecidableIte

variable {d : Dialect} {layout : Layout} {call : Procedure} {p q : Parameter} {i j : Nat}
  {c : Text.Comparison}

theorem Apart.symm (h : Apart p q) : Apart q p := fun hq hp heq => h hp hq heq.symm

instance : Std.Symm Apart := ⟨fun _ _ h => h.symm⟩

instance (p q : Parameter) : Decidable (Apart p q) :=
  inferInstanceAs (Decidable (_ → _ → _))

/-- Bound parameters have different names if all parameters do. -/
theorem NamesDiffer.boundIn (h : call.NamesDiffer) (style : ProcedureStyle) :
    (call.boundIn style).Pairwise Apart :=
  (call.perm_boundIn style).symm.pairwise (List.Pairwise.filter _ h) Apart.symm

/-- Parameters that have names are told apart by them, up to blanks around them. -/
theorem eq_of_trimmed_eq (h : call.NamesDiffer)
    (hblank : ∀ p ∈ call.parameters, Text.isAllBlank p.name = false) (hp : p ∈ call.parameters)
    (hq : q ∈ call.parameters) (heq : Text.trimmed p.name = Text.trimmed q.name) : p = q := by
  by_contra hne
  exact List.Pairwise.forall h hp hq hne (hblank p hp) (hblank q hq) heq

/-! ### Names from numbers -/

theorem trimEnd_numeral (s : String) (n : Nat) :
    Text.trimEnd (s ++ toString n).toList = (s ++ toString n).toList := by
  obtain ⟨x, rest, hreverse, hx, -⟩ := endsSolid_numeral s n
  refine Text.trimEnd_of_last fun y hy => ?_
  rw [← List.head?_reverse, hreverse] at hy
  obtain rfl := Option.some.inj hy
  exact hx

/-- Different numbers make different names. -/
theorem eq_of_same_numeral (s : String) (h : Same c (s ++ toString i) (s ++ toString j)) :
    i = j := by
  have hlist : (s ++ toString i).toList = (s ++ toString j).toList := by
    cases c with
    | exact => exact congrArg String.toList h
    | upToEnd =>
      rw [← trimEnd_numeral s i, ← trimEnd_numeral s j]
      exact h
  rw [String.toList_append, String.toList_append] at hlist
  have hvalue := congrArg (Nat.ofDigitChars 10 · 0) (List.append_cancel_left hlist)
  simpa only [Nat.toString_eq_ofList_toDigits, String.toList_ofList,
    Nat.ofDigitChars_toDigits (b := 10) (by decide) (by decide)] using hvalue

/-! ### Placeholders that are the same -/

/-- Names that are apart are the same only if both are blank. -/
theorem isAllBlank_of_same (h : Apart p q) (hsame : Same c p.name q.name) :
    Text.isAllBlank p.name = true ∧ Text.isAllBlank q.name = true := by
  have htrimmed := hsame.trimmed_eq
  have hiff : Text.isAllBlank p.name = Text.isAllBlank q.name := by
    rw [← Text.isEmpty_trimmed, htrimmed, Text.isEmpty_trimmed]
  cases hp : Text.isAllBlank p.name with
  | true => exact ⟨rfl, hiff ▸ hp⟩
  | false => exact absurd htrimmed (h hp (hiff ▸ hp))

/-- Parameters with different names and numbers get the same placeholder just when they meet. -/
theorem same_calledName_iff (token : String) (h : Apart p q) (hij : i ≠ j) :
    Same c (token ++ calledName p i) (token ++ calledName q j) ↔ Meet c p i q j := by
  rw [Text.same_append_iff]
  unfold calledName Meet
  -- A name that is empty is replaced by a number, so the four cases differ.
  cases hp : p.name.isEmpty with
  | true =>
    rw [if_pos rfl, if_pos rfl]
    cases hq : q.name.isEmpty with
    | true =>
      rw [if_pos rfl]
      exact ⟨fun hsame => absurd (eq_of_same_numeral "p" hsame) hij, fun hmeet => nomatch hmeet.1⟩
    | false =>
      rw [if_neg Bool.false_ne_true]
      exact (and_iff_right rfl).symm
  | false =>
    rw [if_neg Bool.false_ne_true, if_neg Bool.false_ne_true]
    cases hq : q.name.isEmpty with
    | true =>
      rw [if_pos rfl, if_pos rfl]
    | false =>
      rw [if_neg Bool.false_ne_true, if_neg Bool.false_ne_true]
      refine ⟨fun hsame => ?_, fun hmeet => hmeet.2.2⟩
      obtain ⟨hpblank, hqblank⟩ := isAllBlank_of_same h hsame
      exact ⟨hpblank, hqblank, hsame⟩

/-! ### Numbered lists -/

/-- What holds of any two elements of a list holds of them when they are numbered, and their numbers
are different. -/
theorem pairwise_zipIdx {α : Type} {R : α → α → Prop} {l : List α} (h : l.Pairwise R) (n : Nat) :
    (l.zipIdx n).Pairwise fun a b => R a.1 b.1 ∧ a.2 ≠ b.2 := by
  induction l generalizing n with
  | nil => exact List.Pairwise.nil
  | cons a rest ih =>
    obtain ⟨ha, hrest⟩ := List.pairwise_cons.mp h
    rw [List.zipIdx_cons]
    refine List.pairwise_cons.mpr ⟨fun b hb => ⟨ha b.1 (List.fst_mem_of_mem_zipIdx hb), ?_⟩,
      ih hrest (n + 1)⟩
    have hle := List.le_snd_of_mem_zipIdx hb
    exact Nat.ne_of_lt hle

theorem map_zipIdx_fst {α β : Type} (f : α → β) (l : List α) (n : Nat) :
    (l.zipIdx n).map (fun a => f a.1) = l.map f := by
  show (l.zipIdx n).map (f ∘ Prod.fst) = l.map f
  rw [← List.map_map, List.zipIdx_map_fst]

/-- The placeholders of a call, in a dialect where they carry names. -/
theorem marks_words (hd : d.mode = .named) (call : Procedure) (style : ProcedureStyle) :
    d.marks 0 (call.words d style) =
      ((call.boundIn style).zipIdx 1).map fun a => d.token ++ calledName a.1 a.2 := by
  rw [d.marks_named hd, argument?_words, List.zipIdx_map, List.map_map]
  refine List.map_congr_left fun a _ => ?_
  obtain ⟨⟨name, direction, value⟩, number⟩ := a
  show d.token ++ (lentName _).getD _ = _
  unfold lentName calledName
  cases name.isEmpty <;> rfl

end Procedure

/-- **A placeholder stands for one parameter.** Where placeholders carry names and the names of a
call are different, the text of a call has one placeholder for each of its bound parameters, in the
order of the arguments.  Two of them are the same just when the number of a parameter without a name
makes the name of the other one, or when both names are blank and the same.  Names are compared here
as the placeholders are (`Procedure.Meet`): exactly, or up to the blank characters at their ends,
which a placeholder can lose at the end of a statement.  Up to those the name that is made for the
second parameter is that of a parameter called `p2` with a space behind it, and any two blank names
are the same. -/
theorem compileProcedure_placeholders {d : Dialect} {layout : Layout} {call : Procedure}
    {r : Compiled} (hd : d.mode = .named) (hnames : call.NamesDiffer)
    (h : compileProcedure d layout call = .ok r) :
    let bound := (call.boundIn d.procedureStyle).zipIdx 1
    let mark := fun a : Parameter × Nat => d.token ++ Procedure.calledName a.1 a.2
    Text.Typeset (d.texts 0 (call.words d d.procedureStyle)) r.sql.toList ∧
      d.marks 0 (call.words d d.procedureStyle) = bound.map mark ∧
      r.arguments = bound.map (·.1.value) ∧
      bound.Pairwise fun a b =>
        ∀ c, Same c (mark a) (mark b) ↔ Procedure.Meet c a.1 a.2 b.1 b.2 := by
  intro bound mark
  obtain ⟨htext, harguments⟩ := Procedure.compiled_words h
  refine ⟨htext, Procedure.marks_words hd call _, ?_, ?_⟩
  · exact harguments.trans (Procedure.map_zipIdx_fst Parameter.value _ 1).symm
  · exact (Procedure.pairwise_zipIdx (hnames.boundIn _) 1).imp fun h c =>
      Procedure.same_calledName_iff d.token h.1 h.2

/-- The dialect of the placeholders `@name`. -/
def Dialect.atNames : Dialect where
  name := "at"
  named := true
  token := "@"

/-- Seeds come first, and so a parameter without a name gets its number behind them. -/
theorem compileProcedure_placeholders_unnamed :
    let call : Procedure := {
      name := "bump"
      parameters := [
        { name := "step", value := .int 1 },
        { name := "", value := .int 2 },
        { name := "last", direction := .inout, value := .int 3 }] }
    ∃ r, compileProcedure .atNames .compact call = .ok r ∧
      Dialect.atNames.marks 0 (call.words .atNames .sessionVariables) =
        ["@last", "@step", "@p3"] ∧ r.arguments = [.int 3, .int 1, .int 2] ∧
      ((call.boundIn .sessionVariables).zipIdx 1).Pairwise fun a b =>
        Procedure.calledName a.1 a.2 ≠ Procedure.calledName b.1 b.2 := by
  intro call
  have hnames : call.NamesDiffer := by
    unfold Procedure.NamesDiffer
    decide
  have hcompiles : call.Callable := ⟨by decide, by decide, by decide⟩
  obtain ⟨r, hr⟩ := (Procedure.compiles_iff_callable (d := .atNames) rfl .compact).mpr hcompiles
  obtain ⟨-, hmarks, harguments, hmeet⟩ :=
    compileProcedure_placeholders (d := .atNames) rfl hnames hr
  have hapart : ((call.boundIn .sessionVariables).zipIdx 1).Pairwise fun a b =>
      ¬ Procedure.Meet .exact a.1 a.2 b.1 b.2 := by decide
  refine ⟨r, hr, hmarks, harguments, ?_⟩
  refine (hmeet.and hapart).imp fun h heq => h.2 ((h.1 .exact).mp ?_)
  exact congrArg ("@" ++ ·) heq

/-- A parameter without a name behind one that has the name of its number. -/
def Procedure.numberTaken : Procedure where
  name := "f"
  parameters := [{ name := "p2", value := .int 1 }, { name := "", value := .int 2 }]

/-- Two parameters with the same blank name. -/
def Procedure.blankNames : Procedure where
  name := "f"
  parameters := [{ name := " ", value := .int 1 }, { name := " ", value := .int 2 }]

/-- Two values share a placeholder if a parameter without a name comes behind one that has the name
of its number, or if both have the same blank name. -/
theorem compileProcedure_shared_placeholder :
    Dialect.atNames.mode = .named ∧
      (Procedure.numberTaken.NamesDiffer ∧
        compileProcedure .atNames .compact .numberTaken =
          .ok ⟨"CALL f(@p2, @p2);", [.int 1, .int 2]⟩ ∧
        Dialect.atNames.marks 0 (Procedure.numberTaken.words .atNames .sessionVariables) =
          ["@p2", "@p2"]) ∧
      Procedure.blankNames.NamesDiffer ∧
        compileProcedure .atNames .compact .blankNames =
          .ok ⟨"CALL f(@, @);", [.int 1, .int 2]⟩ ∧
        Dialect.atNames.marks 0 (Procedure.blankNames.words .atNames .sessionVariables) =
          ["@ ", "@ "] := by
  unfold Procedure.NamesDiffer
  exact ⟨rfl, ⟨by decide, rfl, rfl⟩, by decide, rfl, rfl⟩

/-! ### Placeholders and session variables -/

/-- **A placeholder is a session variable only for itself.** Where placeholders start like session
variables and all parameters have different names, a placeholder of a script is the same as one of
its session variables, with or without blank ends, just when both are of one parameter, which then
goes both ways, and no blank characters around its name make a difference. -/
theorem compileProcedure_variables {d : Dialect} {layout : Layout} {call : Procedure} {r : Compiled}
    (hd : d.mode = .named) (htoken : d.token = "@") (hstyle : d.procedureStyle = .sessionVariables)
    (hblank : ∀ p ∈ call.parameters, Text.isAllBlank p.name = false) (hnames : call.NamesDiffer)
    (h : compileProcedure d layout call = .ok r) :
    Text.Typeset (d.texts 0 (call.words d .sessionVariables)) r.sql.toList ∧
      d.marks 0 (call.words d .sessionVariables) =
        (call.boundIn .sessionVariables).map (fun p => "@" ++ p.name) ∧
      ∀ p ∈ call.boundIn .sessionVariables, ∀ q ∈ call.outputs, ∀ c,
        Same c ("@" ++ p.name) ("@" ++ Text.trimmed q.name) ↔
          p = q ∧ p.direction = .inout ∧ Same c p.name (Text.trimmed p.name) := by
  have hinput : ∀ p ∈ call.boundIn .sessionVariables, p ∈ call.parameters ∧
      (p.direction == .input || p.direction == .inout) = true := by
    intro p hp
    exact List.mem_filter.mp ((call.perm_boundIn .sessionVariables).mem_iff.mp hp)
  obtain ⟨htext, -⟩ := Procedure.compiled_words h
  rw [hstyle] at htext
  -- Placeholders first, then the variables that could be the same as one.
  refine ⟨htext, ?_, fun p hp q hq c => ?_⟩
  · rw [Procedure.marks_words hd, htoken,
      ← Procedure.map_zipIdx_fst (fun p : Parameter => "@" ++ p.name) _ 1]
    refine List.map_congr_left fun a ha => ?_
    have hmem := (hinput a.1 (List.fst_mem_of_mem_zipIdx ha)).1
    rw [Procedure.calledName, if_neg]
    intro hempty
    have hname := hblank a.1 hmem
    rw [String.isEmpty_iff.mp hempty] at hname
    cases hname
  · obtain ⟨hpmem, hdirection⟩ := hinput p hp
    obtain ⟨hqmem, hout⟩ := List.mem_filter.mp hq
    rw [Text.same_append_iff]
    constructor
    · intro hsame
      have htrimmed := hsame.trimmed_eq
      rw [Text.trimmed_trimmed] at htrimmed
      obtain rfl := Procedure.eq_of_trimmed_eq hnames hblank hpmem hqmem htrimmed
      refine ⟨rfl, ?_, hsame⟩
      revert hdirection hout
      cases p.direction <;> decide
    · rintro ⟨rfl, -, hsame⟩
      exact hsame

/-- A call with one parameter, which goes both ways. -/
def Procedure.counting : Procedure where
  name := "bump"
  parameters := [{ name := "counter", direction := .inout, value := .int 1 }]

/-- A script that sets a session variable to itself: the placeholder of the value is the variable.
-/
theorem compileProcedure_variables_seed :
    compileProcedure .atNames .compact .counting =
        .ok ⟨"SET @counter = @counter; CALL bump(@counter); SELECT @counter;", [.int 1]⟩ ∧
      ∀ p ∈ Procedure.counting.boundIn .sessionVariables, ∀ q ∈ Procedure.counting.outputs,
        "@" ++ p.name = "@" ++ Text.trimmed q.name := by
  have hr : compileProcedure .atNames .compact .counting =
      .ok ⟨"SET @counter = @counter; CALL bump(@counter); SELECT @counter;", [.int 1]⟩ := by
    with_unfolding_all rfl
  have hnames : Procedure.counting.NamesDiffer := by
    unfold Procedure.NamesDiffer
    decide
  obtain ⟨-, -, hsame⟩ :=
    compileProcedure_variables (d := .atNames) rfl rfl rfl (by decide) hnames hr
  refine ⟨hr, fun p hp q hq => (hsame p hp q hq .exact).mpr ?_⟩
  obtain rfl := List.mem_singleton.mp hp
  obtain rfl := List.mem_singleton.mp hq
  exact ⟨rfl, rfl, rfl⟩

end SqlTree
