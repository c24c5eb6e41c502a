import Mathlib.Data.List.Induction
import Mathlib.Data.List.TakeWhile
import SqlTree.CommandLine.Run
import SqlTree.Proofs.Json.Readable
import SqlTree.Proofs.Registry.Registration
import SqlTree.Proofs.Value.Conversion

/-!
# The parameters of a template

A template on the command line comes with parameters, each of which gives a text to a name.  Main
statements, `exists_bindAll` and `bindAll_of_refused`: every name is bound to what the last
parameter of the name gives it, unless a parameter is refused, and then the first such parameter is
all that counts.

What a parameter gives is `Assigns`, which looks at the first equals sign alone, and why one is
refused is `Refused`; every parameter is one or the other (`assigns_or_refused`).  What a text is
bound as is `BoundAs`.  Parameters are bound from the left, and one more at the end changes what one
name is bound to (`BoundBy.set`), which is what the induction of `exists_bindAll` rests on.  Since
`BoundBy` and the first parameter that is refused say everything about the outcome, parameters of
different names may change places (`bindAll_congr`).
-/

namespace SqlTree

namespace CommandLine

/-! ### One parameter -/

/-- A parameter gives a text to a name: the name stands in front of the first equals sign, and the
blank characters around it do not count. -/
def Assigns (parameter name text : String) : Prop :=
  ∃ front, parameter = front ++ "=" ++ text ∧ '=' ∉ front.toList ∧
    Text.isAllBlank front = false ∧ name = Text.trimmed front

/-- Why a parameter is refused: it has no equals sign, or there is no name in front of the first. -/
inductive Refused : String → Failure → Prop where
  | withoutValue {parameter : String} (h : '=' ∉ parameter.toList) :
    Refused parameter (.parameterWithoutValue parameter)
  | withoutName {front text : String} (hfirst : '=' ∉ front.toList)
    (hblank : Text.isAllBlank front = true) :
    Refused (front ++ "=" ++ text) (.parameterWithoutName (front ++ "=" ++ text))

/-- What a text is bound as: what the JSON document that it is is converted to, else the text as it
is. -/
inductive BoundAs (text : String) : Value → Prop where
  | document {j : Json} {value : Value} (h : Json.ofFreeText? text = some j)
    (hvalue : Converted j value) : BoundAs text value
  | verbatim (h : Json.ofFreeText? text = none) : BoundAs text (.string text)

/-- The name that a parameter gives a text to, if it does. -/
def assignedName? (parameter : String) : Option String :=
  let front := String.ofList (parameter.toList.takeWhile (· != '='))
  if '=' ∈ parameter.toList ∧ Text.isAllBlank front = false then some (Text.trimmed front)
  else none

/-- A text is bound as one value. -/
theorem boundAs_iff {text : String} {value : Value} :
    BoundAs text value ↔ value = valueOfText text := by
  unfold valueOfText
  -- A text is a document or not, and a document is converted to one value.
  cases hj : Json.ofFreeText? text with
  | some j =>
    have hconverted : Converted j value ↔ value = Value.ofJson j :=
      (Json.printable_of_ofFreeText? hj).converted_iff
    refine ⟨fun h => ?_, fun h => .document hj (hconverted.mpr h)⟩
    cases h with
    | document hj' hvalue =>
      rw [hj] at hj'
      obtain rfl := Option.some.inj hj'
      exact hconverted.mp hvalue
    | verbatim hnone =>
      rw [hj] at hnone
      cases hnone
  | none =>
    refine ⟨fun h => ?_, fun h => h ▸ .verbatim hj⟩
    cases h with
    | document hj' _ =>
      rw [hj] at hj'
      cases hj'
    | verbatim _ => rfl

/-- What a text is bound as has finite floats. -/
theorem BoundAs.finite {text : String} {value : Value} (h : BoundAs text value) :
    value.Finite := by
  obtain rfl := boundAs_iff.mp h
  unfold valueOfText
  cases hj : Json.ofFreeText? text with
  | some j => exact (Json.printable_of_ofFreeText? hj).finite_ofJson
  | none => exact .string text

section Cut

variable {parameter front text name : String} {failure : Failure}

/-- A parameter is cut at its first equals sign. -/
theorem cut_parameter (text : String) (hfirst : '=' ∉ front.toList) :
    (front ++ "=" ++ text).toList.takeWhile (· != '=') = front.toList ∧
      (front ++ "=" ++ text).toList.dropWhile (· != '=') = '=' :: text.toList := by
  have hother : ∀ c ∈ front.toList, (c != '=') = true := by
    intro c hc
    exact bne_iff_ne.mpr fun heq => hfirst (heq ▸ hc)
  have hparts : (front ++ "=" ++ text).toList = front.toList ++ '=' :: text.toList := by
    rw [String.toList_append, String.toList_append, List.append_assoc]
    rfl
  rw [hparts, List.takeWhile_append_of_pos hother, List.dropWhile_append_of_pos hother]
  exact ⟨List.append_nil _, rfl⟩

theorem mem_cut (front text : String) : '=' ∈ (front ++ "=" ++ text).toList := by
  rw [String.toList_append, String.toList_append]
  exact List.mem_append_left _ (List.mem_append_right _ (List.mem_singleton_self '='))

/-- A parameter with an equals sign can be cut at the first one. -/
theorem exists_cut (h : '=' ∈ parameter.toList) :
    ∃ front text, parameter = front ++ "=" ++ text ∧ '=' ∉ front.toList := by
  obtain ⟨front, text, hparts, hfirst⟩ := List.eq_append_cons_of_mem h
  refine ⟨String.ofList front, String.ofList text, String.toList_inj.mp ?_, ?_⟩
  · simp only [hparts, String.toList_append, String.toList_ofList, List.append_assoc]
    rfl
  · rw [String.toList_ofList]
    exact hfirst

/-- A parameter is read from its two sides, unless there is no name on the left. -/
theorem readParameter_cut (text : String) (hfirst : '=' ∉ front.toList) :
    readParameter (front ++ "=" ++ text) =
      if Text.isAllBlank front then .error (.parameterWithoutName (front ++ "=" ++ text))
      else .ok (Text.trimmed front, valueOfText text) := by
  obtain ⟨htake, hdrop⟩ := cut_parameter text hfirst
  -- No name is left after trimming just when there are only blank characters in front.
  have htrim : Text.trim front.toList = [] ↔ Text.isAllBlank front = true := by
    rw [← Text.isEmpty_trimmed, String.isEmpty_iff, Text.trimmed, String.ofList_eq_empty_iff]
  unfold readParameter
  simp only [htake, hdrop, htrim, String.ofList_toList]
  rfl

/-- A parameter that assigns something is read as what it assigns. -/
theorem Assigns.readParameter (h : Assigns parameter name text) :
    readParameter parameter = .ok (name, valueOfText text) := by
  obtain ⟨front, rfl, hfirst, hblank, rfl⟩ := h
  rw [readParameter_cut text hfirst, hblank]
  rfl

/-- A parameter that is refused is read as the failure that says why. -/
theorem Refused.readParameter (h : Refused parameter failure) :
    readParameter parameter = .error failure := by
  cases h with
  | withoutValue h =>
    have hnone : parameter.toList.dropWhile (· != '=') = [] := by
      refine List.dropWhile_eq_nil_iff.mpr fun c hc => bne_iff_ne.mpr ?_
      rintro rfl
      exact h hc
    unfold CommandLine.readParameter
    simp only [hnone]
  | withoutName hfirst hblank =>
    rw [readParameter_cut _ hfirst, if_pos hblank]

/-- Whether there is an equals sign, and whether there is a name in front of it, decides. -/
theorem assigns_or_refused (parameter : String) :
    (∃ name text, Assigns parameter name text) ∨ ∃ failure, Refused parameter failure := by
  by_cases h : '=' ∈ parameter.toList
  · obtain ⟨front, text, rfl, hfirst⟩ := exists_cut h
    cases hblank : Text.isAllBlank front with
    | true => exact .inr ⟨_, .withoutName hfirst hblank⟩
    | false => exact .inl ⟨_, text, front, rfl, hfirst, hblank, rfl⟩
  · exact .inr ⟨_, .withoutValue h⟩

theorem Assigns.not_refused (h : Assigns parameter name text) : ¬Refused parameter failure := by
  intro hrefused
  have hread := hrefused.readParameter
  rw [h.readParameter] at hread
  cases hread

/-- The name of a parameter is that which it assigns something to. -/
theorem assignedName?_eq_some_iff :
    assignedName? parameter = some name ↔ ∃ text, Assigns parameter name text := by
  unfold assignedName?
  constructor
  · intro h
    dsimp only at h
    split at h
    · next hcondition =>
      obtain ⟨front, text, rfl, hfirst⟩ := exists_cut hcondition.1
      rw [(cut_parameter _ hfirst).1, String.ofList_toList] at hcondition h
      exact ⟨text, front, rfl, hfirst, hcondition.2, (Option.some.inj h).symm⟩
    · cases h
  · rintro ⟨text, front, rfl, hfirst, hblank, rfl⟩
    rw [(cut_parameter _ hfirst).1, String.ofList_toList, if_pos ⟨mem_cut front text, hblank⟩]

theorem assignedName?_eq_none_iff :
    assignedName? parameter = none ↔ ∃ failure, Refused parameter failure := by
  rw [Option.eq_none_iff_forall_ne_some]
  constructor
  · intro h
    refine (assigns_or_refused parameter).resolve_left ?_
    rintro ⟨name, text, hassigns⟩
    exact h name (assignedName?_eq_some_iff.mpr ⟨text, hassigns⟩)
  · rintro ⟨failure, hrefused⟩ name hname
    obtain ⟨text, hassigns⟩ := assignedName?_eq_some_iff.mp hname
    exact hassigns.not_refused hrefused

end Cut

/-! ### Parameters from the left -/

section Parameters

variable {parameters : List String}

/-- The last parameter of a name gives it a text. -/
def LastAssigned (parameters : List String) (name text : String) : Prop :=
  ∃ front parameter behind, parameters = front ++ parameter :: behind ∧
    Assigns parameter name text ∧ ∀ other ∈ behind, ∀ text, ¬Assigns other name text

/-- The last parameter of a name. -/
def lastOf? (parameters : List String) (name : String) : Option String :=
  (parameters.filter fun parameter => assignedName? parameter = some name).getLast?

/-- One more parameter at the end is the last of its own name, and of no other. -/
theorem lastOf?_concat (front : List String) (parameter name : String) :
    lastOf? (front ++ [parameter]) name =
      if assignedName? parameter = some name then some parameter else lastOf? front name := by
  unfold lastOf?
  rw [List.filter_append]
  by_cases hname : assignedName? parameter = some name
  · rw [if_pos hname, List.filter_cons_of_pos (by simpa using hname), List.filter_nil,
      List.getLast?_concat]
  · rw [if_neg hname, List.filter_cons_of_neg (by simpa using hname), List.filter_nil,
      List.append_nil]

/-- The last parameter of a name is the one that says what the name is assigned. -/
theorem lastAssigned_iff {name text : String} :
    LastAssigned parameters name text ↔
      ∃ parameter, lastOf? parameters name = some parameter ∧ Assigns parameter name text := by
  unfold lastOf?
  simp only [List.getLast?_filter, List.find?_eq_some_iff_append, decide_eq_true_eq,
    Bool.not_eq_true', decide_eq_false_iff_not]
  -- Seen from the end, the last parameter is the first.
  constructor
  · rintro ⟨front, parameter, behind, rfl, hassigns, hbehind⟩
    refine ⟨parameter, ⟨assignedName?_eq_some_iff.mpr ⟨text, hassigns⟩, behind.reverse,
      front.reverse, ?_, fun other hother hname => ?_⟩, hassigns⟩
    · rw [List.reverse_append, List.reverse_cons, List.append_assoc, List.singleton_append]
    · obtain ⟨text, hother'⟩ := assignedName?_eq_some_iff.mp hname
      exact hbehind other (List.mem_reverse.mp hother) text hother'
  · rintro ⟨parameter, ⟨-, behind, front, hreverse, hbehind⟩, hassigns⟩
    refine ⟨front.reverse, parameter, behind.reverse, ?_, hassigns, fun other hother text h => ?_⟩
    · rw [← List.reverse_reverse parameters, hreverse, List.reverse_append, List.reverse_cons,
        List.append_assoc, List.singleton_append]
    · exact hbehind other (List.mem_reverse.mp hother) (assignedName?_eq_some_iff.mpr ⟨text, h⟩)

/-- Parameters that stand behind others are bound behind them. -/
theorem bindAll_append (t : Template) (front behind : List String) :
    bindAll t (front ++ behind) = (bindAll t front).bind fun t => bindAll t behind := by
  induction front generalizing t with
  | nil => rfl
  | cons parameter rest ih =>
    show (readParameter parameter).bind _ = ((readParameter parameter).bind _).bind _
    cases readParameter parameter with
    | error failure => rfl
    | ok read => exact ih _

/-- The parameters of a template that are bound: those whose names are assigned something, each with
the value of what is assigned to it last. -/
def BoundBy (parameters : List String) (bound : Dictionary Parameter) : Prop :=
  ∀ name p, bound.find? name = some p ↔ ∃ text value, LastAssigned parameters name text ∧
    BoundAs text value ∧ p = { name := name, value := value }

theorem boundBy_nil : BoundBy [] .empty := by
  intro name p
  rw [Dictionary.find?_empty]
  constructor
  · intro h
    cases h
  · rintro ⟨text, value, ⟨front, parameter, behind, hnil, -⟩, -⟩
    exact absurd hnil.symm (List.append_ne_nil_of_right_ne_nil front (List.cons_ne_nil _ _))

/-- One more parameter binds one name again, and leaves the others as they are. -/
theorem BoundBy.set {bound : Dictionary Parameter} {parameter name text : String}
    (h : BoundBy parameters bound) (hassigns : Assigns parameter name text) :
    BoundBy (parameters ++ [parameter])
      (bound.set name { name := name, value := valueOfText text }) := by
  have hname : assignedName? parameter = some name := assignedName?_eq_some_iff.mpr ⟨text, hassigns⟩
  intro key p
  simp only [lastAssigned_iff, lastOf?_concat, boundAs_iff, hname, Option.some.injEq]
  by_cases hkey : name = key
  · subst hkey
    rw [Dictionary.find?_set_self]
    constructor
    · intro hp
      exact ⟨text, _, ⟨parameter, if_pos rfl, hassigns⟩, rfl, (Option.some.inj hp).symm⟩
    · rintro ⟨text', value, ⟨last, hlast, hassigns'⟩, rfl, rfl⟩
      -- The last parameter of the name is the one at the end, and it gives one text only.
      obtain rfl := Option.some.inj ((if_pos rfl).symm.trans hlast)
      have hread := hassigns'.readParameter
      rw [hassigns.readParameter] at hread
      rw [(Prod.mk.inj (Except.ok.inj hread)).2]
  · rw [Dictionary.find?_set_of_ne _ _ (Ne.symm hkey), h key p]
    simp only [lastAssigned_iff, boundAs_iff, if_neg hkey]

/-- Parameters that all assign something are bound. -/
theorem exists_bindAll (sql : String) (h : ∀ p ∈ parameters, ∃ name text, Assigns p name text) :
    ∃ bound, bindAll { sql := sql } parameters = .ok ⟨sql, bound⟩ ∧ BoundBy parameters bound := by
  -- From the end, since the last parameter is bound over what the ones in front of it are bound to.
  induction parameters using List.reverseRecOn with
  | nil => exact ⟨.empty, rfl, boundBy_nil⟩
  | append_singleton front parameter ih =>
    obtain ⟨bound, hfront, hbound⟩ := ih fun p hp => h p (List.mem_append_left _ hp)
    obtain ⟨name, text, hassigns⟩ :=
      h parameter (List.mem_append_right _ (List.mem_singleton_self parameter))
    refine ⟨_, ?_, hbound.set hassigns⟩
    rw [bindAll_append, hfront]
    show (readParameter parameter).bind _ = _
    rw [hassigns.readParameter]
    rfl

/-- The first parameter that is refused. -/
theorem bindAll_of_refused {t : Template} {front behind : List String} {bad : String}
    {failure : Failure} (hfront : ∀ p ∈ front, ∃ name text, Assigns p name text)
    (hbad : Refused bad failure) : bindAll t (front ++ bad :: behind) = .error failure := by
  induction front generalizing t with
  | nil =>
    show (readParameter bad).bind _ = _
    rw [hbad.readParameter]
    rfl
  | cons parameter rest ih =>
    obtain ⟨hparameter, hrest⟩ := List.forall_mem_cons.mp hfront
    obtain ⟨name, text, hassigns⟩ := hparameter
    show (readParameter parameter).bind _ = _
    rw [hassigns.readParameter]
    exact ih hrest

/-- The first of the parameters that are refused, with what stands in front of it. -/
theorem exists_front_of_find? {bad : String}
    (h : parameters.find? (fun p => assignedName? p = none) = some bad) :
    ∃ front behind failure, parameters = front ++ bad :: behind ∧
      (∀ p ∈ front, ∃ name text, Assigns p name text) ∧ Refused bad failure := by
  obtain ⟨hbad, front, behind, rfl, hfront⟩ := List.find?_eq_some_iff_append.mp h
  obtain ⟨failure, hrefused⟩ := assignedName?_eq_none_iff.mp (decide_eq_true_eq.mp hbad)
  refine ⟨front, behind, failure, rfl, fun p hp => ?_, hrefused⟩
  refine (assigns_or_refused p).resolve_right fun hp' => ?_
  have hnot := hfront p hp
  rw [assignedName?_eq_none_iff.mpr hp'] at hnot
  cases hnot

/-- Where no parameter is refused, all of them assign something. -/
theorem assigns_of_find? (h : parameters.find? (fun p => assignedName? p = none) = none) :
    ∀ p ∈ parameters, ∃ name text, Assigns p name text := by
  intro p hp
  refine (assigns_or_refused p).resolve_right fun hrefused => ?_
  have hnot := List.find?_eq_none.mp h p hp
  rw [assignedName?_eq_none_iff.mpr hrefused] at hnot
  exact hnot rfl

/-- One dictionary is bound. -/
theorem BoundBy.unique {bound bound' : Dictionary Parameter} (h : BoundBy parameters bound)
    (h' : BoundBy parameters bound') : bound = bound' :=
  Dictionary.ext_find? fun name => Option.ext fun p => (h name p).trans (h' name p).symm

/-- A template with what is bound has finite floats. -/
theorem BoundBy.finite {bound : Dictionary Parameter} (h : BoundBy parameters bound)
    (sql : String) : (Expression.text ⟨sql, bound⟩).Finite := by
  refine .content (fun v hv => ?_) rfl
  obtain ⟨⟨name, p⟩, hentry, rfl⟩ := List.mem_map.mp hv
  obtain ⟨text, value, -, hvalue, rfl⟩ := (h name p).mp (Dictionary.find?_eq_some_iff.mpr hentry)
  exact hvalue.finite

/-- Two lists of parameters that differ in the order of parameters of different names alone.  All
parameters that are refused count as one name. -/
def SameOrder (l m : List String) : Prop :=
  ∀ name : Option String,
    (l.filter fun p => assignedName? p = name) = m.filter fun p => assignedName? p = name

/-- Two parameters of different names, next to each other, may change places. -/
theorem SameOrder.swap {p q : String} (h : assignedName? p ≠ assignedName? q)
    (rest : List String) : SameOrder (p :: q :: rest) (q :: p :: rest) := by
  intro name
  simp only [List.filter_cons, decide_eq_true_eq]
  by_cases hp : assignedName? p = name
  · have hq : assignedName? q ≠ name := fun hq => h (hp.trans hq.symm)
    simp only [if_pos hp, if_neg hq]
  · simp only [if_neg hp]

/-- What a name is assigned last does not depend on the parameters of other names. -/
theorem SameOrder.lastAssigned_iff {l m : List String} (h : SameOrder l m) (name text : String) :
    LastAssigned l name text ↔ LastAssigned m name text := by
  have hlast : lastOf? l name = lastOf? m name := congrArg List.getLast? (h (some name))
  rw [CommandLine.lastAssigned_iff, CommandLine.lastAssigned_iff, hlast]

/-- Parameters of different names may change places. -/
theorem bindAll_congr (sql : String) {l m : List String} (h : SameOrder l m) :
    bindAll { sql := sql } l = bindAll { sql := sql } m := by
  -- The first parameter that is refused is among those without a name, which have kept their order.
  have hfind : l.find? (fun p => assignedName? p = none) =
      m.find? (fun p => assignedName? p = none) := by
    rw [← List.head?_filter, ← List.head?_filter, h none]
  cases hl : l.find? (fun p => assignedName? p = none) with
  | some bad =>
    obtain ⟨front, behind, failure, rfl, hfront, hbad⟩ := exists_front_of_find? hl
    obtain ⟨front', behind', failure', rfl, hfront', -⟩ := exists_front_of_find? (hfind ▸ hl)
    rw [bindAll_of_refused hfront hbad, bindAll_of_refused hfront' hbad]
  | none =>
    obtain ⟨bound, hbind, hbound⟩ := exists_bindAll sql (assigns_of_find? hl)
    obtain ⟨bound', hbind', hbound'⟩ := exists_bindAll sql (assigns_of_find? (hfind ▸ hl))
    have hsame : BoundBy l bound' := by
      intro name p
      simp only [hbound' name p, h.lastAssigned_iff]
    rw [hbind, hbind', hbound.unique hsame]

end Parameters

end CommandLine

end SqlTree
