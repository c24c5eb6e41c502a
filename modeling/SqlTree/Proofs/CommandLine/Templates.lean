import SqlTree.Proofs.CommandLine.Output

/-!
# Templates on the command line

Main statement, `CommandLine.run_template`: a run fails on the first parameter that gives nothing to
any name, whatever else it is asked for, and else it comes to what the compiler makes of the
template with the last value of each name.

A template is compiled after all its parameters have been bound (`run_eq_of_template`), so that the
outcome depends on what they are bound to alone, and not on their order.
-/

namespace SqlTree

namespace CommandLine

/-- What a run comes to that shows the result of compiling. -/
inductive Comes (json : Bool) : Except Error Compiled → Outcome → Prop where
  | shown {c : Compiled} {out : String} (h : Shows c json out) : Comes json (.ok c) ⟨0, out, none⟩
  | failed (e : Error) : Comes json (.error e) ⟨1, "", some (.statement e)⟩

/-- The outcome that the result of compiling is reported as. -/
def Outcome.ofCompiled (json : Bool) : Except Error Compiled → Outcome
  | .ok compiled => ⟨0, report json compiled, none⟩
  | .error e => ⟨1, "", some (.statement e)⟩

/-- What comes of a finite expression can be shown. -/
theorem comes_ofCompiled {e : Expression} (he : e.Finite) (key : String) (json : Bool) :
    Comes json ((Registry.builtIn .pretty).compile key e)
      (.ofCompiled json ((Registry.builtIn .pretty).compile key e)) := by
  cases hcompile : (Registry.builtIn .pretty).compile key e with
  | error failure => exact .failed failure
  | ok compiled =>
    obtain ⟨d, -, -, hd⟩ := Registry.compile_builtIn_eq_ok.mp hcompile
    exact .shown (shows_report (Compiler.finite_arguments he hd) json)

section Run

variable {s : Surroundings} {config : Config} {before after dialect : Option String} {sql : String}
  {json : Bool} {arguments parameters : List String}

/-- A template is compiled after all its parameters have been read. -/
theorem run_eq_of_template (hconfig : Configured s before after config)
    (hrequest : Request.ofArguments? arguments =
      some (.run before after (.template sql parameters dialect json))) :
    run s arguments =
      match bindAll { sql := sql } parameters with
      | .error failure => ⟨1, "", some failure⟩
      | .ok t => Outcome.ofCompiled json
          ((Registry.builtIn .pretty).compile (dialect.getD config.dialect) (.text t)) := by
  obtain ⟨explicit, hfile, hload⟩ := exists_loadConfig_iff.mpr hconfig
  unfold run
  rw [hrequest]
  dsimp only [answer]
  rw [hfile]
  dsimp only
  unfold perform execute
  rw [run_attempt_bind, hload]
  dsimp only
  rw [run_attempt_bind]
  -- The parameters are bound first, and the template is compiled with what they are bound to.
  cases bindAll { sql := sql } parameters with
  | error failure => rfl
  | ok t =>
    dsimp only
    rw [run_attempt_bind]
    cases (Registry.builtIn .pretty).compile (dialect.getD config.dialect) (.text t) with
    | error e => rfl
    | ok compiled =>
      show Outcome.ofResult ((print (report json compiled)).run.run "") = _
      rw [run_print, String.empty_append]
      rfl

end Run

/-- **The last value of each name counts.** Let a run of `template` have settings.  If a parameter
has no equals sign, or nothing but blank characters in front of the first, the run fails on the
first such parameter, whatever the template and the dialect are.  Otherwise it comes to what is made
of the template when every name that is assigned something is bound to the last text that it is
assigned: to what the JSON document that the text is is converted to, else to the text as it is.  So
a run with the same parameters in another order comes to the same if the parameters of each name
stand in the same order, where those without a name count as having the same. -/
theorem run_template (s : Surroundings) {before after : Option String} {config : Config}
    (hconfig : Configured s before after config) {arguments parameters : List String} {sql : String}
    {dialect : Option String} {json : Bool}
    (hrequest : Request.ofArguments? arguments =
      some (.run before after (.template sql parameters dialect json))) :
    ((∃ p ∈ parameters, ∃ failure, Refused p failure) →
      ∃ front bad behind failure, parameters = front ++ bad :: behind ∧
        (∀ p ∈ front, ∀ failure, ¬Refused p failure) ∧ Refused bad failure ∧
        run s arguments = ⟨1, "", some failure⟩) ∧
    ((∀ p ∈ parameters, ∀ failure, ¬Refused p failure) →
      ∃ bound, BoundBy parameters bound ∧
        Comes json
          ((Registry.builtIn .pretty).compile (dialect.getD config.dialect) (.text ⟨sql, bound⟩))
          (run s arguments)) ∧
    ∀ arguments' parameters', Request.ofArguments? arguments' =
        some (.run before after (.template sql parameters' dialect json)) →
      SameOrder parameters parameters' → run s arguments' = run s arguments := by
  refine ⟨?_, ?_, ?_⟩
  · rintro ⟨p, hp, failure, hrefused⟩
    cases hfirst : parameters.find? (fun p => assignedName? p = none) with
    | none =>
      obtain ⟨name, text, hassigns⟩ := assigns_of_find? hfirst p hp
      exact absurd hrefused hassigns.not_refused
    | some bad =>
      obtain ⟨front, behind, failure, rfl, hfront, hbad⟩ := exists_front_of_find? hfirst
      refine ⟨front, bad, behind, failure, rfl, ?_, hbad, ?_⟩
      · intro other hother failure
        obtain ⟨name, text, hassigns⟩ := hfront other hother
        exact hassigns.not_refused
      · rw [run_eq_of_template hconfig hrequest, bindAll_of_refused hfront hbad]
  · intro hnone
    have hall : ∀ p ∈ parameters, ∃ name text, Assigns p name text := by
      intro p hp
      refine (assigns_or_refused p).resolve_right ?_
      rintro ⟨failure, hrefused⟩
      exact hnone p hp failure hrefused
    obtain ⟨bound, hbind, hbound⟩ := exists_bindAll sql hall
    refine ⟨bound, hbound, ?_⟩
    rw [run_eq_of_template hconfig hrequest, hbind]
    exact comes_ofCompiled (hbound.finite sql) _ json
  · intro arguments' parameters' hrequest' hsame
    rw [run_eq_of_template hconfig hrequest', run_eq_of_template hconfig hrequest,
      bindAll_congr sql hsame]

/-- Parameters for a name that is given twice, with blank characters around it the second time, and
for a list, a text with an equals sign and a number. -/
def mixedParameters : List String :=
  ["a=1", "b=[true, 18446744073709551615, null]", " a =\x7b\"k\" : [1]\x7d", "c=x=y", "d=2.5"]

/-- A run with a template and parameters. -/
def runTemplate (sql : String) (parameters : List String) : Outcome :=
  run bareSurroundings ("template" :: sql :: parameters.flatMap fun p => ["-p", p])

/-- What the last parameter of each name gives it, as it is converted and as it is shown; another
order; and two parameters without a name. -/
theorem run_template_converted :
    (∃ bound, BoundBy mixedParameters bound ∧
      bound.find? "a" = some ⟨"a", .input, .string "\x7b\"k\":[1]\x7d"⟩ ∧
      bound.find? "b" = some ⟨"b", .input,
        .list [.bool true, .float (18446744073709551615 : UInt64).toFloat, .null]⟩ ∧
      bound.find? "c" = some ⟨"c", .input, .string "x=y"⟩ ∧
      Comes false
        ((Registry.builtIn .pretty).compile "ansi" (.text ⟨"{a}, {b}, {c}, {d}", bound⟩))
        (runTemplate "{a}, {b}, {c}, {d}" mixedParameters)) ∧
    (runTemplate "{a}, {b}, {c}, {d}" mixedParameters).stdout =
      "SQL:\n?, ?, ?, ?\n\nArguments:\n  1 = '\x7b\"k\":[1]\x7d'\n" ++
      "  2 = [true, 18446744073709552000, NULL]\n  3 = 'x=y'\n  4 = 2.5\n" ∧
    runTemplate "{a}, {b}, {c}, {d}" ["b=[true, 18446744073709551615, null]", "a=1",
        " a =\x7b\"k\" : [1]\x7d", "c=x=y", "d=2.5"] =
      runTemplate "{a}, {b}, {c}, {d}" mixedParameters ∧
    runTemplate "{a}" [" =2", "a"] = ⟨1, "", some (.parameterWithoutName " =2")⟩ := by
  have hrequest : Request.ofArguments?
      ("template" :: "{a}, {b}, {c}, {d}" :: mixedParameters.flatMap fun p => ["-p", p]) =
        some (.run none none (.template "{a}, {b}, {c}, {d}" mixedParameters none false)) := by
    decide +kernel
  have hrequest' : Request.ofArguments? ["template", "{a}", "-p", " =2", "-p", "a"] =
      some (.run none none (.template "{a}" [" =2", "a"] none false)) := by
    decide +kernel
  obtain ⟨-, hbinds, hreordered⟩ := run_template bareSurroundings configured_bare hrequest
  have hrequest'' : Request.ofArguments?
      ("template" :: "{a}, {b}, {c}, {d}" :: ["b=[true, 18446744073709551615, null]", "a=1",
        " a =\x7b\"k\" : [1]\x7d", "c=x=y", "d=2.5"].flatMap fun p => ["-p", p]) =
        some (.run none none (.template "{a}, {b}, {c}, {d}"
          ["b=[true, 18446744073709551615, null]", "a=1", " a =\x7b\"k\" : [1]\x7d", "c=x=y",
            "d=2.5"] none false)) := by
    decide +kernel
  refine ⟨?_, by decide +kernel, hreordered _ _ hrequest'' ?_, ?_⟩
  · obtain ⟨bound, hbound, hcomes⟩ := hbinds fun p hp failure hrefused => by
      have hnames : ∀ p ∈ mixedParameters, assignedName? p ≠ none := by decide +kernel
      exact hnames p hp (assignedName?_eq_none_iff.mpr ⟨failure, hrefused⟩)
    -- The last parameter of each name.
    have ha : LastAssigned mixedParameters "a" "\x7b\"k\" : [1]\x7d" :=
      lastAssigned_iff.mpr ⟨" a =\x7b\"k\" : [1]\x7d", by decide +kernel, " a ", by decide +kernel⟩
    have hb : LastAssigned mixedParameters "b" "[true, 18446744073709551615, null]" :=
      lastAssigned_iff.mpr ⟨"b=[true, 18446744073709551615, null]", by decide +kernel, "b",
        by decide +kernel⟩
    have hc : LastAssigned mixedParameters "c" "x=y" :=
      lastAssigned_iff.mpr ⟨"c=x=y", by decide +kernel, "c", by decide +kernel⟩
    -- What their texts are bound as.
    have ha' : BoundAs "\x7b\"k\" : [1]\x7d" (.string "\x7b\"k\":[1]\x7d") := by
      have hcompact : Json.compact (.object [("k", .array [.int 1])]) = "\x7b\"k\":[1]\x7d" := by
        decide +kernel
      have hspells : Json.Spells (Json.compact (.object [("k", .array [.int 1])]))
          (.object [("k", .array [.int 1])]) := by
        unfold Json.Spells
        cbv
      have hconverted := Converted.object hspells
      rw [hcompact] at hconverted
      exact .document (by cbv) hconverted
    have hb' : BoundAs "[true, 18446744073709551615, null]"
        (.list [.bool true, .float (18446744073709551615 : UInt64).toFloat, .null]) :=
      .document (by cbv) (.array (.cons (.bool true)
        (.cons (.wide 18446744073709551615 (by decide)) (.cons .null .nil))))
    have hc' : BoundAs "x=y" (.string "x=y") := .verbatim (by cbv)
    exact ⟨bound, hbound, (hbound _ _).mpr ⟨_, _, ha, ha', rfl⟩,
      (hbound _ _).mpr ⟨_, _, hb, hb', rfl⟩, (hbound _ _).mpr ⟨_, _, hc, hc', rfl⟩, hcomes⟩
  · exact SameOrder.swap (by decide +kernel) _
  · have hbad : Refused " =2" (.parameterWithoutName " =2") := by
      have hcut : " =2" = " " ++ "=" ++ "2" := by decide +kernel
      rw [hcut]
      exact .withoutName (by decide +kernel) (by decide +kernel)
    obtain ⟨front, bad, behind, failure, hparts, hfront, hrefused, hrun⟩ :=
      (run_template bareSurroundings configured_bare hrequest').1
        ⟨" =2", List.mem_cons_self, _, hbad⟩
    cases front with
    | nil =>
      obtain ⟨rfl, rfl⟩ := List.cons.inj hparts
      have hfailure := hrefused.readParameter
      rw [hbad.readParameter] at hfailure
      exact hrun.trans (by rw [Except.error.inj hfailure])
    | cons other rest =>
      obtain ⟨rfl, -⟩ := List.cons.inj hparts
      exact absurd hbad (hfront _ List.mem_cons_self _)

end CommandLine

end SqlTree
