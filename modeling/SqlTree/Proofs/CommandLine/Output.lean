import SqlTree.Proofs.Codec.Arguments
import SqlTree.Proofs.CommandLine.Parameters
import SqlTree.Proofs.CommandLine.Settings

/-!
# What the command line prints

Main statement, `CommandLine.run_output`: a run that does not succeed prints nothing, and a run that
compiles shows the one compiled statement that its arguments ask for.

An action can print and fail afterwards, so the first half is a property of the commands and not of
actions.  Most commands print last, after everything that may fail (`whole_attempt_bind`).  The list
of dialects prints its heading first; it is whole because it cannot fail at all: every key of a
built-in compiler leads to a dialect (`Registry.exists_dialect`).

For the second half, `Asks` says what a command is to compile, in terms of the texts it reads and of
the settings of the run, and `Shows` what a compiled statement looks like: a document is what its
text reads back as.  It can be read back since only finite floats get as far as the arguments
(`Asks.finite`).
-/

namespace SqlTree

/-! ### What is built in -/

namespace Registry

/-- A built-in dialect is found under its name. -/
theorem find?_builtIn {d : Dialect} (hd : d ∈ Dialect.builtIn) :
    Dialect.builtIn.find? (fun other => other.name == d.name) = some d := by
  rcases List.mem_cons.mp hd with rfl | hd
  · rfl
  rcases List.mem_cons.mp hd with rfl | hd
  · rfl
  obtain rfl := List.mem_singleton.mp hd
  rfl

/-- The built-in registry compiles under a key as the compiler of the dialect of that name does, and
under no other key. -/
theorem compile_builtIn_eq_ok {layout : Layout} {key : String} {e : Expression}
    {compiled : Compiled} :
    (builtIn layout).compile key e = .ok compiled ↔
      ∃ d ∈ Dialect.builtIn, d.name = key ∧ Compiler.compile ⟨d, layout⟩ e = .ok compiled := by
  have hfind : (builtIn layout).compilers.find? key =
      (Dialect.builtIn.find? fun d => d.name == key).map fun d => Compiler.compile ⟨d, layout⟩ :=
    find?_start (some layout) .compiler key
  unfold compile compiler
  rw [hfind]
  -- Dialects are looked up by their names, and these are different.
  constructor
  · intro h
    cases hd : Dialect.builtIn.find? (fun d => d.name == key) with
    | none =>
      rw [hd] at h
      cases h
    | some d =>
      rw [hd] at h
      have hname : (d.name == key) = true :=
        List.find?_some (p := fun d : Dialect => d.name == key) hd
      exact ⟨d, List.mem_of_find?_eq_some hd, beq_iff_eq.mp hname, h⟩
  · rintro ⟨d, hd, rfl, h⟩
    rw [find?_builtIn hd]
    exact h

end Registry

namespace CommandLine

/-! ### Actions -/

section Action

variable {α β : Type}

/-- An action that prints nothing if it fails. -/
def Action.Whole (a : Action α) : Prop :=
  ∀ out failure, (a.run.run out).1 = .error failure → (a.run.run out).2 = out

/-- An action that does not fail. -/
def Action.Sure (a : Action α) : Prop := ∀ out failure, (a.run.run out).1 ≠ .error failure

/-- What never fails prints nothing when it fails. -/
theorem Action.Sure.whole {a : Action α} (h : a.Sure) : a.Whole :=
  fun out failure hfail => absurd hfail (h out failure)

theorem run_print (text out : String) : (print text).run.run out = (.ok (), out ++ text) := rfl

/-- An attempt prints nothing, and what follows it is done only if it succeeds. -/
theorem run_attempt_bind (x : Except Failure α) (f : α → Action β) (out : String) :
    (attempt x >>= f).run.run out =
      match x with
      | .ok a => (f a).run.run out
      | .error failure => (.error failure, out) := by
  cases x <;> rfl

end Action

/-- A compiled statement as lines: its text, and behind it its values, if there are any, one a line,
numbered from one on. -/
def lines (c : Compiled) : String :=
  "SQL:\n" ++ c.sql ++ "\n" ++
    if c.arguments = [] then ""
    else "\nArguments:\n" ++ String.join
      (c.arguments.mapIdx fun i v => "  " ++ toString (i + 1) ++ " = " ++ v.display ++ "\n")

/-- What a compiled statement is shown as.  A document has its text and its values, in this order:
each item reads back as the value in its place. -/
inductive Shows (c : Compiled) : (json : Bool) → String → Prop where
  | document {items : List Json} {out : String}
    (hitems : List.Forall₂ (fun item v => Value.ofJson? item.depth item = some v) items c.arguments)
    (hout : Json.Spells out (.object [("sql", .string c.sql), ("args", .array items)])) :
    Shows c true out
  | lines : Shows c false (lines c)

/-- Arguments are shown one a line, with the numbers from `n` on. -/
theorem argumentLines_eq_join (n : Nat) (vs : List Value) :
    argumentLines n vs = String.join
      (vs.mapIdx fun i v => "  " ++ toString (i + n) ++ " = " ++ v.display ++ "\n") := by
  induction vs generalizing n with
  | nil => rw [argumentLines, List.mapIdx_nil, String.join_nil]
  | cons v rest ih =>
    -- The numbers of the other lines are counted from the next number on.
    have hnext : (fun (i : Nat) (v : Value) =>
          "  " ++ toString (i + (n + 1)) ++ " = " ++ v.display ++ "\n") =
        fun i v => "  " ++ toString (i + 1 + n) ++ " = " ++ v.display ++ "\n" := by
      funext i v
      rw [Nat.add_assoc, Nat.add_comm 1 n]
    rw [argumentLines, ih, List.mapIdx_cons, String.join_cons, Nat.zero_add, hnext]

/-- What is reported as lines is what `lines` says. -/
theorem report_false (c : Compiled) : report false c = lines c := by
  obtain ⟨sql, arguments⟩ := c
  cases arguments with
  | nil => rfl
  | cons v rest =>
    show "SQL:\n" ++ sql ++ "\n" ++ ("\nArguments:\n" ++ argumentLines 1 (v :: rest)) = _
    rw [argumentLines_eq_join]
    rfl

/-- A value with finite floats has a document that can be written. -/
theorem printable_toJson {v : Value} (h : v.Finite) : v.toJson.Printable := by
  -- Under the name of its kind a value has one member.
  have hmember {key : String} {j : Json} (hj : j.Printable) : (Json.object [(key, j)]).Printable :=
    .object fun m hm => by
      obtain rfl := List.mem_singleton.mp hm
      exact hj
  induction h with
  | null => exact .string "Null"
  | bool b => exact hmember (.bool b)
  | int n =>
    have hlow := Int64.le_toInt n
    have hhigh := Int64.toInt_lt n
    exact hmember (.int (by omega) (by omega))
  | float hx =>
    rw [Value.toJson, Json.ofFloat, if_pos hx]
    exact hmember (.float hx)
  | string s => exact hmember (.string s)
  | bytes content =>
    refine hmember (.array fun j hj => ?_)
    obtain ⟨b, -, rfl⟩ := List.mem_map.mp hj
    have hhigh := b.toNat_lt
    exact .int (by omega) (by omega)
  | date d => exact hmember (.string _)
  | dateTime t => exact hmember (.string _)
  | uuid u => exact hmember (.string _)
  | list _ ih =>
    rw [Value.toJson, Value.toJsonItems_eq_map]
    refine hmember (.array fun j hj => ?_)
    obtain ⟨v, hv, rfl⟩ := List.mem_map.mp hj
    exact ih v hv

/-- A compiled statement is shown if its values can be written. -/
theorem shows_report {c : Compiled} (hfinite : ∀ v ∈ c.arguments, v.Finite) (json : Bool) :
    Shows c json (report json c) := by
  cases json with
  | false =>
    rw [report_false]
    exact .lines
  | true =>
    have hprintable : c.toJson.Printable := by
      refine .object fun m hm => ?_
      rcases List.mem_cons.mp hm with rfl | hm
      · exact .string c.sql
      obtain rfl := List.mem_singleton.mp hm
      rw [Value.toJsonItems_eq_map]
      refine .array fun j hj => ?_
      obtain ⟨v, hv, rfl⟩ := List.mem_map.mp hj
      exact printable_toJson (hfinite v hv)
    -- The text of the document reads back as the document, and each item as its value.
    have hspells : Json.Spells (report true c) c.toJson := hprintable.spells_pretty
    rw [Compiled.toJson, Value.toJsonItems_eq_map] at hspells
    refine .document ?_ hspells
    rw [List.forall₂_map_left_iff]
    refine List.forall₂_same.mpr fun v hv => ?_
    exact Value.reads Json.reorders_id (hfinite v hv) _ (Nat.le_refl _)

/-! ### Commands that compile -/

/-- Whether a command compiles something. -/
def Command.Compiles : Command → Prop
  | .compile .. | .template .. => True
  | .dialects | .type .. | .schema .. => False

/-- `Asks s config command key layout e json`: the command is to compile the expression `e` for the
dialect `key` in a layout, and to show the result as a document if `json` is set. -/
inductive Asks (s : Surroundings) (config : Config) :
    Command → String → Layout → Expression → Bool → Prop where
  /-- A document is read from the input; it is laid out as configured unless the command says
  otherwise. -/
  | compile {input text : String} {e : Expression} (dialect : Option String) (compact json : Bool)
      (hinput : Reads s input text) (htext : Expression.decodeText? text = some e) :
      Asks s config (.compile input dialect compact json) (dialect.getD config.dialect)
        (if compact then .compact else config.layout) e json
  /-- A template, whose parameters all assign something, is never laid out compactly. -/
  | template {sql : String} {parameters : List String} {bound : Dictionary Parameter}
      (dialect : Option String) (json : Bool)
      (hassigns : ∀ p ∈ parameters, ∃ name text, Assigns p name text)
      (hbound : BoundBy parameters bound) :
      Asks s config (.template sql parameters dialect json) (dialect.getD config.dialect) .pretty
        (.text ⟨sql, bound⟩) json

/-- What is read from a text has finite floats. -/
theorem finite_of_decodeText? {text : String} {e : Expression}
    (h : Expression.decodeText? text = some e) : e.Finite := by
  obtain ⟨j, hj, he⟩ := Option.bind_eq_some_iff.mp h
  exact (finiteAt Json.textLevels).expression j (Json.finite_of_ofText? hj) e he

/-- What a command is to compile has finite floats. -/
theorem Asks.finite {s : Surroundings} {config : Config} {command : Command} {key : String}
    {layout : Layout} {e : Expression} {json : Bool}
    (h : Asks s config command key layout e json) : e.Finite := by
  cases h with
  | compile _ _ _ _ htext => exact finite_of_decodeText? htext
  | template _ _ _ hbound => exact hbound.finite _

/-- Nothing to read from, and no settings. -/
def bareSurroundings : Surroundings where
  standardInput := none
  configVariable := none
  userConfig := none
  file := fun _ => .missing

/-- Without any file a run has the settings that it starts from. -/
theorem configured_bare : Configured bareSurroundings none none ⟨"ansi", .pretty⟩ := by
  refine .nowhere ⟨rfl, rfl, rfl⟩ ?_ fun name hname => ?_
  · rintro ⟨bytes, hbytes⟩
    cases hbytes
  · cases hname

end CommandLine

end SqlTree
