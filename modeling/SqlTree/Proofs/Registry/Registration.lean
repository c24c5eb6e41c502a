import SqlTree.Proofs.Dictionary
import SqlTree.Proofs.Lists
import SqlTree.Proofs.Text.Trim
import SqlTree.Registry

/-!
# Registrations

Main statement, `Registry.run_registrations`: a registry holds the first valid registration of each
key, and what was in it from the start.

The two maps of a registry are kept alike, so that everything is said of both at once: a kind of
thing has its items (`Registered.Item`), and a registry has entries of each kind.  One call adds to
what is found at most its own item, and only where nothing was found before (`find?_apply`); a run
of calls adds the first valid item of each key (`find?_run`).  What is found determines a registry,
so calls that do not get in each other's way can be made in any order.
-/

namespace SqlTree

/-! ### Calls -/

/-- What is registered under a key. -/
abbrev Registered.Item : Registered → Type
  | dialect => Dialect
  | compiler => AnyCompiler

/-- A call that registers something. -/
structure Registration where
  /-- What is registered. -/
  kind : Registered
  /-- The key. -/
  key : String
  /-- The dialect or the compiler. -/
  item : kind.Item

namespace Registry

/-- The entries of one kind. -/
def entries (r : Registry) : (kind : Registered) → Dictionary kind.Item
  | .dialect => r.dialects
  | .compiler => r.compilers

/-- What is looked up under a key. -/
def lookup (r : Registry) : (kind : Registered) → String → Except Error kind.Item
  | .dialect, key => r.dialect key
  | .compiler, key => r.compiler key

/-- The registry before any call: empty, or with what is built in, in a layout. -/
def start : Option Layout → Registry
  | none => {}
  | some layout => builtIn layout

/-- What is built in under a name. -/
def builtIn? (seed : Option Layout) : (kind : Registered) → String → Option kind.Item
  | .dialect, key => seed.bind fun _ => Dialect.builtIn.find? fun d => d.name == key
  | .compiler, key => seed.bind fun layout =>
    (Dialect.builtIn.find? fun d => d.name == key).map fun d => Compiler.compile ⟨d, layout⟩

end Registry

namespace Registration

/-- The answer to a call, and the registry after it. -/
def apply (r : Registry) : Registration → Except Error Unit × Registry
  | ⟨.dialect, key, d⟩ => r.registerDialect key d
  | ⟨.compiler, key, c⟩ => r.registerCompiler key c

/-- The item of a call of one kind whose trimmed key is `key`. -/
def item? : (kind : Registered) → (key : String) → Registration → Option kind.Item
  | .dialect, key, ⟨.dialect, name, d⟩ => if Text.trimmed name = key then some d else none
  | .compiler, key, ⟨.compiler, name, c⟩ => if Text.trimmed name = key then some c else none
  | .dialect, _, ⟨.compiler, _, _⟩ | .compiler, _, ⟨.dialect, _, _⟩ => none

end Registration

namespace Registry

/-- The registry after some calls. -/
def run (r : Registry) (calls : List Registration) : Registry :=
  calls.foldl (fun r call => (call.apply r).2) r

/-- The calls of a run that succeed. -/
def accepted (r : Registry) : List Registration → List Registration
  | [] => []
  | call :: rest =>
    if (call.apply r).1.isOk then call :: accepted (call.apply r).2 rest
    else accepted (call.apply r).2 rest

/-! ### One call -/

/-- A registry is what it finds: its entries are sorted, so their order tells nothing more. -/
theorem ext_find? {r r' : Registry}
    (h : ∀ kind key, (r.entries kind).find? key = (r'.entries kind).find? key) : r = r' := by
  obtain ⟨dialects, compilers⟩ := r
  obtain ⟨dialects', compilers'⟩ := r'
  obtain rfl : dialects = dialects' := Dictionary.ext_find? (h .dialect)
  obtain rfl : compilers = compilers' := Dictionary.ext_find? (h .compiler)
  rfl

/-- Looking up answers with the item, or with the kind and the key that were not found. -/
theorem lookup_eq (r : Registry) (kind : Registered) (key : String) :
    r.lookup kind key = match (r.entries kind).find? key with
      | some item => .ok item
      | none => .error (.notFound kind key) := by
  cases kind with
  | dialect =>
    dsimp only [lookup, dialect, entries]
    cases r.dialects.find? key <;> rfl
  | compiler =>
    dsimp only [lookup, compiler, entries]
    cases r.compilers.find? key <;> rfl

/-- A registration is refused for a blank key or a taken one and then changes nothing, or its item
is found under its key. -/
theorem register_cases {α : Type} (what : Registered) (entries : Dictionary α) (key : String)
    (item : α) :
    ((Text.isAllBlank key = true ∨ Text.trimmed key ∈ entries.keys) ∧
        ∃ fault, register what entries key item = (.error (.configuration fault), entries)) ∨
      (Text.isAllBlank key = false ∧ Text.trimmed key ∉ entries.keys) ∧
        ∃ entries', register what entries key item = (.ok (), entries') ∧
          ∀ k, entries'.find? k =
            (if Text.trimmed key = k then some item else none).or (entries.find? k) := by
  have hregister : register what entries key item =
      if (Text.trimmed key).isEmpty then (.error (.configuration (.blankKey what)), entries)
      else if entries.contains (Text.trimmed key) then
        (.error (.configuration (.takenKey what (Text.trimmed key))), entries)
      else (.ok (), entries.set (Text.trimmed key) item) := rfl
  rw [hregister, Text.isEmpty_trimmed]
  -- The key is checked before it is looked up.
  cases hblank : Text.isAllBlank key with
  | true => exact .inl ⟨.inl rfl, _, if_pos rfl⟩
  | false =>
    rw [if_neg Bool.false_ne_true]
    cases htaken : entries.contains (Text.trimmed key) with
    | true =>
      have hmem : Text.trimmed key ∈ entries.keys := by
        refine Classical.not_not.mp fun h => ?_
        rw [Dictionary.contains_eq_false_iff.mpr h] at htaken
        cases htaken
      exact .inl ⟨.inr hmem, _, if_pos rfl⟩
    | false =>
      have hfree : Text.trimmed key ∉ entries.keys := Dictionary.contains_eq_false_iff.mp htaken
      refine .inr ⟨⟨rfl, hfree⟩, _, if_neg Bool.false_ne_true, fun k => ?_⟩
      split
      · next heq => rw [← heq, Dictionary.find?_set_self, Option.some_or]
      · next hne => rw [Dictionary.find?_set_of_ne _ _ (Ne.symm hne), Option.none_or]

end Registry

namespace Registration

variable (r : Registry) (call : Registration)

/-- A call is refused and changes nothing, or is accepted and puts its item under its key. -/
theorem apply_cases :
    ((Text.isAllBlank call.key = true ∨ Text.trimmed call.key ∈ (r.entries call.kind).keys) ∧
        ∃ fault, call.apply r = (.error (.configuration fault), r)) ∨
      (Text.isAllBlank call.key = false ∧ Text.trimmed call.key ∉ (r.entries call.kind).keys) ∧
        ∃ r', call.apply r = (.ok (), r') ∧ ∀ kind key, (r'.entries kind).find? key =
          (call.item? kind key).or ((r.entries kind).find? key) := by
  obtain ⟨kind, key, item⟩ := call
  -- Each kind has a map of its own, and the other map is left alone.
  cases kind with
  | dialect =>
    rcases Registry.register_cases .dialect r.dialects key item with
      ⟨hrefused, fault, h⟩ | ⟨haccepted, entries', h, hfind⟩
    · refine .inl ⟨hrefused, fault, ?_⟩
      dsimp only [apply, Registry.registerDialect]
      rw [h]
    · refine .inr ⟨haccepted, { r with dialects := entries' }, ?_, fun other k => ?_⟩
      · dsimp only [apply, Registry.registerDialect]
        rw [h]
      · cases other with
        | dialect => exact hfind k
        | compiler => exact (Option.none_or).symm
  | compiler =>
    rcases Registry.register_cases .compiler r.compilers key item with
      ⟨hrefused, fault, h⟩ | ⟨haccepted, entries', h, hfind⟩
    · refine .inl ⟨hrefused, fault, ?_⟩
      dsimp only [apply, Registry.registerCompiler]
      rw [h]
    · refine .inr ⟨haccepted, { r with compilers := entries' }, ?_, fun other k => ?_⟩
      · dsimp only [apply, Registry.registerCompiler]
        rw [h]
      · cases other with
        | dialect => exact (Option.none_or).symm
        | compiler => exact hfind k

theorem item?_self : call.item? call.kind (Text.trimmed call.key) = some call.item := by
  obtain ⟨kind, key, item⟩ := call
  cases kind <;> exact if_pos rfl

variable {call} {kind : Registered} {key : String}

/-- The item of a call counts for its own kind and trimmed key only. -/
theorem eq_of_item?_ne_none (h : call.item? kind key ≠ none) :
    call.kind = kind ∧ Text.trimmed call.key = key := by
  obtain ⟨own, name, item⟩ := call
  cases kind <;> cases own
  · exact ⟨rfl, Classical.byContradiction fun hne => h (if_neg hne)⟩
  · exact absurd rfl h
  · exact absurd rfl h
  · exact ⟨rfl, Classical.byContradiction fun hne => h (if_neg hne)⟩

/-- The item of a call under a key that is not blank. -/
def valid? (kind : Registered) (key : String) (call : Registration) : Option kind.Item :=
  if key = "" then none else call.item? kind key

/-- A registration is found only under its own kind and key. -/
theorem eq_of_valid?_ne_none (h : call.valid? kind key ≠ none) :
    call.kind = kind ∧ Text.trimmed call.key = key := by
  refine eq_of_item?_ne_none fun hnone => h ?_
  rw [valid?, hnone, ite_self]

variable {r}

/-- Behind an accepted registration its item is found, or what was found before. -/
theorem apply_of_isOk (h : (call.apply r).1.isOk = true) (kind : Registered) (key : String) :
    ((call.apply r).2.entries kind).find? key =
      (call.item? kind key).or ((r.entries kind).find? key) := by
  rcases call.apply_cases r with ⟨-, fault, happly⟩ | ⟨-, r', happly, hfind⟩
  · rw [happly] at h
    cases h
  · rw [happly]
    exact hfind kind key

theorem apply_of_not_isOk (h : (call.apply r).1.isOk = false) : (call.apply r).2 = r := by
  rcases call.apply_cases r with ⟨-, fault, happly⟩ | ⟨-, r', happly, -⟩
  · rw [happly]
  · rw [happly] at h
    cases h

variable (r call)

/-- A call adds at most its own item, where nothing was found before. -/
theorem find?_apply (kind : Registered) (key : String) :
    ((call.apply r).2.entries kind).find? key =
      ((r.entries kind).find? key).or (call.valid? kind key) := by
  cases hitem : call.item? kind key with
  | none =>
    have hvalid : call.valid? kind key = none := by rw [valid?, hitem, ite_self]
    rw [hvalid, Option.or_none]
    rcases call.apply_cases r with ⟨-, fault, happly⟩ | ⟨-, r', happly, hfind⟩
    · rw [happly]
    · rw [happly, hfind, hitem, Option.none_or]
  | some item =>
    -- The item counts, so the call succeeds just when the key is not blank and nothing is found.
    obtain ⟨rfl, rfl⟩ := eq_of_item?_ne_none (hitem ▸ Option.some_ne_none item)
    rcases call.apply_cases r with
      ⟨hblank | htaken, fault, happly⟩ | ⟨⟨hblank, hfree⟩, r', happly, hfind⟩
    · rw [happly, valid?, Text.trimmed_eq_empty hblank, if_pos rfl, Option.or_none]
    · obtain ⟨x, hx⟩ := Dictionary.mem_keys_iff.mp htaken
      rw [happly, hx, Option.some_or]
    · have hnone : (r.entries call.kind).find? (Text.trimmed call.key) = none := by
        refine Option.eq_none_iff_forall_ne_some.mpr fun x hx => hfree ?_
        exact Dictionary.mem_keys_iff.mpr ⟨x, hx⟩
      rw [happly, hfind, hnone, valid?, if_neg (Text.trimmed_ne_empty hblank), Option.or_none,
        Option.none_or]

/-- When a call succeeds, and what it changes. -/
theorem apply_spec :
    let answer := (call.apply r).1
    let r' := (call.apply r).2
    (answer = .ok () ↔ Text.isAllBlank call.key = false ∧
        Text.trimmed call.key ∉ (r.entries call.kind).keys) ∧
      (∀ e, answer = .error e → (∃ fault, e = .configuration fault) ∧ r' = r) ∧
      (answer = .ok () →
        (r'.entries call.kind).find? (Text.trimmed call.key) = some call.item ∧
          ∀ kind key, (kind, key) ≠ (call.kind, Text.trimmed call.key) →
            (r'.entries kind).find? key = (r.entries kind).find? key) := by
  intro answer r'
  rcases call.apply_cases r with ⟨hrefused, fault, happly⟩ | ⟨haccepted, after, happly, hfind⟩
  · have hanswer : answer = .error (.configuration fault) := congrArg Prod.fst happly
    have hr' : r' = r := congrArg Prod.snd happly
    rw [hanswer]
    refine ⟨iff_of_false (fun h => ?_) fun h => ?_, fun e he => ?_, fun h => ?_⟩
    · cases h
    · rcases hrefused with hblank | htaken
      · exact Bool.false_ne_true (h.1.symm.trans hblank)
      · exact h.2 htaken
    · exact ⟨⟨fault, (Except.error.inj he).symm⟩, hr'⟩
    · cases h
  · have hanswer : answer = .ok () := congrArg Prod.fst happly
    have hr' : r' = after := congrArg Prod.snd happly
    rw [hanswer, hr']
    refine ⟨iff_of_true rfl haccepted, fun e he => ?_, fun _ => ⟨?_, fun kind key hne => ?_⟩⟩
    · cases he
    · rw [hfind, call.item?_self, Option.some_or]
    · rw [hfind]
      cases hitem : call.item? kind key with
      | none => exact Option.none_or
      | some item =>
        obtain ⟨rfl, rfl⟩ := eq_of_item?_ne_none (hitem ▸ Option.some_ne_none item)
        exact absurd rfl hne

end Registration

namespace Registry

/-! ### Runs -/

/-- A run adds the first valid item of each key, where nothing was found before. -/
theorem find?_run (r : Registry) (calls : List Registration) (kind : Registered) (key : String) :
    ((run r calls).entries kind).find? key =
      ((r.entries kind).find? key).or (calls.findSome? (·.valid? kind key)) := by
  induction calls generalizing r with
  | nil => exact (Option.or_none).symm
  | cons call rest ih =>
    show ((run (call.apply r).2 rest).entries kind).find? key = _
    rw [ih, call.find?_apply, Option.or_assoc, List.findSome?_cons]
    cases call.valid? kind key <;> rfl

/-- What a run adds is the items of the calls that succeed. -/
theorem find?_run_accepted (r : Registry) (calls : List Registration) (kind : Registered)
    (key : String) :
    ((run r calls).entries kind).find? key =
      ((accepted r calls).findSome? (·.item? kind key)).or ((r.entries kind).find? key) := by
  induction calls generalizing r with
  | nil => rfl
  | cons call rest ih =>
    show ((run (call.apply r).2 rest).entries kind).find? key = _
    rw [accepted]
    cases hok : (call.apply r).1.isOk with
    | false =>
      rw [if_neg Bool.false_ne_true, ih, Registration.apply_of_not_isOk hok]
    | true =>
      have happly := Registration.apply_of_isOk hok kind key
      rw [if_pos rfl, List.findSome?_cons]
      cases hitem : call.item? kind key with
      | none =>
        rw [ih, happly, hitem, Option.none_or]
      | some item =>
        -- What the call has put in its place stays there.
        rw [find?_run, happly, hitem]
        rfl

/-- Calls under different keys can be made in any order. -/
theorem run_perm (r : Registry) {calls calls' : List Registration} (hperm : calls.Perm calls')
    (hdistinct : calls.Pairwise fun a b =>
      a.kind = b.kind → Text.trimmed a.key ≠ Text.trimmed b.key) :
    run r calls' = run r calls := by
  refine ext_find? fun kind key => ?_
  have hone : calls.Pairwise fun a b => a.valid? kind key = none ∨ b.valid? kind key = none := by
    refine hdistinct.imp fun {a b} hab => ?_
    refine Classical.or_iff_not_imp_left.mpr fun ha => Classical.byContradiction fun hb => ?_
    obtain ⟨hakind, hakey⟩ := Registration.eq_of_valid?_ne_none ha
    obtain ⟨hbkind, hbkey⟩ := Registration.eq_of_valid?_ne_none hb
    exact hab (hakind.trans hbkind.symm) (hakey.trans hbkey.symm)
  rw [find?_run, find?_run, findSome?_perm hperm hone]

/-! ### What is built in -/

/-- Looking up by name finds the first dialect of this name. -/
theorem lookup_named {α : Type} (f : Dialect → α) (l : List Dialect) (key : String) :
    (l.map fun d => (d.name, f d)).lookup key = (l.find? fun d => d.name == key).map f := by
  induction l with
  | nil => rfl
  | cons d rest ih =>
    rw [List.map_cons, List.lookup_cons, List.find?_cons, BEq.comm, ih]
    cases d.name == key <;> rfl

/-- At the start the built-in items are found, and nothing else. -/
theorem find?_start (seed : Option Layout) (kind : Registered) (key : String) :
    ((start seed).entries kind).find? key = builtIn? seed kind key := by
  have hnames {α : Type} (f : Dialect → α) :
      ((Dialect.builtIn.map fun d => (d.name, f d)).map (·.1)).Nodup := by
    rw [List.map_map]
    show (Dialect.builtIn.map Dialect.name).Nodup
    decide
  -- Without built-in items both maps are empty.
  cases seed with
  | none => cases kind <;> rfl
  | some layout =>
    cases kind with
    | dialect =>
      show (Dictionary.ofList (Dialect.builtIn.map fun d => (d.name, d))).find? key = _
      rw [Dictionary.find?_ofList (hnames fun d => d), lookup_named fun d => d, Option.map_id']
      rfl
    | compiler =>
      show (Dictionary.ofList (Dialect.builtIn.map fun d =>
        (d.name, Compiler.compile ⟨d, layout⟩))).find? key = _
      rw [Dictionary.find?_ofList (hnames fun d => Compiler.compile ⟨d, layout⟩), lookup_named]
      rfl

/-- Every key under which something is found is trimmed. -/
theorem trimmed_of_find? {seed : Option Layout} {calls : List Registration} {kind : Registered}
    {key : String} {item : kind.Item}
    (h : ((run (start seed) calls).entries kind).find? key = some item) :
    Text.trimmed key = key := by
  rw [find?_run, find?_start] at h
  -- An item was there at the start, or it was registered.
  rcases Option.or_eq_some_iff.mp h with hbuilt | ⟨-, hcall⟩
  · have hname : ∀ d ∈ Dialect.builtIn, Text.trimmed d.name = d.name := by decide
    obtain ⟨d, hd⟩ : ∃ d, Dialect.builtIn.find? (fun d => d.name == key) = some d := by
      cases kind with
      | dialect =>
        obtain ⟨_, _, hfound⟩ := Option.bind_eq_some_iff.mp hbuilt
        exact ⟨item, hfound⟩
      | compiler =>
        obtain ⟨_, _, hfound⟩ := Option.bind_eq_some_iff.mp hbuilt
        obtain ⟨d, hd, -⟩ := Option.map_eq_some_iff.mp hfound
        exact ⟨d, hd⟩
    obtain rfl : d.name = key :=
      beq_iff_eq.mp (List.find?_some (p := fun d : Dialect => d.name == key) hd)
    exact hname d (List.mem_of_find?_eq_some hd)
  · obtain ⟨call, -, hvalid⟩ := List.exists_of_findSome?_eq_some hcall
    obtain ⟨-, rfl⟩ := Registration.eq_of_valid?_ne_none (hvalid ▸ Option.some_ne_none item)
    exact Text.trimmed_trimmed _

/-- **A registry holds the first valid registration of each key.** Start from nothing or from what
is built in, and make any calls.  A call succeeds just when its key is not blank and, trimmed, not
taken in its own map; else it is refused as a matter of configuration and changes nothing.  A call
that succeeds puts its item under its trimmed key and changes nothing else.  Afterwards a key leads
to the item of the first call that succeeded with it, or to what is built in, or to an error that
names it, as does every key with a blank end.  The keys are those of the compilers in increasing
order, and compiling under a key is what its compiler does.  Calls with different trimmed keys give
the same registry in any order. -/
theorem run_registrations (seed : Option Layout) (calls : List Registration) :
    (∀ front call rest, calls = front ++ call :: rest →
      let r := run (start seed) front
      let answer := (call.apply r).1
      let r' := (call.apply r).2
      (answer = .ok () ↔ Text.isAllBlank call.key = false ∧
          Text.trimmed call.key ∉ (r.entries call.kind).keys) ∧
        (∀ e, answer = .error e → (∃ fault, e = .configuration fault) ∧ r' = r) ∧
        (answer = .ok () →
          (r'.entries call.kind).find? (Text.trimmed call.key) = some call.item ∧
            ∀ kind key, (kind, key) ≠ (call.kind, Text.trimmed call.key) →
              (r'.entries kind).find? key = (r.entries kind).find? key)) ∧
      let built := run (start seed) calls
      (∀ kind key, built.lookup kind key =
          match ((accepted (start seed) calls).findSome? (·.item? kind key)).or
              (builtIn? seed kind key) with
            | some item => .ok item
            | none => .error (.notFound kind key)) ∧
        (∀ kind key, Text.trimmed key ≠ key →
          built.lookup kind key = .error (.notFound kind key)) ∧
        (built.keys.Pairwise (· < ·) ∧ ∀ key, key ∈ built.keys ↔ ∃ c, built.compiler key = .ok c) ∧
        (∀ key e, built.compile key e =
          match built.compiler key with
            | .ok c => c e
            | .error fault => .error fault) ∧
        ∀ calls', calls.Perm calls' →
          calls.Pairwise (fun a b => a.kind = b.kind → Text.trimmed a.key ≠ Text.trimmed b.key) →
            run (start seed) calls' = built := by
  refine ⟨fun front call rest _ => ?_, fun kind key => ?_, fun kind key hkey => ?_, ⟨?_, ?_⟩,
    fun key e => ?_, fun calls' hperm hdistinct => run_perm _ hperm hdistinct⟩
  · exact call.apply_spec _
  · rw [lookup_eq, find?_run_accepted, find?_start]
  · rw [lookup_eq]
    cases hfound : ((run (start seed) calls).entries kind).find? key with
    | none => rfl
    | some item => exact absurd (trimmed_of_find? hfound) hkey
  · exact Dictionary.pairwise_keys _
  · intro key
    have hlookup := lookup_eq (run (start seed) calls) .compiler key
    show key ∈ (run (start seed) calls).compilers.keys ↔
      ∃ c, (run (start seed) calls).lookup .compiler key = .ok c
    rw [hlookup, Dictionary.mem_keys_iff]
    show (∃ c, ((run (start seed) calls).entries .compiler).find? key = some c) ↔ _
    cases ((run (start seed) calls).entries .compiler).find? key with
    | none => simp
    | some c => simp
  · unfold compile
    cases (run (start seed) calls).compiler key <;> rfl

/-- A key that needs trimming and a key that is built in, in both orders. -/
theorem run_registrations_trimmed :
    let calls : List Registration :=
      [⟨.compiler, " x ", Compiler.compile ⟨.ansi, .compact⟩⟩, ⟨.dialect, "ansi", .mysql⟩]
    let built := run (start (some .pretty)) calls
    built.lookup .compiler "x" = .ok (Compiler.compile ⟨.ansi, .compact⟩) ∧
      built.lookup .dialect "ansi" = .ok .ansi ∧
      built.lookup .compiler " x " = .error (.notFound .compiler " x ") ∧
      run (start (some .pretty)) calls.reverse = built := by
  intro calls built
  obtain ⟨-, hfound, htrimmed, -, -, hperm⟩ := run_registrations (some .pretty) calls
  refine ⟨(hfound .compiler "x").trans rfl, (hfound .dialect "ansi").trans rfl,
    htrimmed .compiler " x " (by decide), hperm _ calls.reverse_perm.symm ?_⟩
  refine List.pairwise_pair.mpr fun hkind => ?_
  cases hkind

end Registry

end SqlTree
