import SqlTree.Proofs.Template.Grammar

/-!
# The fault that a template reports

Main statement, `compileTemplate_leftmost_fault`: a template that is not blank fails just when it
has a faulty placeholder, and the error is that of the leftmost one, whatever stands behind it and
whatever else is declared.

`Faulty` says what is wrong with one placeholder by itself, and `LeftmostFault` that the
placeholders in front of it are declared.  A run copies and binds up to there
(`scan_in_front`) and stops (`LeftmostFault.scan_eq`); a template without such a placeholder has a
cut along which it compiles (`exists_leftmostFault`).
-/

namespace SqlTree.Template

open Draft (text concat argument)

/-! ### Placeholders by themselves -/

/-- The identifier of a placeholder, given what stands behind its opening brace: it ends at the next
closing brace, and there is none if the placeholder is never closed. -/
def identifier? (behind : List Char) : Option (List Char) :=
  if closeBrace ∈ behind then some (behind.takeWhile (· != closeBrace)) else none

/-- The name that an identifier spells. -/
def nameOf (identifier : List Char) : String := String.ofList (Text.trim identifier)

/-- An identifier that names a declared parameter. -/
def Declared (parameters : Dictionary Parameter) (identifier : List Char) : Prop :=
  nameOf identifier ≠ "" ∧ parameters.contains (nameOf identifier) = true

instance (parameters : Dictionary Parameter) (identifier : List Char) :
    Decidable (Declared parameters identifier) :=
  inferInstanceAs (Decidable (_ ∧ _))

/-- The error that is due to the identifier of one placeholder, with the offset of its brace. -/
inductive Faulty (parameters : Dictionary Parameter) (offset : Nat) :
    Option (List Char) → Error → Prop
  /-- The placeholder is never closed. -/
  | neverClosed : Faulty parameters offset none (.malformedTemplate offset .neverClosed)
  /-- Its identifier is blank. -/
  | unnamed {identifier : List Char} (hname : nameOf identifier = "") :
    Faulty parameters offset (some identifier) (.malformedTemplate offset .unnamed)
  /-- Its name is not declared. -/
  | undeclared {identifier : List Char} (hname : nameOf identifier ≠ "")
    (hparameters : parameters.contains (nameOf identifier) = false) :
    Faulty parameters offset (some identifier) (.unknownParameter (nameOf identifier))

/-- A template with a faulty placeholder behind a cut: the literals and placeholders of the cut
stand in front of its brace, and these placeholders are closed and name declared parameters.  The
offset of the brace is the number of bytes in front of it. -/
structure LeftmostFault (t : Template) (c : Cut) (behind : List Char) (e : Error) : Prop where
  /-- The cut, the brace and what stands behind it are the text. -/
  sql : t.sql.toList = c.text ++ openBrace :: behind
  /-- Every placeholder starts at the first opening brace and ends at the first closing one. -/
  proper : c.Proper
  /-- The placeholders in front have no fault. -/
  declared : ∀ h ∈ c.holes, Declared t.parameters h.identifier
  /-- The placeholder behind the cut has one. -/
  faulty : Faulty t.parameters (String.ofList c.text).utf8ByteSize (identifier? behind) e

variable {parameters : Dictionary Parameter} {d : Dialect}

theorem identifier?_of_notMem {behind : List Char} (h : closeBrace ∉ behind) :
    identifier? behind = none := if_neg h

/-- An identifier goes up to the first closing brace. -/
theorem identifier?_append {identifier : List Char} (h : closeBrace ∉ identifier)
    (rest : List Char) : identifier? (identifier ++ closeBrace :: rest) = some identifier := by
  have hmem : closeBrace ∈ identifier ++ closeBrace :: rest :=
    List.mem_append_right _ List.mem_cons_self
  have hne : ∀ c ∈ identifier, (c != closeBrace) = true :=
    fun c hc => bne_iff_ne.mpr fun heq => h (heq ▸ hc)
  have hstop : (closeBrace :: rest).takeWhile (· != closeBrace) = [] := by
    rw [List.takeWhile_cons, bne_self_eq_false]
    rfl
  rw [identifier?, if_pos hmem, List.takeWhile_append_of_pos hne, hstop, List.append_nil]

/-- A placeholder is closed by the first closing brace, or by none. -/
theorem identifier?_cases (behind : List Char) :
    (identifier? behind = none ∧ closeBrace ∉ behind) ∨
      ∃ identifier rest, identifier? behind = some identifier ∧ closeBrace ∉ identifier ∧
        behind = identifier ++ closeBrace :: rest := by
  by_cases h : closeBrace ∈ behind
  · obtain ⟨identifier, rest, rfl, hidentifier⟩ := List.eq_append_cons_of_mem h
    exact Or.inr ⟨identifier, rest, identifier?_append hidentifier rest, hidentifier, rfl⟩
  · exact Or.inl ⟨identifier?_of_notMem h, h⟩

/-- A placeholder that is closed is resolved, or it has a fault. -/
theorem declared_or_faulty (parameters : Dictionary Parameter) (offset : Nat)
    (identifier : List Char) :
    Declared parameters identifier ∨ ∃ e, Faulty parameters offset (some identifier) e := by
  by_cases hname : nameOf identifier = ""
  · exact Or.inr ⟨_, .unnamed hname⟩
  · cases hparameters : parameters.contains (nameOf identifier) with
    | true => exact Or.inl ⟨hname, hparameters⟩
    | false => exact Or.inr ⟨_, .undeclared hname hparameters⟩

theorem Declared.exists_resolves {h : Hole} (hdeclared : Declared parameters h.identifier) :
    ∃ p, h.Resolves parameters p := by
  obtain ⟨p, hp⟩ := Option.isSome_iff_exists.mp hdeclared.2
  exact ⟨p, hdeclared.1, hp⟩

/-- What is wrong with a placeholder does not depend on parameters of other names. -/
theorem Faulty.congr {parameters' : Dictionary Parameter} {offset : Nat}
    {identifier : Option (List Char)} {e : Error} (h : Faulty parameters offset identifier e)
    (hagree : ∀ i ∈ identifier,
      parameters'.contains (nameOf i) = parameters.contains (nameOf i)) :
    Faulty parameters' offset identifier e := by
  cases h with
  | neverClosed => exact .neverClosed
  | unnamed hname => exact .unnamed hname
  | undeclared hname hparameters => exact .undeclared hname ((hagree _ rfl).trans hparameters)

/-! ### Runs up to a fault -/

/-- Offsets are counted in bytes of UTF-8. -/
theorem byteLength_eq (cs : List Char) : byteLength cs = (String.ofList cs).utf8ByteSize := by
  induction cs with
  | nil => rfl
  | cons c rest ih =>
    rw [String.ofList_cons, String.utf8ByteSize_append, String.utf8ByteSize_singleton, ← ih]
    rfl

theorem sound_copied (cs : List Char) : (copied cs).Sound := by
  induction cs with
  | nil => trivial
  | cons c cs ih => exact Draft.sound_append.mpr ⟨trivial, ih⟩

/-- A closed placeholder with a fault, as a draft. -/
theorem placeholder_faulty {offset : Nat} {identifier : List Char} {e : Error}
    (h : Faulty parameters offset (some identifier) e) :
    placeholder parameters offset identifier = .fault e := by
  have hname : String.ofList (Text.trim identifier) = nameOf identifier := rfl
  simp only [placeholder, hname]
  cases h with
  | unnamed hname => rw [if_pos (String.isEmpty_iff.mpr hname)]
  | undeclared hname hparameters =>
    have hfind : parameters.find? (nameOf identifier) = none :=
      Option.isSome_eq_false_iff.mp hparameters |> Option.isNone_iff_eq_none.mp
    rw [if_neg (mt String.isEmpty_iff.mp hname), hfind]

/-- A run stops at a faulty placeholder. -/
theorem scan_faulty {offset : Nat} {behind : List Char} {e : Error}
    (h : Faulty parameters offset (identifier? behind) e) :
    scan parameters offset none (openBrace :: behind) = .fault e := by
  rcases identifier?_cases behind with
    ⟨hnone, hclose⟩ | ⟨identifier, rest, hsome, hclose, hbehind⟩
  · rw [hnone] at h
    cases h
    exact scan_unclosed hclose offset
  · rw [hsome] at h
    have hhole : openBrace :: behind = Hole.text ⟨[], identifier⟩ ++ rest := by
      rw [hbehind]
      simp only [Hole.text, List.nil_append, List.cons_append, List.append_assoc]
    rw [hhole, scan_hole List.not_mem_nil hclose, byteLength, Nat.add_zero, placeholder_faulty h]
    rfl

/-- A run along declared placeholders goes on behind them. -/
theorem scan_in_front {c : Cut} (hc : c.Proper)
    (hdeclared : ∀ h ∈ c.holes, Declared parameters h.identifier) (offset : Nat)
    (rest : List Char) :
    ∃ x : Draft, x.Sound ∧ scan parameters offset none (c.text ++ rest) =
      x ++ scan parameters (offset + byteLength c.text) none rest := by
  obtain ⟨holes, last⟩ := c
  -- The induction follows the holes in front of the fault, and the offset moves on with them.
  induction holes generalizing offset with
  | nil => exact ⟨copied last, sound_copied last, scan_literal hc.last offset rest⟩
  | cons hole holes ih =>
    obtain ⟨hliteral, hidentifier, hholes⟩ := Cut.proper_cons_iff.mp hc
    obtain ⟨hhole, hdeclared⟩ := List.forall_mem_cons.mp hdeclared
    obtain ⟨p, hp⟩ := hhole.exists_resolves
    obtain ⟨x, hx, hscan⟩ := ih (offset + byteLength hole.text) hholes hdeclared
    refine ⟨copied hole.literal ++ (argument (some hole.name) p.value ++ x), ?_, ?_⟩
    · exact Draft.sound_append.mpr
        ⟨sound_copied _, Draft.sound_append.mpr ⟨trivial, hx⟩⟩
    · have hlength : offset + byteLength hole.text + byteLength (Cut.text ⟨holes, last⟩) =
          offset + byteLength (Cut.text ⟨hole :: holes, last⟩) := by
        rw [Cut.text_cons, byteLength_append, Nat.add_assoc]
      rw [Cut.text_cons, List.append_assoc, scan_hole hliteral hidentifier, placeholder_eq hp,
        hscan, ← Cut.text_cons, hlength, Draft.append_assoc, Draft.append_assoc]

theorem sound_append_fault {x : Draft} (hx : x.Sound) (e : Error) :
    x ++ Draft.fault e = .fault e := by
  cases x with
  | pieces l => rfl
  | fault e => exact hx.elim

namespace LeftmostFault

variable {t : Template} {c : Cut} {behind : List Char} {e : Error}

/-- The scan ends with the leftmost fault, whatever comes behind it. -/
theorem scan_eq (h : LeftmostFault t c behind e) :
    scan t.parameters 0 none t.sql.toList = .fault e := by
  obtain ⟨x, hx, hscan⟩ := scan_in_front h.proper h.declared 0 (openBrace :: behind)
  have hfaulty := h.faulty
  rw [← byteLength_eq] at hfaulty
  rw [h.sql, hscan, Nat.zero_add, scan_faulty hfaulty, sound_append_fault hx]

/-- A brace is not blank, so neither is a template that has one. -/
theorem isAllBlank_sql (h : LeftmostFault t c behind e) : Text.isAllBlank t.sql = false := by
  rw [Text.isAllBlank, h.sql, List.all_append, List.all_cons]
  have hbrace : Text.isBlank openBrace = false := by decide
  rw [hbrace, Bool.false_and, Bool.and_false]

theorem compileTemplate_eq (h : LeftmostFault t c behind e) (d : Dialect) :
    compileTemplate d t = .error e := by
  rw [compileTemplate, draft_of_not_blank h.isAllBlank_sql, h.scan_eq]
  rfl

/-- A fault stays the leftmost one, and the same, if the text changes behind its placeholder and
other parameters are declared. -/
theorem congr {t' : Template} {behind' : List Char} (h : LeftmostFault t c behind e)
    (hsql : t'.sql.toList = c.text ++ openBrace :: behind')
    (hidentifier : identifier? behind' = identifier? behind)
    (hagree : ∀ i ∈ c.holes.map Hole.identifier ++ (identifier? behind).toList,
      t'.parameters.contains (nameOf i) = t.parameters.contains (nameOf i)) :
    LeftmostFault t' c behind' e where
  sql := hsql
  proper := h.proper
  declared hole hmem := by
    obtain ⟨hname, hparameters⟩ := h.declared hole hmem
    have hfront := hagree _ (List.mem_append_left _ (List.mem_map_of_mem hmem))
    exact ⟨hname, hfront.trans hparameters⟩
  faulty := by
    rw [hidentifier]
    refine h.faulty.congr fun i hi => hagree i ?_
    exact List.mem_append_right _ (Option.mem_toList.mpr hi)

end LeftmostFault

/-! ### The leftmost fault -/

/-- The part of a proper cut in front of a placeholder, with the literal of that placeholder as its
last one. -/
theorem Cut.Proper.front {front rest : List Hole} {h : Hole} {last : List Char}
    (hc : Cut.Proper ⟨front ++ h :: rest, last⟩) : Cut.Proper ⟨front, h.literal⟩ where
  literals := fun x hx => hc.literals x (List.mem_append_left _ hx)
  identifiers := fun x hx => hc.identifiers x (List.mem_append_left _ hx)
  last := hc.literals h (List.mem_append_right _ List.mem_cons_self)

/-- A text cut at one of its holes. -/
theorem Cut.text_split (front rest : List Hole) (h : Hole) (last : List Char) :
    Cut.text ⟨front ++ h :: rest, last⟩ = Cut.text ⟨front, h.literal⟩ ++
      openBrace :: (h.identifier ++ closeBrace :: Cut.text ⟨rest, last⟩) := by
  simp only [Cut.text, Hole.text, List.flatMap_append, List.flatMap_cons, List.append_assoc,
    List.cons_append, List.nil_append]

/-- A template is cut into literals and declared placeholders, or it has a leftmost fault. -/
theorem exists_leftmostFault (t : Template) :
    (∃ c : Cut, c.Cuts t.sql.toList ∧ ∀ h ∈ c.holes, Declared t.parameters h.identifier) ∨
      ∃ c behind e, LeftmostFault t c behind e := by
  obtain ⟨⟨holes, last⟩, tail, hproper, hsql, htail⟩ := exists_proper_cut t.sql.toList
  -- Either every placeholder that is closed is declared, or there is a first one that is not.
  cases hfirst : holes.find? fun h => !decide (Declared t.parameters h.identifier) with
  | none =>
    have hall : ∀ h ∈ holes, Declared t.parameters h.identifier := by
      simpa only [Bool.not_eq_true', decide_eq_false_iff_not, not_not] using
        List.find?_eq_none.mp hfirst
    rcases htail with rfl | ⟨identifier, hidentifier, rfl⟩
    · exact Or.inl ⟨⟨holes, last⟩, ⟨hproper, by rw [hsql, List.append_nil]⟩, hall⟩
    · have hfaulty (offset : Nat) : Faulty t.parameters offset (identifier? identifier)
          (.malformedTemplate offset .neverClosed) := by
        rw [identifier?_of_notMem hidentifier]
        exact .neverClosed
      exact Or.inr ⟨⟨holes, last⟩, identifier, _, hsql, hproper, hall, hfaulty _⟩
  | some h =>
    obtain ⟨hh, front, rest, rfl, hfront⟩ := List.find?_eq_some_iff_append.mp hfirst
    simp only [Bool.not_not, Bool.not_eq_true', decide_eq_true_eq, decide_eq_false_iff_not]
      at hh hfront
    have hidentifier : closeBrace ∉ h.identifier :=
      hproper.identifiers h (List.mem_append_right _ List.mem_cons_self)
    obtain ⟨e, he⟩ := (declared_or_faulty t.parameters
      (String.ofList (Cut.text ⟨front, h.literal⟩)).utf8ByteSize h.identifier).resolve_left hh
    refine Or.inr ⟨⟨front, h.literal⟩,
      h.identifier ++ closeBrace :: (Cut.text ⟨rest, last⟩ ++ tail), e, ?_, hproper.front, hfront,
      ?_⟩
    · rw [hsql, Cut.text_split]
      simp only [List.append_assoc, List.cons_append]
    · rw [identifier?_append hidentifier]
      exact he

/-- A template cut into literals and declared placeholders has no fault. -/
theorem sound_scan_of_declared {c : Cut} {cs : List Char} (hc : c.Cuts cs)
    (h : ∀ x ∈ c.holes, Declared parameters x.identifier) :
    (scan parameters 0 none cs).Sound := by
  obtain ⟨x, hx, hscan⟩ := scan_in_front hc.1 h 0 []
  rw [List.append_nil, hc.2] at hscan
  rw [hscan]
  exact Draft.sound_append.mpr ⟨hx, trivial⟩

/-- **A failing template reports its leftmost fault.** A blank template is an invalid argument.  Any
other template fails just when, behind literals and placeholders that name declared parameters, it
has a placeholder that is never closed, that is blank or whose name is not declared; the error says
which, with the offset of the brace in bytes or with the name.  What stands behind the placeholder,
and parameters of other names, do not change it. -/
theorem compileTemplate_leftmost_fault (d : Dialect) (t : Template) (e : Error) :
    (compileTemplate d t = .error e ↔
      (Text.isAllBlank t.sql = true ∧ e = .invalidArgument .emptyTemplate) ∨
      (Text.isAllBlank t.sql = false ∧ ∃ c behind, LeftmostFault t c behind e)) ∧
      ∀ (c : Cut) (behind : List Char), LeftmostFault t c behind e →
        ∀ (d' : Dialect) (t' : Template) (behind' : List Char),
          t'.sql.toList = c.text ++ openBrace :: behind' →
          identifier? behind' = identifier? behind →
          (∀ i ∈ c.holes.map Hole.identifier ++ (identifier? behind).toList,
            t'.parameters.contains (nameOf i) = t.parameters.contains (nameOf i)) →
          compileTemplate d' t' = .error e := by
  constructor
  -- A template that is blank is refused before it is scanned.
  · cases hblank : Text.isAllBlank t.sql with
    | true =>
      have hcompile : compileTemplate d t = .error (.invalidArgument .emptyTemplate) := by
        rw [compileTemplate, draft, if_pos hblank]
        rfl
      rw [hcompile]
      simp [eq_comm]
    | false =>
      simp only [Bool.false_eq_true, false_and, true_and, false_or]
      constructor
      · intro herror
        rcases exists_leftmostFault t with ⟨c, hcut, hdeclared⟩ | ⟨c, behind, e', hfault⟩
        · -- Without a fault the template would compile.
          have hsound := sound_scan_of_declared hcut hdeclared
          rw [compileTemplate, draft_of_not_blank hblank] at herror
          cases hscan : scan t.parameters 0 none t.sql.toList with
          | pieces l =>
            rw [hscan] at herror
            cases herror
          | fault e' =>
            rw [hscan] at hsound
            exact hsound.elim
        · rw [hfault.compileTemplate_eq d] at herror
          cases herror
          exact ⟨c, behind, hfault⟩
      · rintro ⟨c, behind, hfault⟩
        exact hfault.compileTemplate_eq d
  · intro c behind hfault d' t' behind' hsql hidentifier hagree
    exact (hfault.congr hsql hidentifier hagree).compileTemplate_eq d'

/-- The offset counts bytes, and what stands further right does not count. -/
theorem compileTemplate_leftmost_fault_bytes :
    let t : Template := {
      sql := "é \x7bn\x7d\x7b \x7d\x7b"
      parameters := .ofList [("n", { name := "n" })] }
    let t' : Template := {
      sql := "é \x7bn\x7d\x7b \x7d\x7b\x7d"
      parameters := .ofList [("n", { name := "n", value := .int 1 }), ("m", { name := "m" })] }
    compileTemplate .ansi t = .error (.malformedTemplate 6 .unnamed) ∧
      compileTemplate .postgres t' = .error (.malformedTemplate 6 .unnamed) := by
  intro t t'
  let c : Cut := { holes := [⟨['é', ' '], ['n']⟩], last := [] }
  have hproper : c.Proper := ⟨by decide, by decide, by decide⟩
  have hfault : LeftmostFault t c [' ', closeBrace, openBrace] (.malformedTemplate 6 .unnamed) :=
    ⟨by decide, hproper, by decide, .unnamed (by decide)⟩
  have h := compileTemplate_leftmost_fault .ansi t (.malformedTemplate 6 .unnamed)
  exact ⟨h.1.mpr (Or.inr ⟨by decide, c, _, hfault⟩),
    h.2 c _ hfault .postgres t' [' ', closeBrace, openBrace, closeBrace] (by decide) (by decide)
      (by decide)⟩

end SqlTree.Template
