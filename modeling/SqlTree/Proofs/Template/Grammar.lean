import Mathlib.Data.List.Forall2
import SqlTree.Dialect.BuiltIn
import SqlTree.Proofs.Placeholder.Filled
import SqlTree.Proofs.Template.Cut

/-!
# What a template is compiled to

Main statement, `compileTemplate_cut`: a template that is not blank compiles just when it has a
proper cut whose identifiers name declared parameters; then every literal is copied and every
placeholder bound to its parameter.

The scanner is a state machine over characters.  Over a literal it copies, over an identifier it
collects, and so over a whole placeholder it does what `scan_hole` says.  Along a proper cut a run
is these steps one after another: it has a fault if some identifier does not resolve
(`exists_resolved`), and otherwise prints the fragments of the cut (`prints_scan`).
-/

namespace SqlTree.Template

open Draft (text concat argument addTo)

/-! ### Steps of the scanner -/

/-- The number of bytes of a text. -/
def byteLength : List Char → Nat
  | [] => 0
  | c :: cs => c.utf8Size + byteLength cs

theorem byteLength_append (cs ds : List Char) :
    byteLength (cs ++ ds) = byteLength cs + byteLength ds := by
  induction cs with
  | nil => exact (Nat.zero_add _).symm
  | cons c cs ih => rw [List.cons_append, byteLength, byteLength, ih, Nat.add_assoc]

/-- Characters copied one by one. -/
def copied (cs : List Char) : Draft := concat (cs.map fun c => text (String.singleton c))

variable {parameters : Dictionary Parameter} {d : Dialect}

/-- Outside braces everything is copied. -/
theorem scan_literal {literal : List Char} (h : openBrace ∉ literal) (offset : Nat)
    (rest : List Char) :
    scan parameters offset none (literal ++ rest) =
      copied literal ++ scan parameters (offset + byteLength literal) none rest := by
  induction literal generalizing offset with
  | nil => exact (Draft.empty_append _).symm
  | cons c literal ih =>
    obtain ⟨hc, hliteral⟩ := not_or.mp (mt List.mem_cons.mpr h)
    have hlength : offset + byteLength (c :: literal) =
        offset + c.utf8Size + byteLength literal := by
      rw [byteLength, Nat.add_assoc]
    rw [List.cons_append, scan, if_neg (Ne.symm hc), ih hliteral, hlength, ← Draft.append_assoc]
    rfl

/-- Between braces everything is collected. -/
theorem scan_identifier {identifier : List Char} (h : closeBrace ∉ identifier)
    (offset start : Nat) (name rest : List Char) :
    scan parameters offset (some (start, name)) (identifier ++ rest) =
      scan parameters (offset + byteLength identifier) (some (start, identifier.reverse ++ name))
        rest := by
  induction identifier generalizing offset name with
  | nil => rfl
  | cons c identifier ih =>
    obtain ⟨hc, hidentifier⟩ := not_or.mp (mt List.mem_cons.mpr h)
    have hlength : offset + byteLength (c :: identifier) =
        offset + c.utf8Size + byteLength identifier := by
      rw [byteLength, Nat.add_assoc]
    rw [List.cons_append, scan, if_neg (Ne.symm hc), ih hidentifier, hlength, List.reverse_cons,
      List.append_assoc]
    rfl

/-- A literal is copied, and the placeholder behind it is resolved at the offset of its brace. -/
theorem scan_hole {h : Hole} (hliteral : openBrace ∉ h.literal)
    (hidentifier : closeBrace ∉ h.identifier) (offset : Nat) (rest : List Char) :
    scan parameters offset none (h.text ++ rest) =
      copied h.literal ++
        (placeholder parameters (offset + byteLength h.literal) h.identifier ++
          scan parameters (offset + byteLength h.text) none rest) := by
  have hlength : offset + byteLength h.text =
      offset + byteLength h.literal + openBrace.utf8Size + byteLength h.identifier +
        closeBrace.utf8Size := by
    simp only [Hole.text, byteLength_append, byteLength]
    omega
  have htext : h.text ++ rest = h.literal ++ openBrace :: (h.identifier ++ closeBrace :: rest) := by
    simp only [Hole.text, List.append_assoc, List.cons_append, List.nil_append]
  rw [htext, scan_literal hliteral, scan, if_pos rfl, scan_identifier hidentifier, scan,
    if_pos rfl, List.append_nil, List.reverse_reverse, hlength]

/-- An opening brace that is never closed is a fault. -/
theorem scan_unclosed {identifier : List Char} (h : closeBrace ∉ identifier) (offset : Nat) :
    scan parameters offset none (openBrace :: identifier) =
      .fault (.malformedTemplate offset .neverClosed) := by
  rw [scan, if_pos rfl, ← List.append_nil identifier, scan_identifier h]
  rfl

/-! ### Placeholders that resolve -/

/-- A placeholder resolves to a parameter: it has a name, and the parameter is declared under it. -/
def Hole.Resolves (parameters : Dictionary Parameter) (h : Hole) (p : Parameter) : Prop :=
  h.name ≠ "" ∧ parameters.find? h.name = some p

/-- A placeholder that is resolved is an argument under the trimmed name. -/
theorem placeholder_eq {h : Hole} {p : Parameter} (hp : h.Resolves parameters p) (offset : Nat) :
    placeholder parameters offset h.identifier = argument (some h.name) p.value := by
  obtain ⟨hname, hfind⟩ := hp
  have hempty : ¬ h.name.isEmpty = true := by rwa [String.isEmpty_iff]
  rw [Hole.name] at hempty hfind
  rw [placeholder, if_neg hempty, hfind]
  rfl

theorem exists_resolves {h : Hole} {offset : Nat}
    (hsound : (placeholder parameters offset h.identifier).Sound) :
    ∃ p, h.Resolves parameters p := by
  have hname : String.ofList (Text.trim h.identifier) = h.name := rfl
  simp only [placeholder, hname] at hsound
  -- A placeholder needs a name, and the name has to be declared.
  by_cases hempty : h.name.isEmpty = true
  · rw [if_pos hempty] at hsound
    exact hsound.elim
  · rw [if_neg hempty] at hsound
    cases hfind : parameters.find? h.name with
    | none =>
      rw [hfind] at hsound
      exact hsound.elim
    | some p => exact ⟨p, fun hname => hempty (String.isEmpty_iff.mpr hname), hfind⟩

namespace Cut

/-- The placeholders of a cut resolve to parameters, one by one. -/
def Resolves (parameters : Dictionary Parameter) (c : Cut) (resolved : List Parameter) : Prop :=
  List.Forall₂ (Hole.Resolves parameters) c.holes resolved

/-- The text of a cut with its placeholders, of which the first one has a given number. -/
def rendered (d : Dialect) (number : Nat) (c : Cut) : List Char :=
  (c.holes.zipIdx number).flatMap (fun (h, k) => h.literal ++ (d.mark k h.name).toList) ++ c.last

/-- The literals of a cut, and its placeholders with their values. -/
def fragments (c : Cut) (resolved : List Parameter) : List Fragment :=
  (c.holes.zip resolved).flatMap (fun (h, p) =>
    [.literal (String.ofList h.literal), .value h.name p.value]) ++
    [.literal (String.ofList c.last)]

theorem filled_fragments {c : Cut} {resolved : List Parameter} (h : c.Resolves parameters resolved)
    (number : Nat) : filled d number (c.fragments resolved) = c.rendered d number := by
  obtain ⟨holes, last⟩ := c
  change List.Forall₂ (Hole.Resolves parameters) holes resolved at h
  induction h generalizing number with
  | nil => simp [fragments, rendered, filled]
  | @cons hole p rest resolved _ _ ih =>
    have htail := ih (number + 1)
    simp only [fragments, rendered, List.zip_cons_cons, List.flatMap_cons, List.zipIdx_cons,
      List.cons_append, List.nil_append, List.append_assoc, filled, String.toList_ofList] at htail ⊢
    rw [htail]

/-- A cut binds the values of its parameters, each as often as it is named. -/
theorem boundValues_fragments {c : Cut} {resolved : List Parameter}
    (h : c.Resolves parameters resolved) :
    boundValues (c.fragments resolved) = resolved.map (·.value) := by
  obtain ⟨holes, last⟩ := c
  change List.Forall₂ (Hole.Resolves parameters) holes resolved at h
  induction h with
  | nil => rfl
  | @cons hole p rest resolved _ _ ih => exact congrArg (p.value :: ·) ih

end Cut

/-! ### Runs of the scanner -/

variable {layout : Layout}

/-- Copied one by one, characters are what they are as one text. -/
theorem addTo_copied (cs : List Char) (a : Assembly) :
    (copied cs).addTo d a = .ok { a with writer := a.writer.write (String.ofList cs) } := by
  induction cs generalizing a with
  | nil => rfl
  | cons c cs ih =>
    have hwrite : (a.writer.write (String.singleton c)).write (String.ofList cs) =
        a.writer.write (String.ofList (c :: cs)) := by
      simp [Writer.write]
    show (text (String.singleton c) ++ copied cs).addTo d a = _
    rw [Draft.addTo_append]
    show (copied cs).addTo d { a with writer := a.writer.write (String.singleton c) } = _
    rw [ih, hwrite]

theorem prints_copied (cs : List Char) :
    (copied cs).Prints d layout (fun _ => True) (fun _ => True)
      [.literal (String.ofList cs)] := by
  intro a f _ _ hholds
  exact ⟨_, addTo_copied cs a, trivial, hholds.literal (Writer.text_write _ _)⟩

/-- A run along a cut whose placeholders resolve prints the fragments of the cut. -/
theorem prints_scan {c : Cut} {resolved : List Parameter} (hc : c.Proper)
    (h : c.Resolves parameters resolved) (offset : Nat) :
    (scan parameters offset none c.text).Prints d layout (fun _ => True) (fun _ => True)
      (c.fragments resolved) := by
  obtain ⟨holes, last⟩ := c
  change List.Forall₂ (Hole.Resolves parameters) holes resolved at h
  -- The induction follows the holes and the parameters that they stand for.
  induction h generalizing offset with
  | nil =>
    have hlast : scan parameters offset none (last ++ []) = copied last ++ Draft.empty :=
      scan_literal hc.last offset []
    rw [List.append_nil] at hlast
    rw [Cut.text_nil, hlast]
    exact (prints_copied last).append Draft.prints_empty
  | @cons hole p rest resolved hresolves _ ih =>
    obtain ⟨hliteral, hidentifier, hrest⟩ := Cut.proper_cons_iff.mp hc
    have hvalue : (argument (some hole.name) p.value).Prints d layout (fun _ => True)
        (fun _ => True) [.value hole.name p.value] :=
      Draft.prints_argument (fun _ => rfl) p.value fun _ _ _ => trivial
    rw [Cut.text_cons, scan_hole hliteral hidentifier, placeholder_eq hresolves]
    exact (prints_copied hole.literal).append (hvalue.append (ih _ hrest))

/-- Where a run along a cut has no fault, the placeholders of the cut resolve and nothing is left
open behind it. -/
theorem exists_resolved {c : Cut} (hc : c.Proper) {offset : Nat} {tail : List Char}
    (htail : tail = [] ∨ ∃ identifier, closeBrace ∉ identifier ∧ tail = openBrace :: identifier)
    (hsound : (scan parameters offset none (c.text ++ tail)).Sound) :
    tail = [] ∧ ∃ resolved, c.Resolves parameters resolved := by
  obtain ⟨holes, last⟩ := c
  -- A scan without a fault resolves each hole, and leaves nothing open at the end.
  induction holes generalizing offset with
  | nil =>
    rw [Cut.text_nil, scan_literal hc.last, Draft.sound_append] at hsound
    refine ⟨?_, [], .nil⟩
    rcases htail with htail | ⟨identifier, hidentifier, htail⟩
    · exact htail
    · rw [htail, scan_unclosed hidentifier] at hsound
      exact hsound.2.elim
  | cons hole rest ih =>
    obtain ⟨hliteral, hidentifier, hrest⟩ := Cut.proper_cons_iff.mp hc
    rw [Cut.text_cons, List.append_assoc, scan_hole hliteral hidentifier, Draft.sound_append,
      Draft.sound_append] at hsound
    obtain ⟨-, hplaceholder, hbehind⟩ := hsound
    obtain ⟨p, hp⟩ := exists_resolves hplaceholder
    obtain ⟨hnil, resolved, hresolved⟩ := ih hrest hbehind
    exact ⟨hnil, p :: resolved, .cons hp hresolved⟩

/-! ### Compilation -/

theorem draft_of_not_blank {t : Template} (ht : Text.isAllBlank t.sql = false) :
    t.draft = scan t.parameters 0 none t.sql.toList := by
  rw [draft, ht]
  rfl

theorem sound_of_compiles {x : Draft} {layout : Layout} {r : Compiled}
    (h : x.assemble d layout = .ok r) : x.Sound := by
  cases x with
  | pieces l => trivial
  | fault e => cases h

/-- **A template accepts exactly its grammar and rewrites nothing else.** A template that is not
blank compiles just when it is made of literals without an opening brace and of placeholders, each
an identifier without a closing brace that names, blank ends apart, a declared parameter.  It is so
in one way; its literals are copied, every placeholder is written as the dialect writes the
placeholder with its number and its name, and the arguments are the values of the parameters, one
for each placeholder. -/
theorem compileTemplate_cut (d : Dialect) {t : Template} (ht : Text.isAllBlank t.sql = false) :
    ((∃ r, compileTemplate d t = .ok r) ↔
      ∃ (c : Cut) (resolved : List Parameter),
        c.Cuts t.sql.toList ∧ c.Resolves t.parameters resolved) ∧
      ∀ (c : Cut) (resolved : List Parameter),
        c.Cuts t.sql.toList → c.Resolves t.parameters resolved →
          (∀ c' : Cut, c'.Cuts t.sql.toList → c' = c) ∧
            compileTemplate d t =
              .ok ⟨String.ofList (c.rendered d 1), resolved.map (·.value)⟩ := by
  have hcompiles (c : Cut) (resolved : List Parameter) (hcut : c.Cuts t.sql.toList)
      (hresolved : c.Resolves t.parameters resolved) :
      compileTemplate d t = .ok ⟨String.ofList (c.rendered d 1), resolved.map (·.value)⟩ := by
    have hprints : (scan t.parameters 0 none c.text).Prints d .pretty (fun _ => True)
        (fun _ => True) (c.fragments resolved) := prints_scan hcut.1 hresolved 0
    rw [compileTemplate, draft_of_not_blank ht, ← hcut.2, hprints.assemble,
      Cut.filled_fragments hresolved, Cut.boundValues_fragments hresolved]
  refine ⟨⟨?_, ?_⟩, fun c resolved hcut hresolved => ⟨fun c' hcut' => ?_, ?_⟩⟩
  · rintro ⟨r, hr⟩
    obtain ⟨c, tail, hproper, hsql, htail⟩ := exists_proper_cut t.sql.toList
    have hsound := sound_of_compiles hr
    rw [draft_of_not_blank ht, hsql] at hsound
    obtain ⟨hnil, resolved, hresolved⟩ := exists_resolved hproper htail hsound
    rw [hnil, List.append_nil] at hsql
    exact ⟨c, resolved, ⟨hproper, hsql.symm⟩, hresolved⟩
  · rintro ⟨c, resolved, hcut, hresolved⟩
    exact ⟨_, hcompiles c resolved hcut hresolved⟩
  · exact hcut'.1.eq_of_text_eq hcut.1 (hcut'.2.trans hcut.2.symm)
  · exact hcompiles c resolved hcut hresolved

/-- A name may hold an opening brace and may be used again; a closing brace without an opening one
is copied, and so are blank ends. -/
theorem compileTemplate_cut_repeated :
    let t : Template := {
      sql := " a \x7d \x7bx\x7b \x7d,\x7bn\x7d\x7bx\x7b\x7d "
      parameters := .ofList [("x\x7b", { name := "x", value := .int 1 }), ("n", { name := "n" })] }
    Text.isAllBlank t.sql = false ∧
      compileTemplate .postgres t = .ok ⟨" a \x7d $1,$2$3 ", [.int 1, .null, .int 1]⟩ := by
  intro t
  have hblank : Text.isAllBlank t.sql = false := by decide
  let c : Cut := {
    holes := [⟨" a \x7d ".toList, "x\x7b ".toList⟩, ⟨[','], ['n']⟩, ⟨[], "x\x7b".toList⟩]
    last := [' '] }
  have hcut : c.Cuts t.sql.toList := ⟨⟨by decide, by decide, by decide⟩, by decide⟩
  have hresolved : c.Resolves t.parameters
      [{ name := "x", value := .int 1 }, { name := "n" }, { name := "x", value := .int 1 }] :=
    .cons ⟨by decide, rfl⟩ (.cons ⟨by decide, rfl⟩ (.cons ⟨by decide, rfl⟩ .nil))
  exact ⟨hblank, ((compileTemplate_cut .postgres hblank).2 c _ hcut hresolved).2⟩

end SqlTree.Template
