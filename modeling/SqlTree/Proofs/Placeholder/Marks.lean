import SqlTree.Compiler
import SqlTree.Proofs.Draft.Unmarked
import SqlTree.Proofs.Procedure.Parts
import SqlTree.Proofs.Statement.Closure

/-!
# Question marks come from placeholders only

If no string of an expression has a question mark, its draft writes none, and a statement names none
of its placeholders (`Expression.statementDraft_unmarked`).  Templates and calls write none either,
though their placeholders carry names (`Template.draft_unmarked`, `Procedure.draft_unmarked`).
-/

namespace SqlTree

open Draft hiding Unmarked
open Draft (Unmarked)

/-! ### Statements -/

theorem unmarked_words : ∀ s ∈ words, Text.Unmarked s := by decide

theorem unmarked_composes : Text.Composes Text.Unmarked := Text.lacks_composes (by decide)

/-- Tables hold no placeholders, so their question marks would be those of their names. -/
theorem Table.draft_unmarked {t : Table} (h : ∀ s ∈ t.strings, Text.Unmarked s) :
    t.draft.Unmarked true := by
  refine draft_of_names unmarked_fault Unmarked.append unmarked_text (fun hs _ => ?_) h
  exact (unmarked_text hs).append (unmarked_text (by decide))

section Statements

variable {d : Dialect} (hquote : ∀ s, Text.Unmarked s → Text.Unmarked (d.quote s))
include hquote

theorem unmarked_output {s : String} (hs : IsOutput d Text.Unmarked (fun _ => True) s) :
    Text.Unmarked s := by
  cases hs with
  | label h _ => exact hquote _ h
  | column h _ => exact Text.lacks_unqualified h

/-- No word has a question mark, and nothing adds one to unmarked strings. -/
theorem unmarked_closed :
    Draft.Closed d Text.Unmarked (fun _ => True) (Draft.Unmarked true) :=
  Draft.Stepwise.closed {
    fault := unmarked_fault
    empty := unmarked_empty
    append := Unmarked.append
    blank := unmarked_step .blank trivial
    comma := unmarked_step .comma trivial
    lineBreak := unmarked_step .lineBreak trivial
    opening := unmarked_step .openParenthesis trivial
    closing := unmarked_step .closeParenthesis trivial
    margin := unmarked_step (.indent 0) trivial
    line depth := (unmarked_step .lineBreak trivial).append (unmarked_step (.indent depth) trivial)
    argument := unmarked_argument
    word s hs := unmarked_text (unmarked_words s hs)
    numeral s hs n := by
      have hs : Text.Unmarked s := by revert s; decide
      exact unmarked_text (hs.append (Text.lacks_toString (by decide) n))
    page m n := unmarked_text (unmarked_composes.page (by decide) (by decide) m n)
    bounds p := unmarked_text <|
      unmarked_composes.rowBounds (by decide) (by decide) (by decide) p
    string := unmarked_text
    table := Table.draft_unmarked
    outputs _ h := unmarked_text <|
      Text.lacks_intercalate (by decide) fun s hs => unmarked_output hquote (h s hs)
    labelled hx s hs := by
      have hs : Text.Unmarked s := by revert s; decide
      exact hx.parenthesized.append (unmarked_text hs)
    assignment hs _ hx := ((unmarked_text hs).append (unmarked_text (by decide))).append hx }

omit hquote in
theorem Expression.Unmarked.spelled {e : Expression} (he : e.Unmarked) :
    e.Spelled Text.Unmarked fun _ => True := by
  induction he with
  | @intro e hstrings _ ih =>
    refine ⟨hstrings, fun _ _ => trivial, fun c hc => ?_, fun c hc _ => ?_⟩
    · exact ih c ((e.mem_children_iff c).mpr (Or.inl hc))
    · exact ih c ((e.mem_children_iff c).mpr (Or.inr hc))

/-- The draft of an unmarked statement has no question marks and no names. -/
theorem Expression.statementDraft_unmarked (hterminator : Text.Unmarked d.terminator)
    {e : Expression} (he : e.Unmarked) : (e.statementDraft d).Unmarked true :=
  statementDraft_closed (unmarked_closed hquote) (unmarked_step (.terminate _) hterminator)
    he.spelled

end Statements

/-! ### Templates -/

theorem Template.placeholder_unmarked (parameters : Dictionary Parameter) (offset : Nat)
    (identifier : List Char) : (placeholder parameters offset identifier).Unmarked false := by
  refine Unmarked.ite (unmarked_fault _) ?_
  cases parameters.find? (String.ofList (Text.trim identifier)) with
  | none => exact unmarked_fault _
  | some parameter => exact unmarked_piece fun h => absurd h Bool.false_ne_true

/-- A template without question marks writes them for its placeholders alone. -/
theorem Template.scan_unmarked (parameters : Dictionary Parameter) (offset : Nat)
    (opened : Option (Nat × List Char)) {cs : List Char} (hcs : '?' ∉ cs) :
    (scan parameters offset opened cs).Unmarked false := by
  -- The induction follows the characters, whether or not a placeholder is open.
  induction cs generalizing offset opened with
  | nil =>
    cases opened with
    | none => exact unmarked_empty
    | some o => exact unmarked_fault _
  | cons c rest ih =>
    obtain ⟨hc, hrest⟩ := not_or.mp (mt List.mem_cons.mpr hcs)
    cases opened with
    | none =>
      have hsingleton : Text.Unmarked (String.singleton c) := by
        rw [Text.Unmarked, String.toList_singleton]
        exact fun h => hc (List.mem_singleton.mp h)
      exact Unmarked.ite (ih _ _ hrest) ((unmarked_text hsingleton).append (ih _ _ hrest))
    | some o =>
      exact Unmarked.ite ((placeholder_unmarked _ _ _).append (ih _ _ hrest)) (ih _ _ hrest)

theorem Template.draft_unmarked {t : Template} (h : Text.Unmarked t.sql) :
    t.draft.Unmarked false :=
  Unmarked.ite (unmarked_fault _) (scan_unmarked _ _ _ h)

/-! ### Procedure calls -/

namespace Procedure

variable {d : Dialect} {call : Procedure}

theorem bound_unmarked (p : Parameter) : (bound p).Unmarked false :=
  unmarked_piece fun h => absurd h Bool.false_ne_true

theorem sessionVariable_unmarked {p : Parameter} (hp : Text.Unmarked p.name) :
    (call.sessionVariable p).Unmarked false :=
  Unmarked.ite (unmarked_fault _)
    (unmarked_text (Text.Unmarked.append (by decide) (Text.lacks_trimmed hp)))

/-- The name of a procedure and the names of its parameters have no question mark. -/
def UnmarkedNames (call : Procedure) : Prop :=
  Text.Unmarked call.name ∧ ∀ p ∈ call.parameters, Text.Unmarked p.name

/-- What is made of every parameter of some direction is unmarked if it is for every parameter. -/
theorem unmarked_withDirection {part : Parameter → Draft}
    (h : ∀ p ∈ call.parameters, (part p).Unmarked false) (q : Direction → Bool) :
    ∀ x ∈ (call.withDirection q).map part, x.Unmarked false :=
  unmarked_map fun p hp => h p (List.mem_filter.mp hp).1

theorem opening_unmarked (h : call.UnmarkedNames) : call.opening.Unmarked false := by
  have hname : (text call.name).Unmarked false := unmarked_text h.1
  unfold opening
  cases hresult : call.results.head? with
  | none => exact (unmarked_text (by decide)).append hname
  | some result =>
    have hmem : result ∈ call.parameters := (List.mem_filter.mp (List.mem_of_head? hresult)).1
    exact (((unmarked_text (by decide)).append (sessionVariable_unmarked (h.2 result hmem))).append
      (unmarked_text (by decide))).append hname

/-- Variables are written by their names, and values by placeholders. -/
theorem session_unmarked (hterminator : Text.Unmarked d.terminator) (h : call.UnmarkedNames) :
    (call.session d).Unmarked false := by
  have hend : (step (.terminate d.terminator)).Unmarked false := unmarked_step _ hterminator
  have hvariable : ∀ p ∈ call.parameters, (call.sessionVariable p).Unmarked false :=
    fun p hp => sessionVariable_unmarked (h.2 p hp)
  -- The statements that seed variables are checked one by one, like the slots and the read back.
  have hseed : ∀ p ∈ call.parameters, (call.seed d p).Unmarked false := by
    intro p hp
    have hset : (text "SET " ++ call.sessionVariable p ++ text " = ").Unmarked false :=
      ((unmarked_text (by decide)).append (hvariable p hp)).append (unmarked_text (by decide))
    have hvalue := (hset.append (bound_unmarked p)).append hend
    exact hvalue.append (unmarked_step .lineBreak trivial)
  have hslot : ∀ p ∈ call.parameters, (call.slot p).Unmarked false := by
    intro p hp
    exact Unmarked.ite (hvariable p hp) (bound_unmarked p)
  have hreadBack : (call.readBack d (call.withDirection (· != .input))).Unmarked false := by
    have hselect : (lineBreak ++ text "SELECT" ++ blank).Unmarked false :=
      ((unmarked_step .lineBreak trivial).append (unmarked_text (by decide))).append
        (unmarked_step .blank trivial)
    have houtputs := unmarked_joined (unmarked_text (s := ", ") (by decide))
      (unmarked_withDirection hvariable (· != .input))
    exact Unmarked.ite unmarked_empty ((hselect.append houtputs).append hend)
  have hseeds := unmarked_concat (unmarked_withDirection hseed (· == .inout))
  have hslots := unmarked_commaSeparated (unmarked_withDirection hslot (· != .result))
  rw [session_eq]
  have hcall := (hseeds.append (opening_unmarked h)).append hslots.parenthesized
  exact (hcall.append hend).append hreadBack

theorem native_unmarked (hterminator : Text.Unmarked d.terminator) (h : call.UnmarkedNames) :
    (call.native d).Unmarked false := by
  have hslot : ∀ p ∈ call.parameters, (nativeSlot p).Unmarked false := by
    intro p _
    exact Unmarked.ite (unmarked_text (by decide)) (bound_unmarked p)
  rw [native_eq]
  refine Unmarked.append (Unmarked.append (Unmarked.append ?_ (unmarked_text h.1)) ?_)
    (unmarked_step _ hterminator)
  · exact unmarked_text (Text.Unmarked.ite (by decide) (by decide))
  · exact (unmarked_commaSeparated (unmarked_withDirection hslot _)).parenthesized

theorem draft_unmarked (hterminator : Text.Unmarked d.terminator) (h : call.UnmarkedNames) :
    (call.draft d).Unmarked false := by
  unfold draft
  refine ((unmarked_ensure _ _).append (unmarked_ensure _ _)).append ?_
  cases d.procedureStyle with
  | sessionVariables => exact session_unmarked hterminator h
  | nativeCall => exact native_unmarked hterminator h

end Procedure

end SqlTree
