import SqlTree.Proofs.Draft.Local
import SqlTree.Proofs.Procedure.Parts
import SqlTree.Proofs.Statement.Visit

/-!
# Where statements start

Every statement and every call starts with a word, unless it has a fault, and so does not look at
what stands in front of it.
-/

namespace SqlTree

open Draft

/-! ### Statements -/

/-- A query starts with a word. -/
theorem Query.starts_draft (d : Dialect) (topLevel : Bool) (q : Query) :
    (q.draft d topLevel).Starts := by
  have hselect : (text "SELECT").Starts := starts_text (c := 'S') (by decide) (by decide)
  rw [draft_eq]
  refine Starts.append ?_ _
  split
  · unfold QueryParts.windowed
    split
    · exact .fault _
    · exact (((((((hselect.append _).append _).append _).append _).append _).append _).append
        _).append _
  · exact (((((hselect.append _).append _).append _).append _).append _).append _ |>.append _

/-- Every statement starts with a word, behind checks that write nothing. -/
theorem Expression.starts_statementDraft (d : Dialect) (e : Expression) :
    (e.statementDraft d).Starts := by
  have hchecked {x : Draft} (hx : x.Starts) (t : Table) (c : Bool) (fault : ArgumentFault) :
      (ensureNamed t ++ ensure c fault ++ x).Starts := by
    rw [append_assoc]
    exact Starts.ensure (Starts.ensure hx _ _) _ _
  cases e with
  | query q => exact q.starts_draft d true
  | insert i =>
    have hword : (Draft.text "INSERT INTO ").Starts :=
      starts_text (c := 'I') (by decide) (by decide)
    exact (((((((hchecked hword _ _ _).append _).append _).append _).append _).append _).append
      _).append _
  | update u =>
    have hword : (Draft.text "UPDATE ").Starts := starts_text (c := 'U') (by decide) (by decide)
    exact ((((((((hchecked hword _ _ _).append _).append _).append _).append _).append _).append
      _).append _).append _
  | delete s =>
    have hword : (Draft.text "DELETE FROM ").Starts :=
      starts_text (c := 'D') (by decide) (by decide)
    exact (((((Starts.ensure hword _ _).append _).append _).append _).append _).append _
  | _ => exact .fault _

/-! ### Procedure calls -/

/-- Every call starts with a word, or with a seed that does. -/
theorem Procedure.starts_draft (d : Dialect) (call : Procedure) : (call.draft d).Starts := by
  have hset (p : Parameter) : (text "SET " ++ call.sessionVariable p).Starts :=
    (starts_text (c := 'S') (by decide) (by decide)).append _
  have hopening : call.opening.Starts := by
    unfold Procedure.opening
    cases call.results.head? with
    | none => exact (starts_text (c := 'C') (by decide) (by decide)).append _
    | some result => exact ((hset result).append _).append _
  have hsession : (call.session d).Starts := by
    rw [Procedure.session_eq, append_assoc, append_assoc, append_assoc]
    -- If there are no variables to set, the call itself comes first.
    cases call.withDirection (· == .inout) with
    | nil => exact (empty_append _).symm ▸ hopening.append _
    | cons p rest =>
      exact (((((hset p).append _).append _).append _).append _).append _ |>.append _
  have hnative : (call.native d).Starts := by
    rw [Procedure.native_eq]
    refine ((Starts.append ?_ _).append _).append _
    cases call.results.isEmpty
    · exact starts_text (c := 'S') (by decide) (by decide)
    · exact starts_text (c := 'C') (by decide) (by decide)
  unfold Procedure.draft
  rw [append_assoc]
  refine Starts.ensure (Starts.ensure ?_ _ _) _ _
  cases d.procedureStyle with
  | sessionVariables => exact hsession
  | nativeCall => exact hnative

end SqlTree
