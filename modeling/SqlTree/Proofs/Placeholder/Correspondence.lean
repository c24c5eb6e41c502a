import SqlTree.Proofs.Placeholder.Marks
import SqlTree.Proofs.Placeholder.Renumber
import SqlTree.Proofs.Statement.Policy

/-!
# Placeholders and arguments correspond

Main statement, `compile_renumber`: in every mode the placeholders of a compiled text are numbered
from the left, one for each argument.

Take a dialect that writes question marks, and others that write alike but number placeholders or
call them `p1`, `p2` and so on.  They make the same draft of a statement (`Statement.Policy`), the
draft has no question marks but its placeholders (`Placeholder.Marks`), and so assembling it with
numbers is numbering the question marks of the assembled text (`Placeholder.Renumber`).
-/

namespace SqlTree

open Text (Unmarked)

/-! ### Marks -/

/-- A numeral after a token. -/
def numberedMark (token : String) (i : Nat) : List Char := (token ++ toString i).toList

theorem endsSolid_numberedMark (token : String) (i : Nat) : EndsSolid (numberedMark token i) :=
  endsSolid_numeral token i

/-- Where placeholders are the question mark, they have no number. -/
theorem positional_of_mode {d : Dialect} (hmode : d.mode = .positional) (htoken : d.token = "?") :
    d.Positional := by
  intro n name
  rw [Dialect.placeholder, hmode, htoken]

/-- Where placeholders carry numbers, names do not matter. -/
theorem numbers_of_indexed {d : Dialect} (hmode : d.mode = .indexed) (anonymous : Bool) :
    d.Numbers (numberedMark d.token) anonymous := by
  intro n name _
  rw [Dialect.placeholder, hmode, numberedMark, String.ofList_toList]

/-- Where placeholders carry names, a nameless one is called `p` and its number. -/
theorem numbers_of_named {d : Dialect} (hmode : d.mode = .named) :
    d.Numbers (numberedMark (d.token ++ "p")) true := by
  intro n name hname
  obtain rfl : name = none := hname rfl
  rw [Dialect.placeholder, hmode, numberedMark, String.ofList_toList, String.append_assoc]
  rfl

/-! ### Drafts -/

/-- The draft of an expression as it is compiled. -/
def Compiler.draft (c : Compiler) : Expression → Draft
  | .text t => t.draft
  | .procedure p => p.draft c.dialect
  | e => e.statementDraft c.dialect

/-- The layout in which an expression is compiled: a template has its own. -/
def Compiler.layoutOf (c : Compiler) : Expression → Layout
  | .text _ => .pretty
  | _ => c.layout

/-- Compiling assembles the draft of a tree in the layout that its kind asks for. -/
theorem Compiler.compile_eq (c : Compiler) (e : Expression) :
    c.compile e = (c.draft e).assemble c.dialect (c.layoutOf e) := by
  cases e <;> rfl

/-- Quoting like a built-in dialect writes no question mark of its own. -/
theorem unmarked_quote {d : Dialect} (h : ∃ b ∈ Dialect.builtIn, d.quote = b.quote) (s : String)
    (hs : Unmarked s) : Unmarked (d.quote s) := Dialect.lacks_quote h (by decide) hs

/-- Every question mark that a tree can write is a placeholder. -/
theorem Compiler.draft_unmarked {c : Compiler}
    (hquote : ∃ b ∈ Dialect.builtIn, c.dialect.quote = b.quote)
    (hterminator : Unmarked c.dialect.terminator) {e : Expression} (he : e.Unmarked) :
    (c.draft e).Unmarked false := by
  have hstatement := Expression.statementDraft_unmarked (unmarked_quote hquote) hterminator he
  obtain ⟨hstrings, -⟩ := he
  cases e with
  | text t => exact Template.draft_unmarked (hstrings _ List.mem_cons_self)
  | procedure p =>
    refine Procedure.draft_unmarked hterminator ⟨hstrings _ List.mem_cons_self, fun x hx => ?_⟩
    exact hstrings _ (List.mem_cons_of_mem _ (List.mem_map_of_mem hx))
  | _ => exact hstatement.weaken

/-- Drafts do not look at how placeholders are written. -/
theorem Compiler.draft_congr {d d' : Dialect} (h : d.WritesAlike d') (layout : Layout)
    (e : Expression) : Compiler.draft ⟨d, layout⟩ e = Compiler.draft ⟨d', layout⟩ e := by
  have hstatement := Expression.statementDraft_congr h e
  cases e with
  | text t => rfl
  | procedure p => exact p.draft_congr h
  | _ => exact hstatement

/-! ### Compilers -/

section Correspondence

variable {d d' : Dialect} (layout : Layout) {e : Expression}
  (hpositional : d.mode = .positional) (htoken : d.token = "?")
  (hquote : ∃ b ∈ Dialect.builtIn, d.quote = b.quote) (hterminator : Unmarked d.terminator)
  (he : e.Unmarked)
include hpositional htoken hquote hterminator he

/-- There is one question mark for each value that is bound. -/
theorem count_marks {r : Compiled} (hr : Compiler.compile ⟨d, layout⟩ e = .ok r) :
    r.sql.toList.count '?' = r.arguments.length := by
  rw [Compiler.compile_eq] at hr
  exact Draft.assemble_marks (positional_of_mode hpositional htoken)
    (Compiler.draft_unmarked (c := ⟨d, layout⟩) hquote hterminator he) hr

/-- A numbered placeholder stands where the question mark of this number stood. -/
theorem compile_indexed (hindexed : d'.mode = .indexed) (halike : d.WritesAlike d') :
    Compiler.compile ⟨d', layout⟩ e =
      (Compiler.compile ⟨d, layout⟩ e).map (Compiled.renumber (numberedMark d'.token)) := by
  rw [Compiler.compile_eq, Compiler.compile_eq, ← Compiler.draft_congr halike]
  exact Draft.assemble_renumber (positional_of_mode hpositional htoken)
    (numbers_of_indexed hindexed false) (endsSolid_numberedMark _)
    (Compiler.draft_unmarked (c := ⟨d, layout⟩) hquote hterminator he) _

/-- A value without a name is called by its number. -/
theorem compile_named (hnamed : d'.mode = .named) (halike : d.WritesAlike d')
    (hstatement : e.isStatement = true) :
    Compiler.compile ⟨d', layout⟩ e =
      (Compiler.compile ⟨d, layout⟩ e).map
        (Compiled.renumber (numberedMark (d'.token ++ "p"))) := by
  rw [compile_of_isStatement hstatement, compile_of_isStatement hstatement, compileStatement,
    compileStatement, ← Expression.statementDraft_congr halike]
  exact Draft.assemble_renumber (positional_of_mode hpositional htoken) (numbers_of_named hnamed)
    (endsSolid_numberedMark _)
    (Expression.statementDraft_unmarked (unmarked_quote hquote) hterminator he) layout

end Correspondence

/-- **Placeholders and arguments correspond.** Take a dialect that writes every placeholder as a
question mark, and an expression without other question marks.  A dialect that numbers placeholders
refuses the expression with the same error, or gives the same arguments and the same text with `$`
and its number for every question mark, counted from the left; there is one question mark for each
argument.  A dialect that names placeholders does the same to statements, with `@p` and the number.
-/
theorem compile_renumber {d indexed : Dialect} {layout : Layout} {e : Expression}
    (hd : d.mode = .positional ∧ d.token = "?")
    (hindexed : indexed.mode = .indexed ∧ indexed.token = "$" ∧ d.WritesAlike indexed)
    (hquote : ∃ b ∈ Dialect.builtIn, d.quote = b.quote) (hterminator : Unmarked d.terminator)
    (he : e.Unmarked) :
    Compiler.compile ⟨indexed, layout⟩ e =
        (Compiler.compile ⟨d, layout⟩ e).map
          (Compiled.renumber fun i => ("$" ++ toString i).toList) ∧
      (∀ r, Compiler.compile ⟨d, layout⟩ e = .ok r →
        r.sql.toList.count '?' = r.arguments.length) ∧
      ∀ named : Dialect, named.mode = .named → named.token = "@" → d.WritesAlike named →
        e.isStatement = true →
          Compiler.compile ⟨named, layout⟩ e =
            (Compiler.compile ⟨d, layout⟩ e).map
              (Compiled.renumber fun i => ("@p" ++ toString i).toList) := by
  obtain ⟨hmode, htoken⟩ := hd
  -- The two modes differ only in what stands in front of the number.
  obtain ⟨himode, hitoken, hialike⟩ := hindexed
  refine ⟨?_, fun r hr => count_marks layout hmode htoken hquote hterminator he hr, ?_⟩
  · have h := compile_indexed layout hmode htoken hquote hterminator he himode hialike
    rw [hitoken] at h
    exact h
  · intro named hnmode hntoken hnalike hstatement
    have h := compile_named layout hmode htoken hquote hterminator he hnmode hnalike
      hstatement
    rw [hntoken] at h
    exact h

/-- Two placeholders of a membership test, on each side of a null that has none. -/
theorem compile_renumber_membership :
    Compiler.compile ⟨{ Dialect.ansi with indexed := true, token := "$" }, .compact⟩
        (.delete {
          table := { name := "t" }
          filter := some [.condition {
            left := some (.column "a")
            op := .isIn
            right := some (.value (.list [.int 1, .null, .int 2])) }] }) =
      .ok ⟨"DELETE FROM t WHERE a IN ($1, NULL, $2);", [.int 1, .int 2]⟩ := by
  have leaf {e : Expression} (hstrings : ∀ s ∈ e.strings, Unmarked s) (he : e.children = []) :
      e.Unmarked := ⟨hstrings, by simp [he]⟩
  refine Eq.trans (compile_renumber (d := .ansi) ⟨rfl, rfl⟩ ?_ ?_ (by decide) ?_).1 rfl
  · exact ⟨rfl, rfl, rfl, rfl, rfl, rfl⟩
  · exact ⟨.ansi, List.mem_cons_self, rfl⟩
  · refine ⟨by decide, List.forall_mem_singleton.mpr ⟨by decide, List.forall_mem_cons.mpr ?_⟩⟩
    exact ⟨leaf (by decide) rfl, List.forall_mem_singleton.mpr (leaf (by decide) rfl)⟩

end SqlTree
