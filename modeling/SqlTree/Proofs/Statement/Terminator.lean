import SqlTree.Compiler
import SqlTree.Proofs.Statement.Closure
import SqlTree.Proofs.Statement.Start
import SqlTree.Proofs.Text.Count
import SqlTree.Proofs.Text.Trim

/-!
# Terminators

Main statement, `compile_terminator`: a statement that compiles has one terminator, at its very end
and behind something that is not blank; a procedure call has one for each statement of its script.

`x.Counts d mark n` says that `x` adds a mark `n` times, whatever it is written to.  Everything
inside a statement, at any depth, adds no terminator (`counts_closed`), so what is left is the one
that ends the statement (`Expression.exists_body`) and, for a call, a walk over the parameters for
each kind of statement.
-/

namespace SqlTree

open Draft

/-! ### Drafts -/

namespace Draft

/-- A draft that adds a mark a number of times. -/
def Counts (d : Dialect) (mark : Char) (n : Nat) (x : Draft) : Prop :=
  ∀ a b : Assembly, x.addTo d a = .ok b → b.writer.count mark = a.writer.count mark + n

variable {d : Dialect} {mark : Char} {m n : Nat} {x y : Draft}

theorem counts_fault (n : Nat) (e : Error) : (fault e).Counts d mark n := by
  intro a b hb
  cases hb

theorem counts_empty : empty.Counts d mark 0 := by
  intro a b hb
  cases hb
  rfl

theorem Counts.append (hx : x.Counts d mark m) (hy : y.Counts d mark n) :
    (x ++ y).Counts d mark (m + n) := by
  intro a c hc
  obtain ⟨b, hb, hc⟩ := addTo_append_eq_ok hc
  rw [hy b c hc, hx a b hb, Nat.add_assoc]

theorem Counts.ite {c : Prop} [Decidable c] (hx : x.Counts d mark n) (hy : y.Counts d mark n) :
    (if c then x else y).Counts d mark n := by
  split
  · exact hx
  · exact hy

theorem counts_ensure (c : Bool) (fault : ArgumentFault) : (ensure c fault).Counts d mark 0 :=
  Counts.ite counts_empty (counts_fault 0 _)

/-- A list of drafts that add a mark equally often. -/
theorem counts_concat {l : List Draft} (h : ∀ x ∈ l, x.Counts d mark n) :
    (concat l).Counts d mark (l.length * n) := by
  induction l with
  | nil =>
    rw [List.length_nil, Nat.zero_mul]
    exact counts_empty
  | cons x rest ih =>
    have hrest := ih fun y hy => h y (List.mem_cons_of_mem x hy)
    rw [List.length_cons, Nat.add_mul, Nat.one_mul, Nat.add_comm]
    exact (h x List.mem_cons_self).append hrest

/-- Neither the parts nor what stands between them hold the mark. -/
theorem counts_joined {between : Draft} (hbetween : between.Counts d mark 0) {l : List Draft}
    (h : ∀ x ∈ l, x.Counts d mark 0) : (joined between l).Counts d mark 0 := by
  induction l with
  | nil => exact counts_empty
  | cons x rest ih =>
    have hx : x.Counts d mark 0 := h x List.mem_cons_self
    have hrest := ih fun y hy => h y (List.mem_cons_of_mem x hy)
    cases rest with
    | nil => exact hx
    | cons y rest => exact (hx.append hbetween).append hrest

theorem counts_text {s : String} (hs : Text.Lacks mark s) : (text s).Counts d mark 0 := by
  intro a b hb
  cases hb
  show (a.writer.write s).count mark = _
  rw [Writer.count_write, List.count_eq_zero.mpr hs]

/-- Neither token nor name nor number holds the mark. -/
theorem counts_argument (hdigit : mark.isDigit = false) (hp : Text.Lacks mark "p")
    (htoken : Text.Lacks mark d.token) {name : Option String}
    (hname : ∀ s ∈ name, Text.Lacks mark s) (v : Value) : (argument name v).Counts d mark 0 := by
  intro a b hb
  cases hb
  have hplain := (Text.lacks_composes hdigit).placeholder htoken hp a.index hname
  show (a.writer.write (d.placeholder a.index name).1).count mark = _
  rw [Writer.count_write, List.count_eq_zero.mpr hplain]

/-- A step adds the marks that it writes, and drops blanks alone. -/
theorem counts_step (hmark : Writer.IsMark mark) (s : Writer.Step) :
    (step s).Counts d mark (s.count mark) := by
  intro a b hb
  cases hb
  exact a.writer.count_apply hmark s

theorem Counts.parenthesized (hmark : Writer.IsMark mark) (hx : x.Counts d mark 0) :
    (parenthesized x).Counts d mark 0 :=
  ((counts_step hmark .openParenthesis).append hx).append (counts_step hmark .closeParenthesis)

theorem counts_commaSeparated (hmark : Writer.IsMark mark) {l : List Draft}
    (h : ∀ x ∈ l, x.Counts d mark 0) : (commaSeparated l).Counts d mark 0 :=
  counts_joined (counts_step hmark .comma) h

/-- A terminator takes the place of the blank end of what was written. -/
theorem addTo_terminate {t : String} {a b : Assembly}
    (h : (step (.terminate t)).addTo d a = .ok b) :
    b.writer.text = Text.trimEnd a.writer.text ++ t.toList := by
  cases h
  exact a.writer.text_terminate t

/-- What starts a terminated draft is written before the terminator. -/
theorem Starts.of_terminated {t : String} (h : (x ++ step (.terminate t)).Starts) : x.Starts := by
  cases x with
  | fault e => exact .fault e
  | pieces l =>
    generalize hy : pieces l ++ step (.terminate t) = y at h
    cases h with
    | fault e => cases hy
    | text s z hc hblank =>
      cases z with
      | fault e => cases hy
      | pieces m =>
        have hpieces : l ++ [.layout (.terminate t)] = .layout (.write s) :: m := by injection hy
        -- What comes in front of the terminator is not nothing, for the draft starts with a text
        -- that is no terminator.
        cases l with
        | nil => cases hpieces
        | cons p rest =>
          obtain rfl : p = .layout (.write s) := (List.cons.inj hpieces).1
          exact .text s (.pieces rest) hc hblank

/-- A draft that ends in a terminator of one character assembles to a text that ends in it. -/
theorem assemble_terminated {t : Char} {layout : Layout} {r : Compiled}
    (hterminator : d.terminator = String.singleton t)
    (h : (x ++ step (.terminate d.terminator)).assemble d layout = .ok r) :
    ∃ a, x.addTo d (Assembly.start layout) = .ok a ∧
      r.sql.toList = Text.trimEnd a.writer.text ++ [t] := by
  obtain ⟨b, hb, hsql⟩ := assemble_eq_ok h
  obtain ⟨a, ha, hb⟩ := addTo_append_eq_ok hb
  exact ⟨a, ha, by rw [hsql, addTo_terminate hb, hterminator, String.toList_singleton]⟩

/-- The marks of a draft are those of the text that it assembles to. -/
theorem Counts.assemble (hx : x.Counts d mark n) {layout : Layout} {r : Compiled}
    (h : x.assemble d layout = .ok r) : r.sql.toList.count mark = n := by
  obtain ⟨b, hb, hsql⟩ := assemble_eq_ok h
  have hstart : (Assembly.start layout).writer.count mark = 0 := rfl
  rw [hsql, Writer.count_text, hx _ b hb, hstart, Nat.zero_add]

end Draft

/-! ### Inside a statement -/

theorem isMark_semicolon : Writer.IsMark ';' := by decide

theorem lacks_words : ∀ s ∈ words, Text.Lacks ';' s := by decide

theorem counts_terminator {d : Dialect} (hterminator : d.terminator = ";") :
    (step (.terminate d.terminator)).Counts d ';' 1 := by
  rw [hterminator]
  exact counts_step isMark_semicolon _

section Statements

variable {d : Dialect} (hquote : ∃ b ∈ Dialect.builtIn, d.quote = b.quote)
  (htoken : Text.Lacks ';' d.token)
include hquote htoken

omit htoken in
theorem lacks_output {s : String} (hs : IsOutput d (Text.Lacks ';') (fun _ => True) s) :
    Text.Lacks ';' s := by
  cases hs with
  | label h _ => exact Dialect.lacks_quote hquote (by decide) h
  | column h _ => exact Text.lacks_unqualified h

omit hquote in
theorem counts_nameless (v : Value) : (argument none v).Counts d ';' 0 :=
  counts_argument (by decide) (by decide) htoken (by simp) v

/-- Neither the words nor the names of a tree have a semicolon, and no statement inside another one
is terminated. -/
theorem counts_closed : Draft.Closed d (Text.Lacks ';') (fun _ => True) (Counts d ';' 0) :=
  have hnumeral : Text.Composes (Text.Lacks ';') := Text.lacks_composes (by decide)
  Draft.Stepwise.closed {
    fault := counts_fault 0
    empty := counts_empty
    append := Counts.append
    blank := counts_step isMark_semicolon .blank
    comma := counts_step isMark_semicolon .comma
    lineBreak := counts_step isMark_semicolon .lineBreak
    opening := counts_step isMark_semicolon .openParenthesis
    closing := counts_step isMark_semicolon .closeParenthesis
    margin := counts_step isMark_semicolon (.indent 0)
    line depth := (counts_step isMark_semicolon .lineBreak).append
      (counts_step isMark_semicolon (.indent depth))
    argument := counts_nameless htoken
    word s hs := counts_text (lacks_words s hs)
    numeral s hs n := by
      have hs : Text.Lacks ';' s := by revert s; decide
      exact counts_text (hnumeral.append hs (hnumeral.numeral n))
    page m n := counts_text (hnumeral.page (by decide) (by decide) m n)
    bounds p := counts_text (hnumeral.rowBounds (by decide) (by decide) (by decide) p)
    string := counts_text
    table h := Table.draft_of_names (counts_fault 0) Counts.append counts_text
      (fun hs _ => (counts_text hs).append (counts_text (by decide))) h
    outputs _ h := counts_text <|
      Text.lacks_intercalate (by decide) fun s hs => lacks_output hquote (h s hs)
    labelled hx s hs := by
      have hs : Text.Lacks ';' s := by revert s; decide
      exact (hx.parenthesized isMark_semicolon).append (counts_text hs)
    assignment hs _ hx := ((counts_text hs).append (counts_text (by decide))).append hx }

end Statements

/-- A statement has one terminator, behind something that is not blank. -/
theorem Expression.terminator {d : Dialect} (hquote : ∃ b ∈ Dialect.builtIn, d.quote = b.quote)
    (htoken : Text.Lacks ';' d.token) (hterminator : d.terminator = ";") {layout : Layout}
    {e : Expression} (he : e.isStatement = true)
    (hspelled : e.Spelled (Text.Lacks ';') fun _ => True) {r : Compiled}
    (h : (e.statementDraft d).assemble d layout = .ok r) :
    r.sql.toList.count ';' = 1 ∧
      ∃ body c, r.sql.toList = body ++ [c, ';'] ∧ Text.isBlank c = false := by
  obtain ⟨x, hx, hdraft⟩ := Expression.exists_body (counts_closed hquote htoken) he hspelled
  rw [hdraft] at h
  constructor
  · exact (hx.append (counts_terminator hterminator)).assemble h
  · obtain ⟨a, ha, hsql⟩ := assemble_terminated (t := ';') hterminator h
    -- A statement starts with a word, so trimming its end leaves something.
    have hstarts : x.Starts := Starts.of_terminated (hdraft ▸ e.starts_statementDraft d)
    obtain ⟨c, hc, hblank⟩ := hstarts.exists_anchor ha
    have hne : Text.trimEnd a.writer.text ≠ [] := by
      have hmem := mem_dropWhile_of_stop hblank hc
      rw [Text.trimEnd, Writer.text, List.reverse_reverse]
      exact mt List.reverse_eq_nil_iff.mp (List.ne_nil_of_mem hmem)
    obtain ⟨body, last, htrim⟩ : ∃ body last, Text.trimEnd a.writer.text = body ++ [last] :=
      ⟨_, _, (List.dropLast_concat_getLast hne).symm⟩
    have hlast : (Text.trimEnd a.writer.text).getLast? = some last := by
      rw [htrim, List.getLast?_concat]
    refine ⟨body, last, ?_, Text.getLast?_trimEnd hlast⟩
    rw [hsql, htrim, List.append_assoc]
    rfl

/-! ### Procedure calls -/

namespace Procedure

/-- The name of a procedure and the names of its parameters do not have a character. -/
def NamesLack (mark : Char) (call : Procedure) : Prop :=
  Text.Lacks mark call.name ∧ ∀ p ∈ call.parameters, Text.Lacks mark p.name

/-- How many statements a call consists of: a native call of one; a script sets a variable for each
parameter that goes both ways, calls the procedure, and selects the variables if there are any. -/
def statementCount (call : Procedure) : ProcedureStyle → Nat
  | .nativeCall => 1
  | .sessionVariables =>
    (call.parameters.countP fun p => p.direction == .inout) + 1 +
      if call.parameters.any fun p => p.direction != .input then 1 else 0

variable {d : Dialect} {call : Procedure}

theorem counts_sessionVariable {p : Parameter} (hp : Text.Lacks ';' p.name) :
    (call.sessionVariable p).Counts d ';' 0 := by
  have hname : Text.Lacks ';' ("@" ++ Text.trimmed p.name) :=
    Text.Lacks.append (by decide) (Text.lacks_trimmed hp)
  exact Counts.ite (counts_fault 0 _) (counts_text hname)

/-- What adds a mark equally often for every parameter does so for those of some directions. -/
theorem counts_withDirection {n : Nat} {part : Parameter → Draft}
    (h : ∀ p ∈ call.parameters, (part p).Counts d ';' n) (q : Direction → Bool) :
    ∀ x ∈ (call.withDirection q).map part, x.Counts d ';' n := by
  intro x hx
  obtain ⟨p, hp, rfl⟩ := List.mem_map.mp hx
  exact h p (List.mem_filter.mp hp).1

theorem isEmpty_withDirection (q : Direction → Bool) :
    (call.withDirection q).isEmpty = !call.parameters.any fun p => q p.direction := by
  rw [Bool.eq_iff_iff, List.isEmpty_iff, withDirection, List.filter_eq_nil_iff]
  simp

theorem counts_opening (h : call.NamesLack ';') : call.opening.Counts d ';' 0 := by
  have hname : (text call.name).Counts d ';' 0 := counts_text h.1
  unfold opening
  cases hresult : call.results.head? with
  | none => exact (counts_text (by decide)).append hname
  | some result =>
    have hmem : result ∈ call.parameters := (List.mem_filter.mp (List.mem_of_head? hresult)).1
    exact (((counts_text (by decide)).append (counts_sessionVariable (h.2 result hmem))).append
      (counts_text (by decide))).append hname

section Script

variable (htoken : Text.Lacks ';' d.token) (hterminator : d.terminator = ";")
  (h : call.NamesLack ';')
include htoken h

omit hterminator in
theorem counts_bound {p : Parameter} (hp : p ∈ call.parameters) : (bound p).Counts d ';' 0 := by
  refine counts_argument (by decide) (by decide) htoken (fun s hs => ?_) p.value
  split at hs
  · cases hs
  · exact Option.mem_some.mp hs ▸ h.2 p hp

include hterminator

/-- Each seed is a statement with a terminator of its own. -/
theorem counts_seed {p : Parameter} (hp : p ∈ call.parameters) :
    (call.seed d p).Counts d ';' 1 := by
  have hset : (text "SET " ++ call.sessionVariable p ++ text " = ").Counts d ';' 0 :=
    ((counts_text (by decide)).append (counts_sessionVariable (h.2 p hp))).append
      (counts_text (by decide))
  have hvalue := (hset.append (counts_bound htoken h hp)).append (counts_terminator hterminator)
  exact hvalue.append (counts_step isMark_semicolon .lineBreak)

omit htoken in
/-- There is a statement for what is read back, unless nothing is. -/
theorem counts_readBack (outputs : List Parameter) (houtputs : ∀ p ∈ outputs, p ∈ call.parameters) :
    (call.readBack d outputs).Counts d ';' (if outputs.isEmpty then 0 else 1) := by
  unfold readBack
  -- Nothing is read back if there is nothing to read.
  cases hempty : outputs.isEmpty with
  | true => exact counts_empty
  | false =>
    have hselect : (lineBreak ++ text "SELECT" ++ blank).Counts d ';' 0 :=
      ((counts_step isMark_semicolon .lineBreak).append (counts_text (by decide))).append
        (counts_step isMark_semicolon .blank)
    have hvariables : (joined (text ", ") (outputs.map call.sessionVariable)).Counts d ';' 0 := by
      refine counts_joined (counts_text (by decide)) fun x hx => ?_
      obtain ⟨p, hp, rfl⟩ := List.mem_map.mp hx
      exact counts_sessionVariable (h.2 p (houtputs p hp))
    exact (hselect.append hvariables).append (counts_terminator hterminator)

/-- The statements of a script: the seeds, the call, and the read back if there is one. -/
theorem counts_session : (call.session d).Counts d ';' (call.statementCount .sessionVariables) := by
  have hseeds := counts_concat
    (counts_withDirection (fun p hp => counts_seed htoken hterminator h hp) (· == .inout))
  have hslot : ∀ p ∈ call.parameters, (call.slot p).Counts d ';' 0 := fun p hp =>
    Counts.ite (counts_sessionVariable (h.2 p hp)) (counts_bound htoken h hp)
  have hslots := (counts_commaSeparated isMark_semicolon
    (counts_withDirection hslot (· != .result))).parenthesized isMark_semicolon
  have hreadBack := counts_readBack hterminator h (call.withDirection (· != .input))
    fun p hp => (List.mem_filter.mp hp).1
  have hcall := ((hseeds.append (counts_opening h)).append hslots).append
    (counts_terminator hterminator)
  -- The number of statements, counted by the directions of the parameters.
  have hcount : call.statementCount .sessionVariables =
      ((call.withDirection (· == .inout)).map (call.seed d)).length * 1 + 0 + 0 + 1 +
        if (call.withDirection (· != .input)).isEmpty then 0 else 1 := by
    have hseeded : (call.parameters.countP fun p => p.direction == .inout) =
        ((call.withDirection (· == .inout)).map (call.seed d)).length := by
      rw [List.length_map, withDirection, List.countP_eq_length_filter]
    have hselected : (if call.parameters.any fun p => p.direction != .input then 1 else 0) =
        if (call.withDirection (· != .input)).isEmpty then 0 else 1 := by
      rw [isEmpty_withDirection]
      cases call.parameters.any fun p => p.direction != .input <;> rfl
    rw [statementCount, hseeded, hselected, Nat.mul_one]
  rw [session_eq, hcount]
  exact hcall.append hreadBack

theorem counts_native : (call.native d).Counts d ';' 1 := by
  have hslot : ∀ p ∈ call.parameters, (nativeSlot p).Counts d ';' 0 := fun p hp =>
    Counts.ite (counts_text (by decide)) (counts_bound htoken h hp)
  have hslots := (counts_commaSeparated isMark_semicolon
    (counts_withDirection hslot call.hasNativeSlot)).parenthesized isMark_semicolon
  have hword : Text.Lacks ';' (if !call.results.isEmpty then "SELECT * FROM " else "CALL ") :=
    Text.Lacks.ite (by decide) (by decide)
  rw [native_eq]
  exact (((counts_text hword).append (counts_text h.1)).append hslots).append
    (counts_terminator hterminator)

theorem counts_draft : (call.draft d).Counts d ';' (call.statementCount d.procedureStyle) := by
  have hensure (c : Bool) (fault : ArgumentFault) : (ensure c fault).Counts d ';' 0 :=
    counts_ensure c fault
  have hchecks := (hensure (!Text.isAllBlank call.name) .unnamedProcedure).append
    (hensure (call.results.length ≤ 1) (.severalResults call.name))
  unfold draft
  rw [← Nat.zero_add (call.statementCount _)]
  refine hchecks.append ?_
  cases d.procedureStyle with
  | sessionVariables => exact counts_session htoken hterminator h
  | nativeCall => exact counts_native htoken hterminator h

end Script

/-- A call ends in a terminator. -/
theorem exists_body (d : Dialect) (call : Procedure) :
    ∃ x, call.draft d = x ++ step (.terminate d.terminator) := by
  have hbehind {checks y : Draft} (h : ∃ x, y = x ++ step (.terminate d.terminator)) :
      ∃ x, checks ++ y = x ++ step (.terminate d.terminator) := by
    obtain ⟨x, rfl⟩ := h
    exact ⟨checks ++ x, (append_assoc _ _ _).symm⟩
  unfold draft
  apply hbehind
  cases d.procedureStyle with
  | nativeCall => exact ⟨_, native_eq d call⟩
  | sessionVariables =>
    rw [session_eq, readBack]
    -- The last statement is the call itself, or the read back behind it.
    by_cases hempty : (call.withDirection (· != .input)).isEmpty = true
    · rw [if_pos hempty, append_empty]
      exact ⟨_, rfl⟩
    · rw [if_neg hempty]
      exact hbehind ⟨_, rfl⟩

end Procedure

/-- **One terminator, at the very end.** Take a dialect that quotes like a built-in one and ends its
statements with a semicolon, and strings without semicolons.  The text of a statement that compiles
has one semicolon: its last character, behind one that is not blank.  The text of a procedure call
that compiles ends in a semicolon, too; it has one if the call is native, and otherwise one for each
parameter that goes both ways, one for the call and one if there are variables to select. -/
theorem compile_terminator {d : Dialect} (hquote : ∃ b ∈ Dialect.builtIn, d.quote = b.quote)
    (hterminator : d.terminator = ";") (htoken : Text.Lacks ';' d.token) (layout : Layout) :
    (∀ e : Expression, e.isStatement = true → e.Spelled (Text.Lacks ';') (fun _ => True) →
      ∀ r, Compiler.compile ⟨d, layout⟩ e = .ok r →
        r.sql.toList.count ';' = 1 ∧
          ∃ body c, r.sql.toList = body ++ [c, ';'] ∧ Text.isBlank c = false) ∧
      ∀ call : Procedure, call.NamesLack ';' →
        ∀ r, Compiler.compile ⟨d, layout⟩ (.procedure call) = .ok r →
          r.sql.toList.count ';' = call.statementCount d.procedureStyle ∧
            r.sql.toList.getLast? = some ';' := by
  constructor
  · intro e he hspelled r hr
    rw [compile_of_isStatement he] at hr
    exact e.terminator hquote htoken hterminator he hspelled hr
  · intro call hcall r hr
    have hassemble : (call.draft d).assemble d layout = .ok r := hr
    refine ⟨(Procedure.counts_draft htoken hterminator hcall).assemble hassemble, ?_⟩
    obtain ⟨x, hx⟩ := Procedure.exists_body d call
    rw [hx] at hassemble
    obtain ⟨a, -, hsql⟩ := assemble_terminated (t := ';') hterminator hassemble
    rw [hsql, List.getLast?_concat]

set_option maxRecDepth 2000 in
/-- A statement around a query, and a script with a parameter that goes both ways. -/
theorem compile_terminator_nested :
    (Compiler.compile ⟨.mysql, .compact⟩ (.delete {
        table := { name := "t" }
        filter := some [.condition {
          left := some (.column "a")
          op := .isIn
          right := some (.query { source := some { tables := [{ name := "u" }] } }) }] }) =
        .ok ⟨"DELETE FROM t WHERE a IN (SELECT * FROM u);", []⟩ ∧
      "DELETE FROM t WHERE a IN (SELECT * FROM u);".toList.count ';' = 1) ∧
      Compiler.compile ⟨.mysql, .compact⟩ (.procedure {
        name := "bump"
        parameters :=
          [{ name := "step", value := .int 2 }, { name := "n", direction := .inout }] }) =
        .ok ⟨"SET @n = ?; CALL bump(?, @n); SELECT @n;", [.null, .int 2]⟩ ∧
      "SET @n = ?; CALL bump(?, @n); SELECT @n;".toList.count ';' = 3 ∧
      "SET @n = ?; CALL bump(?, @n); SELECT @n;".toList.getLast? = some ';' := by
  have hboth := compile_terminator (d := .mysql) ⟨.mysql, by simp [Dialect.builtIn], rfl⟩ rfl
    (by decide) .compact
  have hstatement {e : Expression} {r : Compiled} (he : e.isStatement = true)
      (hspelled : e.Spelled (Text.Lacks ';') fun _ => True)
      (hr : Compiler.compile ⟨.mysql, .compact⟩ e = .ok r) :
      Compiler.compile ⟨.mysql, .compact⟩ e = .ok r ∧ r.sql.toList.count ';' = 1 :=
    ⟨hr, (hboth.1 e he hspelled r hr).1⟩
  have hscript {call : Procedure} {r : Compiled} (hcall : call.NamesLack ';')
      (hr : Compiler.compile ⟨.mysql, .compact⟩ (.procedure call) = .ok r) :=
    And.intro hr (hboth.2 call hcall r hr)
  have hnone {c : Expression} {p : Prop} (hc : c ∈ ([] : List Expression)) : p :=
    absurd hc List.not_mem_nil
  have hleaf {c : Expression} (hstrings : ∀ s ∈ c.strings, Text.Lacks ';' s)
      (hoperands : c.operands = []) (hitems : c.items = []) :
      c.Spelled (Text.Lacks ';') fun _ => True :=
    ⟨hstrings, fun _ _ => trivial, fun _ hc => hnone (hoperands ▸ hc), fun _ hc _ =>
      hnone (hitems ▸ hc)⟩
  refine ⟨hstatement rfl ?_ rfl, hscript ⟨by decide, by decide⟩ rfl⟩
  refine ⟨by decide, fun _ _ => trivial, fun _ => hnone, ?_⟩
  refine List.forall_mem_singleton.mpr fun _ => ⟨by decide, fun _ _ => trivial, ?_, ?_⟩
  · refine List.forall_mem_cons.mpr ⟨hleaf (by decide) rfl rfl, ?_⟩
    exact List.forall_mem_singleton.mpr (hleaf (by decide) rfl rfl)
  · exact fun _ hc _ => hnone hc

end SqlTree
