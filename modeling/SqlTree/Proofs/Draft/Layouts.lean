import SqlTree.Proofs.Draft.Aligned
import SqlTree.Proofs.Statement.Start

/-!
# The two layouts

Main statement, `compile_collapse`: written in one line, a statement or a call is what it is with
its lines kept apart, collapsed; both texts are tidy, and the arguments are the same.

A draft keeps two statements aligned (`Draft.KeepsAligned`) if its texts are smooth where they
stand.  Words and bare names are smooth anywhere (`Draft.aligned_closed`); a text that starts with a
space has to stand behind a name or a parenthesis.
-/

namespace SqlTree

open Draft

/-- Two statements of one meaning: their texts are aligned, and they have the same arguments. -/
structure Assembly.Aligned (a b : Assembly) : Prop where
  /-- The texts are aligned. -/
  writer : a.writer.Aligned b.writer
  /-- The arguments are the same. -/
  arguments : a.arguments = b.arguments
  /-- As many placeholders have been counted. -/
  index : a.index = b.index

namespace Draft

/-! ### Aligned drafts -/

/-- A draft behind which two statements are aligned if they are in front. -/
def KeepsAligned (d : Dialect) (x : Draft) : Prop :=
  ∀ a b a' b' : Assembly, a.Aligned b → x.addTo d a = .ok a' → x.addTo d b = .ok b' → a'.Aligned b'

variable {d : Dialect} {x y : Draft}

theorem keepsAligned_fault (e : Error) : (Draft.fault e).KeepsAligned d := by
  intro a b a' b' _ ha'
  cases ha'

theorem keepsAligned_empty : empty.KeepsAligned d := by
  intro a b a' b' h ha' hb'
  cases ha'
  cases hb'
  exact h

/-- Layouts that run in step through either draft do so through both. -/
theorem KeepsAligned.append (hx : x.KeepsAligned d) (hy : y.KeepsAligned d) :
    (x ++ y).KeepsAligned d := by
  intro a b a'' b'' h ha'' hb''
  obtain ⟨a', ha', ha''⟩ := addTo_append_eq_ok ha''
  obtain ⟨b', hb', hb''⟩ := addTo_append_eq_ok hb''
  exact hy a' b' a'' b'' (hx a b a' b' h ha' hb') ha'' hb''

/-- A step keeps two texts aligned if it does so whatever has been written before. -/
theorem keepsAligned_step {s : Writer.Step}
    (h : ∀ w v : Writer, w.Aligned v → (w.apply s).Aligned (v.apply s)) :
    (step s).KeepsAligned d := by
  intro a b a' b' hab ha' hb'
  cases ha'
  cases hb'
  exact ⟨h a.writer b.writer hab.writer, hab.arguments, hab.index⟩

/-- A text without line breaks and without blanks at its ends is the same in both layouts. -/
theorem keepsAligned_text {s : String} (hs : Text.Smooth s) : (text s).KeepsAligned d :=
  keepsAligned_step fun _ _ h => h.write (smooth_of_none hs _)

theorem keepsAligned_blank : blank.KeepsAligned d := keepsAligned_step fun _ _ h => h.blank

theorem keepsAligned_comma : (step .comma).KeepsAligned d := keepsAligned_step fun _ _ h => h.comma

theorem keepsAligned_lineBreak : lineBreak.KeepsAligned d :=
  keepsAligned_step fun _ _ h => h.lineBreak

/-- A line break and its indentation stand where the compact layout has a single blank. -/
theorem keepsAligned_line (depth : Nat) :
    (lineBreak ++ step (.indent depth)).KeepsAligned d := by
  intro a b a' b' h ha' hb'
  cases ha'
  cases hb'
  exact ⟨h.writer.line depth, h.arguments, h.index⟩

theorem keepsAligned_opening : (step .openParenthesis).KeepsAligned d :=
  keepsAligned_step fun _ _ h => h.openParenthesis

theorem keepsAligned_closing : (step .closeParenthesis).KeepsAligned d :=
  keepsAligned_step fun _ _ h => h.closeParenthesis

theorem KeepsAligned.parenthesized (hx : x.KeepsAligned d) : (parenthesized x).KeepsAligned d :=
  (keepsAligned_opening.append hx).append keepsAligned_closing

/-- A terminator drops the blanks in front of it, which is where the layouts differ. -/
theorem keepsAligned_terminate {terminator : String} (h : Text.Bare terminator) :
    (step (.terminate terminator)).KeepsAligned d :=
  keepsAligned_step fun _ _ hw => hw.terminate h.smooth

/-- Behind a name a text may start with a space. -/
theorem keepsAligned_behind {s t : String} (hs : Text.Bare s) (hne : s ≠ "")
    (ht : ∀ c, isSpacing c = false → c ≠ '(' → smooth (some c) t.toList = true) :
    (text s ++ text t).KeepsAligned d := by
  have hwrite (w : Writer) : (w.write s).write t = w.write (s ++ t) := by
    simp [Writer.write]
  intro a b a' b' h ha' hb'
  cases ha'
  cases hb'
  refine ⟨?_, h.arguments, h.index⟩
  show ((a.writer.write s).write t).Aligned ((b.writer.write s).write t)
  rw [hwrite, hwrite]
  exact h.writer.write (smooth_of_none (hs.smooth_append hne ht) _)

theorem bare_composes : Text.Composes Text.Bare where
  append := Text.Bare.append
  numeral := Text.bare_toString

/-- A placeholder is the token, and then a name or a number. -/
theorem keepsAligned_argument (htoken : Text.Bare d.token) {name : Option String}
    (hname : ∀ s ∈ name, Text.Bare s) (v : Value) : (argument name v).KeepsAligned d := by
  intro a b a' b' h ha' hb'
  cases ha'
  cases hb'
  have hbare := bare_composes.placeholder htoken (by decide) a.index hname
  refine ⟨?_, congrArg (· ++ [v]) h.arguments, congrArg (fun k => (d.placeholder k name).2) h.index⟩
  show (a.writer.write _).Aligned (b.writer.write (d.placeholder b.index name).1)
  rw [← h.index]
  exact h.writer.write (smooth_of_none hbare.smooth _)

/-! ### Statements -/

/-- Schema, name and alias are set apart by blanks and dots that no layout moves. -/
theorem keepsAligned_table {t : Table} (h : ∀ s ∈ t.strings, Text.Bare s) :
    t.draft.KeepsAligned d := by
  have hname {s : String} (hs : Text.Bare s) : (text s).KeepsAligned d :=
    keepsAligned_text hs.smooth
  refine Table.draft_of_names keepsAligned_fault KeepsAligned.append hname (fun hs hne => ?_) h
  -- The alias stands behind a name, so that its space is due.
  exact keepsAligned_behind hs hne fun c hspacing hopen => smooth_space hspacing hopen rfl

/-- A derived table is closed and named at once, so that no layout comes between. -/
theorem keepsAligned_labelled (hx : x.KeepsAligned d) {s : String} (hs : s ∈ suffixes) :
    (parenthesized x ++ text s).KeepsAligned d := by
  have hclosing : (step .closeParenthesis ++ text s).KeepsAligned d := by
    intro a b a' b' h ha' hb'
    cases ha'
    cases hb'
    have hs : smooth (some ')') s.toList = true := by revert s; decide
    exact ⟨h.writer.closeParenthesis.write hs, h.arguments, h.index⟩
  rw [parenthesized, append_assoc]
  exact (keepsAligned_opening.append hx).append hclosing

theorem smooth_rowBounds (p : QueryParts) : Text.Smooth p.rowBounds := by
  have hbare (n : Nat) : Text.Bare (toString n) := Text.bare_toString n
  unfold QueryParts.rowBounds
  rw [String.append_assoc]
  refine Text.Smooth.append (by decide) ?_
  split
  · rw [String.append_empty]
    exact (hbare _).smooth
  · refine (hbare _).smooth_append (Text.toString_ne_empty _) fun c hspacing hopen => ?_
    rw [String.toList_append]
    exact smooth_append (smooth_space hspacing hopen (by decide)) (smooth_of_none (hbare _).smooth)

section Closure

variable (htoken : Text.Bare d.token) (hquote : ∃ b ∈ Dialect.builtIn, d.quote = b.quote)
include htoken hquote

omit htoken in
/-- Names, also quoted ones, are neither empty nor set off by blanks. -/
theorem bare_output {s : String} (hs : IsOutput d Text.Bare Text.ColumnName s) :
    Text.Bare s ∧ s ≠ "" := by
  cases hs with
  | @label s h _ =>
    obtain ⟨mark, hmark, hquote⟩ := Dialect.exists_quoteWith hquote
    rw [hquote]
    refine ⟨Text.bare_quoteWith ?_ h, Text.quoteWith_ne_empty mark s⟩
    rcases hmark with rfl | rfl <;> decide
  | column h hcolumn => exact ⟨Text.bare_unqualified h, Text.unqualified_ne_empty hcolumn⟩

/-- Words and bare names are smooth, and what starts with a space stands behind something. -/
theorem aligned_closed : Draft.Closed d Text.Bare Text.ColumnName (KeepsAligned d) :=
  Draft.Stepwise.closed {
    fault := keepsAligned_fault
    empty := keepsAligned_empty
    append := KeepsAligned.append
    blank := keepsAligned_blank
    comma := keepsAligned_comma
    lineBreak := keepsAligned_lineBreak
    opening := keepsAligned_opening
    closing := keepsAligned_closing
    margin := keepsAligned_step fun _ _ h => h.margin
    line := keepsAligned_line
    argument := keepsAligned_argument htoken fun _ hs => by cases hs
    word s hs := keepsAligned_text (smooth_words s hs)
    numeral s hs n := by
      have hs : Text.Smooth s := by revert s; decide
      exact keepsAligned_text (hs.append (Text.bare_toString n).smooth)
    page m n := by
      have hpage : Text.Smooth (toString m ++ ("," ++ toString n)) := by
        refine (Text.bare_toString m).smooth_append (Text.toString_ne_empty m)
          fun c hspacing _ => ?_
        rw [String.toList_append]
        exact smooth_comma hspacing (smooth_of_none (Text.bare_toString n).smooth _)
      rw [String.append_assoc, String.append_assoc]
      exact keepsAligned_text (Text.Smooth.append (by decide) hpage)
    bounds p := keepsAligned_text (smooth_rowBounds p)
    string hs := keepsAligned_text hs.smooth
    table := keepsAligned_table
    outputs _ h :=
      keepsAligned_text (Text.smooth_intercalate fun s hs => bare_output hquote (h s hs))
    labelled hx _ hs := keepsAligned_labelled hx hs
    assignment {s x} hs hcolumn hx := by
      have hequals : (text s ++ text " = ").KeepsAligned d :=
        keepsAligned_behind hs hcolumn.1 fun c hspacing hopen => smooth_space hspacing hopen rfl
      exact hequals.append hx }

end Closure

end Draft

/-! ### Procedure calls -/

namespace Procedure

variable {d : Dialect} {call : Procedure}

/-- The name of a procedure and the names of its parameters are bare. -/
def BareNames (call : Procedure) : Prop :=
  Text.Bare call.name ∧ ∀ p ∈ call.parameters, Text.Bare p.name

theorem bound_aligned (htoken : Text.Bare d.token) {p : Parameter} (hp : Text.Bare p.name) :
    (bound p).KeepsAligned d := by
  refine keepsAligned_argument htoken (fun s hs => ?_) p.value
  split at hs
  · cases hs
  · exact Option.some.inj hs ▸ hp

/-- A session variable is a bare name, or there is none. -/
theorem sessionVariable_cases (call : Procedure) {p : Parameter} (hp : Text.Bare p.name) :
    (∃ e, call.sessionVariable p = .fault e) ∨
      ∃ s, call.sessionVariable p = text s ∧ Text.Bare s ∧ s ≠ "" := by
  unfold sessionVariable
  dsimp only
  split
  · exact Or.inl ⟨_, rfl⟩
  · refine Or.inr ⟨_, rfl, Text.Bare.append (by decide) (Text.bare_trimmed hp), fun h => ?_⟩
    have htoList : ("@" ++ Text.trimmed p.name).toList = [] := by rw [h]; rfl
    rw [String.toList_append] at htoList
    cases htoList

theorem sessionVariable_aligned {p : Parameter} (hp : Text.Bare p.name) :
    (call.sessionVariable p).KeepsAligned d := by
  rcases call.sessionVariable_cases hp with ⟨e, he⟩ | ⟨s, hs, hbare, -⟩
  · exact he ▸ keepsAligned_fault e
  · exact hs ▸ keepsAligned_text hbare.smooth

/-- Behind a session variable a text may start with a space or a comma. -/
theorem sessionVariable_behind {p : Parameter} (hp : Text.Bare p.name) {t : String}
    (ht : ∀ c, isSpacing c = false → c ≠ '(' → smooth (some c) t.toList = true) :
    (call.sessionVariable p ++ text t).KeepsAligned d := by
  rcases call.sessionVariable_cases hp with ⟨e, he⟩ | ⟨s, hs, hbare, hne⟩
  · exact he ▸ keepsAligned_fault e
  · exact hs ▸ keepsAligned_behind hbare hne ht

theorem setVariable_aligned {p : Parameter} (hp : Text.Bare p.name) :
    (text "SET " ++ call.sessionVariable p ++ text " = ").KeepsAligned d := by
  have hword : (text "SET ").KeepsAligned d := keepsAligned_text (by decide)
  rw [append_assoc]
  exact hword.append (sessionVariable_behind hp fun c hspacing hopen =>
    smooth_space hspacing hopen rfl)

/-- Session variables with commas between them. -/
theorem outputs_aligned {l : List Parameter} (h : ∀ p ∈ l, Text.Bare p.name) :
    (joined (text ", ") (l.map call.sessionVariable)).KeepsAligned d := by
  induction l with
  | nil => exact keepsAligned_empty
  | cons p rest ih =>
    have hp : Text.Bare p.name := h p List.mem_cons_self
    have hrest := ih fun q hq => h q (List.mem_cons_of_mem p hq)
    -- Only an output in front of another one has a comma behind it.
    cases rest with
    | nil => exact sessionVariable_aligned hp
    | cons q rest =>
      have hcomma : (call.sessionVariable p ++ text ", ").KeepsAligned d :=
        sessionVariable_behind hp fun c hspacing _ => smooth_comma hspacing rfl
      exact hcomma.append hrest

section Calls

variable (htoken : Text.Bare d.token) (hquote : ∃ b ∈ Dialect.builtIn, d.quote = b.quote)
  (hterminator : Text.Bare d.terminator) (h : call.BareNames)
include htoken hquote hterminator h

/-- A call through session variables runs in step: seeds, call and read back are statements of their
own, each of which ends in a terminator. -/
theorem session_aligned : (call.session d).KeepsAligned d := by
  have hclosed := aligned_closed htoken hquote
  have hmem {q : Direction → Bool} {p : Parameter} (hp : p ∈ call.withDirection q) :
      Text.Bare p.name := h.2 p (List.mem_filter.mp hp).1
  have hend : (step (.terminate d.terminator)).KeepsAligned d := keepsAligned_terminate hterminator
  -- The seeds are statements in front of the call.
  have hseeds : (concat ((call.withDirection (· == .inout)).map (call.seed d))).KeepsAligned d := by
    refine hclosed.concat (Draft.Closed.map fun p hp => ?_)
    have hset : (text "SET " ++ call.sessionVariable p ++ text " = ").KeepsAligned d :=
      setVariable_aligned (hmem hp)
    exact ((hset.append (bound_aligned htoken (hmem hp))).append hend).append keepsAligned_lineBreak
  -- A function has a result that its call is assigned to, a procedure has none.
  have hopening : call.opening.KeepsAligned d := by
    have hname : (text call.name).KeepsAligned d := keepsAligned_text h.1.smooth
    unfold opening
    cases hresult : call.results.head? with
    | none => exact (keepsAligned_text (by decide)).append hname
    | some result =>
      have hresult : result ∈ call.parameters :=
        (List.mem_filter.mp (List.mem_of_head? hresult)).1
      exact (setVariable_aligned (h.2 result hresult)).append hname
  have hslots : (parenthesized (commaSeparated
      ((call.withDirection (· != .result)).map call.slot))).KeepsAligned d := by
    refine hclosed.parenthesized (hclosed.commaSeparated (Draft.Closed.map fun p hp => ?_))
    exact Draft.Closed.ite (sessionVariable_aligned (hmem hp)) (bound_aligned htoken (hmem hp))
  -- Whatever the routine has written is selected behind the call.
  have hreadBack : (call.readBack d (call.withDirection (· != .input))).KeepsAligned d := by
    have hselect := (keepsAligned_lineBreak.append (keepsAligned_text (d := d) (s := "SELECT")
      (by decide))).append keepsAligned_blank
    have houtputs : (joined (text ", ") ((call.withDirection (· != .input)).map
        call.sessionVariable)).KeepsAligned d := outputs_aligned fun p hp => hmem hp
    exact Draft.Closed.ite keepsAligned_empty ((hselect.append houtputs).append hend)
  rw [session_eq]
  exact (((hseeds.append hopening).append hslots).append hend).append hreadBack

/-- A call by a routine's own syntax runs in step. -/
theorem native_aligned : (call.native d).KeepsAligned d := by
  have hclosed := aligned_closed htoken hquote
  have hword :
      (text (if !call.results.isEmpty then "SELECT * FROM " else "CALL ")).KeepsAligned d := by
    cases call.results.isEmpty <;> exact keepsAligned_text (by decide)
  have hname : (text call.name).KeepsAligned d := keepsAligned_text h.1.smooth
  -- The slots are those parameters that are no results.
  have hslots : (commaSeparated
      ((call.withDirection call.hasNativeSlot).map nativeSlot)).KeepsAligned d := by
    refine hclosed.commaSeparated (Draft.Closed.map fun p hp => ?_)
    have hp : Text.Bare p.name := h.2 p (List.mem_filter.mp hp).1
    exact Draft.Closed.ite (keepsAligned_text (by decide)) (bound_aligned htoken hp)
  rw [native_eq]
  exact ((hword.append hname).append hslots.parenthesized).append
    (keepsAligned_terminate hterminator)

theorem draft_aligned : (call.draft d).KeepsAligned d := by
  have hclosed := aligned_closed htoken hquote
  unfold draft
  refine ((hclosed.ensure _ _).append (hclosed.ensure _ _)).append ?_
  cases d.procedureStyle with
  | sessionVariables => exact session_aligned htoken hquote hterminator h
  | nativeCall => exact native_aligned htoken hquote hterminator h

end Calls

end Procedure

/-! ### Compilers -/

/-- A compiled statement with its text collapsed. -/
def Compiled.collapse (r : Compiled) : Compiled :=
  ⟨String.ofList (SqlTree.collapse r.sql.toList), r.arguments⟩

/-- A draft that keeps statements aligned is collapsed where it is written in one line. -/
theorem Draft.KeepsAligned.assemble {d : Dialect} {x : Draft} (hx : x.KeepsAligned d)
    (hstarts : x.Starts) :
    x.assemble d .compact = (x.assemble d .pretty).map Compiled.collapse ∧
      ∀ layout r, x.assemble d layout = .ok r → Tidy r.sql.toList := by
  -- Both statements are written behind one letter, so that there is something at the start.
  have hbase : (Assembly.mk ⟨.pretty, ['S']⟩ [] 0).Aligned ⟨⟨.compact, ['S']⟩, [], 0⟩ :=
    ⟨⟨rfl, rfl, rfl, ⟨fun a ha => absurd ha (by simp), trivial⟩, 'S', List.mem_cons_self,
      by decide⟩, rfl, rfl⟩
  have htop (layout : Layout) := addTo_onTop hstarts d layout ['S'] [] 0
  cases x with
  | fault e => exact ⟨rfl, fun layout r hr => by cases hr⟩
  | pieces l =>
    have h := hx _ _ _ _ hbase (htop .pretty) (htop .compact)
    have htext := h.writer.text
    have htidy := h.writer.tidy.of_append
    simp only [Assembly.onTop, Writer.onTop] at htext
    rw [Collapsed.finish_append_singleton (by decide) (by decide), List.append_cancel_right_eq]
      at htext
    have hcompact : ((Assembly.start .compact).addAll d l).writer.text =
        collapse ((Assembly.start .pretty).addAll d l).writer.text := by
      rw [Writer.text, Writer.text, collapse_reverse]
      exact congrArg List.reverse htext
    refine ⟨?_, fun layout r hr => ?_⟩
    · show Except.ok (Compiled.mk (String.ofList _) _) =
        .ok (Compiled.mk (String.ofList (collapse (String.ofList _).toList)) _)
      rw [hcompact, String.toList_ofList]
      exact congrArg (fun values => Except.ok (Compiled.mk _ values)) h.arguments.symm
    · cases hr
      show Tidy (String.ofList _).toList
      rw [String.toList_ofList]
      cases layout with
      | pretty => exact htidy.tidy
      | compact => exact hcompact ▸ tidy_collapse _

/-- **One layout is the other one, collapsed.** If the placeholders, the terminator and the names of
a statement or a call are bare, and quotes are those of a built-in dialect, then what is compiled in
one line is what is compiled with lines kept apart, collapsed: the same error, or the same arguments
and the collapsed text.  Both texts are tidy.  A template has one layout only. -/
theorem compile_collapse {d : Dialect} (hquote : ∃ b ∈ Dialect.builtIn, d.quote = b.quote)
    (htoken : Text.Bare d.token) (hterminator : Text.Bare d.terminator) :
    (∀ e : Expression, (∀ t, e ≠ .text t) → e.Spelled Text.Bare Text.ColumnName →
      Compiler.compile ⟨d, .compact⟩ e =
          (Compiler.compile ⟨d, .pretty⟩ e).map Compiled.collapse ∧
        ∀ layout r, Compiler.compile ⟨d, layout⟩ e = .ok r → Tidy r.sql.toList) ∧
      ∀ t, Compiler.compile ⟨d, .compact⟩ (.text t) = Compiler.compile ⟨d, .pretty⟩ (.text t) := by
  refine ⟨fun e htext he => ?_, fun t => rfl⟩
  have hstatement : (e.statementDraft d).KeepsAligned d :=
    Expression.statementDraft_closed (aligned_closed htoken hquote)
      (keepsAligned_terminate hterminator) he
  -- Everything but a template and a call is compiled as a statement.
  cases e with
  | text t => exact absurd rfl (htext t)
  | procedure call =>
    obtain ⟨hstrings, -⟩ := he
    have hnames : call.BareNames := ⟨hstrings _ List.mem_cons_self, fun p hp =>
      hstrings _ (List.mem_cons_of_mem _ (List.mem_map_of_mem hp))⟩
    exact (Procedure.draft_aligned htoken hquote hterminator hnames).assemble (call.starts_draft d)
  | _ => exact hstatement.assemble (Expression.starts_statementDraft d _)

set_option maxRecDepth 2000 in
/-- A group of conditions on lines of its own, and in one line. -/
theorem compile_collapse_group :
    Compiler.compile ⟨.ansi, .pretty⟩ (.delete {
        table := { name := "t" }
        filter := some [.openGroup, .value (.int 1), .closeGroup] }) =
        .ok ⟨"DELETE FROM t\nWHERE\n(\n\t?\n);", [.int 1]⟩ ∧
      Compiler.compile ⟨.ansi, .compact⟩ (.delete {
        table := { name := "t" }
        filter := some [.openGroup, .value (.int 1), .closeGroup] }) =
        .ok ⟨"DELETE FROM t WHERE (?);", [.int 1]⟩ := by
  refine ⟨rfl, Eq.trans ((compile_collapse ⟨.ansi, List.mem_cons_self, rfl⟩ (by decide)
    (by decide)).1 _ (by simp) ?_).1 rfl⟩
  -- The markers are written as parentheses, so that their own strings do not count.
  have hvalue : (Expression.value (.int 1)).Spelled Text.Bare Text.ColumnName :=
    ⟨by decide, by simp [Expression.columnNames], fun _ hc => absurd hc List.not_mem_nil,
      fun _ hc => absurd hc List.not_mem_nil⟩
  refine ⟨by decide, by simp [Expression.columnNames], fun _ hc => absurd hc List.not_mem_nil, ?_⟩
  intro c hc hmarker
  simp only [Expression.items, Option.getD_some, List.mem_cons, List.not_mem_nil, or_false] at hc
  rcases hc with rfl | rfl | rfl
  · exact absurd hmarker (by decide)
  · exact hvalue
  · exact absurd hmarker (by decide)

end SqlTree
