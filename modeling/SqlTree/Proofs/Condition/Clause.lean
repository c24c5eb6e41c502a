import SqlTree.Proofs.Condition.Depth
import SqlTree.Proofs.Condition.Spelling
import SqlTree.Proofs.Condition.Tree
import SqlTree.Proofs.Statement.Visit

/-!
# Clauses made of conditions

Main statement, `filter_reads_spliced`: a `WHERE` clause reads as its tree with the nodes and the
nested sequences dissolved, in every dialect and both layouts.  So it keeps what the tree means if
no operand brings an `OR` next to an `AND`, and not in general (`filter_regroups`).

On the way from a tree to its clause and back stand the words of the tree (`Sequence.lexemes`): the
draft of the tree adds them (`Sequence.lines`), and they read as the dissolved tree
(`Sequence.readOperand_lexemes`).
-/

namespace SqlTree

open Draft (empty step text blank lineBreak argument parenthesized ensure keyword)

/-! ### Drafts that add words -/

/-- A draft that adds words to a text that ends as `P` says, and leaves one that ends as `Q` says.
-/
def Draft.Adds (x : Draft) (d : Dialect) (P Q : Writer → Prop) (words : List Lexeme) : Prop :=
  ∀ ⦃base start⦄ ⦃a : Assembly⦄ ⦃front⦄, base ≠ [] → P a.writer →
    a.writer.Shows d base start a.index front →
    ∃ b, x.addTo d a = .ok b ∧ Q b.writer ∧
      b.arguments = a.arguments ++ words.filterMap Lexeme.value? ∧
      b.writer.Shows d base start b.index (front ++ words)

namespace Draft

variable {d : Dialect} {P Q R : Writer → Prop} {x y : Draft} {words more : List Lexeme}

/-- Drafts add their words one after another. -/
theorem Adds.append (hx : x.Adds d P Q words) (hy : y.Adds d Q R more) :
    (x ++ y).Adds d P R (words ++ more) := by
  intro base start a front hbase ha hshows
  obtain ⟨b, hb, hQ, hbound, hshows⟩ := hx hbase ha hshows
  obtain ⟨c, hc, hR, hbound', hshows⟩ := hy hbase hQ hshows
  refine ⟨c, ?_, hR, ?_, ?_⟩
  · rw [addTo_append, hb]
    exact hc
  · rw [hbound', hbound, List.filterMap_append, List.append_assoc]
  · rwa [← List.append_assoc]

/-- A draft may be asked to do less: in fewer states, and with less said of the state it leaves. -/
theorem Adds.weaken {P' Q' : Writer → Prop} (hx : x.Adds d P Q words) (hP : ∀ w, P' w → P w)
    (hQ : ∀ w, Q w → Q' w) : x.Adds d P' Q' words := by
  intro base start a front hbase ha hshows
  obtain ⟨b, hb, hQb, hrest⟩ := hx hbase (hP _ ha) hshows
  exact ⟨b, hb, hQ _ hQb, hrest⟩

/-- A call that only changes the blank end of a text adds nothing. -/
theorem adds_step {s : Writer.Step}
    (h : ∀ w : Writer, w.settled ≠ [] → P w → (w.apply s).settled = w.settled ∧ Q (w.apply s)) :
    (step s).Adds d P Q [] := by
  intro base start a front hbase ha hshows
  obtain ⟨hsettled, hQ⟩ := h a.writer (hshows.settled_ne_nil hbase) ha
  refine ⟨_, rfl, hQ, (List.append_nil _).symm, ?_⟩
  rw [List.append_nil]
  exact hshows.of_settled hsettled

/-- Blanks and line breaks add no words, and leave a state in which a word may follow. -/
theorem adds_blank : blank.Adds d P Writer.Ready [] :=
  adds_step fun _ h _ => ⟨Writer.settled_blank, Writer.ready_blank h⟩

theorem adds_lineBreak : lineBreak.Adds d P Writer.Ready [] :=
  adds_step fun _ h _ => ⟨Writer.settled_lineBreak h, Writer.ready_lineBreak h⟩

theorem adds_indent (depth : Nat) :
    (step (.indent depth)).Adds d Writer.Ready Writer.Ready [] :=
  adds_step fun _ _ h => ⟨Writer.settled_indent depth, h.indent depth⟩

theorem adds_opening : (step .openParenthesis).Adds d P Writer.Ready [.opening] := by
  intro base start a front _ _ hshows
  exact ⟨_, rfl, ⟨'(', _, rfl, Or.inr rfl⟩, (List.append_nil _).symm, hshows.openParenthesis⟩

/-- A closing parenthesis drops blanks in front of it, which does not take words apart. -/
theorem adds_closing : (step .closeParenthesis).Adds d P Writer.Any [.closing] := by
  intro base start a front _ _ hshows
  exact ⟨_, rfl, trivial, (List.append_nil _).symm, hshows.closeParenthesis⟩

/-- A keyword is a word of its own if it does not stand right behind another one. -/
theorem adds_keyword {word : String} {l : Lexeme} (hword : word.toList.all isWordChar = true)
    (hkeyword : keyword? word.toList = some l) (hvalue : l.value? = none) :
    (text word).Adds d Writer.Ready Writer.Any [l] := by
  intro base start a front _ ha hshows
  refine ⟨_, rfl, trivial, ?_, hshows.write_keyword ha (List.all_eq_true.mp hword) hkeyword hvalue⟩
  rw [List.filterMap_cons_none hvalue]
  exact (List.append_nil _).symm

/-- Parentheses are two more words, around those of what they enclose. -/
theorem Adds.parenthesized (hx : x.Adds d Writer.Ready Q words) :
    (parenthesized x).Adds d P Writer.Any (.opening :: (words ++ [.closing])) := by
  rw [← List.singleton_append, ← List.append_assoc]
  exact (adds_opening.append hx).append adds_closing

/-- A comparison is read as one word, of its column, its sign and its placeholder. -/
theorem adds_comparison {c : Comparison} (hcolumn : isPlainName c.column = true)
    (hop : c.op.isSign = true) :
    (text c.column ++ blank ++ keyword c.op.sql ++ argument none c.value).Adds d Writer.Ready
      Writer.Any [.comparison c] := by
  intro base start a front _ ha hshows
  exact ⟨_, rfl, trivial, rfl, hshows.write_comparison ha hcolumn hop⟩

end Draft

open Draft (adds_blank adds_lineBreak adds_indent adds_opening adds_closing adds_keyword
  adds_comparison)

/-! ### Lines -/

/-- Items that add words, line by line. -/
structure LinesAdd (d : Dialect) (l : List (Expression × Draft)) (words : List Lexeme) : Prop where
  /-- There is an item. -/
  ne_nil : l ≠ []
  /-- They do so where a line has started. -/
  first : ∀ depth, (itemLines depth true l).Adds d Writer.Ready Writer.Any words
  /-- They do so on lines of their own. -/
  later : ∀ depth, (itemLines depth false l).Adds d Writer.Any Writer.Any words

namespace LinesAdd

variable {d : Dialect} {l m : List (Expression × Draft)} {words more : List Lexeme}

/-- Lines are written one below the other, and their words follow each other. -/
theorem append (hl : LinesAdd d l words) (hm : LinesAdd d m more) :
    LinesAdd d (l ++ m) (words ++ more) := by
  have hlines {P : Writer → Prop} {first : Bool}
      (h : ∀ depth, (itemLines depth first l).Adds d P Writer.Any words) (depth : Nat) :
      (itemLines depth first (l ++ m)).Adds d P Writer.Any (words ++ more) := by
    rw [Conditions.itemLines_append, List.isEmpty_eq_false_iff.mpr hl.ne_nil, Bool.and_false]
    exact (h depth).append (hm.later _)
  exact ⟨List.append_ne_nil_of_left_ne_nil hl.ne_nil m, hlines hl.first, hlines hl.later⟩

/-- One line adds the words of its item. -/
theorem singleton {item : Expression} {body : Draft}
    (h : (itemDraft item body).Adds d Writer.Ready Writer.Any words) :
    LinesAdd d [(item, body)] words := by
  have hindented (depth : Nat) :
      (step (.indent depth) ++ itemDraft item body).Adds d Writer.Ready Writer.Any words :=
    (adds_indent depth).append h
  refine ⟨List.cons_ne_nil _ _, fun depth => ?_, fun depth => ?_⟩
  · rw [itemLines, itemLines, if_pos rfl, Draft.empty_append, Draft.append_empty]
    exact hindented _
  · rw [itemLines, itemLines, if_neg Bool.false_ne_true, Draft.append_empty, Draft.append_assoc]
    exact adds_lineBreak.append (hindented _)

end LinesAdd

/-! ### Words of a tree -/

namespace ConditionTree

mutual

/-- The words of a condition. -/
def Operand.lexemes : Operand → List Lexeme
  | .comparison a => [.comparison a.toComparison]
  | .joined left op right => left.lexemes ++ .connective op :: right.lexemes
  | .not o => .not :: .opening :: (o.lexemes ++ [.closing])
  | .nested s => s.lexemes

/-- The words of a term. -/
def Term.lexemes : Term → List Lexeme
  | .operand o => o.lexemes
  | .group s => .opening :: (s.lexemes ++ [.closing])

/-- The words of a sequence. -/
def Sequence.lexemes : Sequence → List Lexeme
  | .last t => t.lexemes
  | .more t op rest => t.lexemes ++ .connective op :: rest.lexemes

end

/-- The values that a sequence is bound to. -/
def Sequence.values (s : Sequence) : List Value := s.lexemes.filterMap Lexeme.value?

/-- Reading goes on behind a chain where its last operand left off. -/
theorem chain_join (p : Place) (c e : Chain) (op : Connective) :
    p.chain (c.join op e) = Place.chain { left := some (p.chain c, op) } e := by
  rw [Place.chain, Chain.join, List.foldl_append]
  rfl

mutual

/-- An operand that is read in some place becomes part of the chain there. -/
theorem Operand.readOperand_lexemes (o : Operand) (p : Place) (outer : List Place)
    (rest : List Lexeme) :
    readOperand p outer (o.lexemes ++ rest) = readConnective (p.chain o.spliced) outer rest := by
  -- A nested sequence has no parentheses around its words: this is where grouping is lost.
  cases o with
  | comparison a => rfl
  | joined left op right =>
    rw [Operand.lexemes, List.append_assoc, left.readOperand_lexemes, List.cons_append,
      readConnective, right.readOperand_lexemes, Operand.spliced, chain_join]
  | not o =>
    rw [Operand.lexemes, List.cons_append, readOperand, List.cons_append, readOperand,
      List.append_assoc, o.readOperand_lexemes]
    rfl
  | nested s => exact s.readOperand_lexemes p outer rest

/-- A group is read as the condition between its parentheses. -/
theorem Term.readOperand_lexemes (t : Term) (p : Place) (outer : List Place)
    (rest : List Lexeme) :
    readOperand p outer (t.lexemes ++ rest) = readConnective (p.chain t.spliced) outer rest := by
  cases t with
  | operand o => exact o.readOperand_lexemes p outer rest
  | group s =>
    rw [Term.lexemes, List.cons_append, readOperand, List.append_assoc, s.readOperand_lexemes]
    rfl

/-- The words of a sequence put its dissolved tree in the place of an operand. -/
theorem Sequence.readOperand_lexemes (s : Sequence) (p : Place) (outer : List Place)
    (rest : List Lexeme) :
    readOperand p outer (s.lexemes ++ rest) = readConnective (p.chain s.spliced) outer rest := by
  cases s with
  | last t => exact t.readOperand_lexemes p outer rest
  | more t op more =>
    rw [Sequence.lexemes, List.append_assoc, t.readOperand_lexemes, List.cons_append,
      readConnective, more.readOperand_lexemes, Sequence.spliced, chain_join]

end

/-! ### Drafts of a tree -/

variable (d : Dialect)

theorem adds_operator (op : Connective) :
    (text op.operator.sql).Adds d Writer.Ready Writer.Any [.connective op] := by
  cases op with
  | and => exact adds_keyword (by decide) rfl rfl
  | or => exact adds_keyword (by decide) rfl rfl

/-- The items of a sequence with their drafts. -/
def Sequence.drafts (s : Sequence) : List (Expression × Draft) :=
  s.items.map fun e => (e, e.draft d)

/-- The items of a term with their drafts. -/
def Term.drafts (t : Term) : List (Expression × Draft) := t.items.map fun e => (e, e.draft d)

theorem sequenceDraft_items (s : Sequence) :
    sequenceDraft s.items (expressionDrafts d s.items) = itemLines 0 true (s.drafts d) := by
  rw [sequenceDraft, s.balanced_items, expressionDrafts_eq_map, zip_map_self]
  exact Draft.empty_append _

/-- Only the two markers are written in another way than as expressions. -/
theorem itemDraft_expression (o : Operand) (body : Draft) :
    itemDraft o.expression body = body := by
  rw [itemDraft, opensGroup_expression, closesGroup_expression, if_neg Bool.false_ne_true,
    if_neg Bool.false_ne_true]

mutual

/-- By recursion on the operand: it is written as the words that it is read from. -/
theorem Operand.adds (o : Operand) :
    (o.expression.draft d).Adds d Writer.Ready Writer.Any o.lexemes := by
  cases o with
  | comparison a =>
    have hmember : a.op.isMembership = false := by
      have := a.isSign
      revert this
      cases a.op <;> decide
    have hdraft : (Operand.comparison a).expression.draft d =
        text a.column ++ blank ++ keyword a.op.sql ++ argument none a.value := by
      show text a.column ++ blank ++ keyword a.op.sql ++
        (if a.op.isMembership then _ else if a.value.isNull then _ else _) = _
      rw [hmember, a.isBound, if_neg Bool.false_ne_true, if_neg Bool.false_ne_true]
    rw [hdraft]
    exact adds_comparison a.isPlain a.isSign
  | joined left op right =>
    have hmember : op.operator.isMembership = false := by cases op <;> rfl
    show (left.expression.draft d ++ blank ++ keyword op.operator.sql ++
      if op.operator.isMembership then _ else right.expression.draft d).Adds d _ _ _
    rw [hmember, if_neg Bool.false_ne_true]
    have hop : (keyword op.operator.sql).Adds d Writer.Ready Writer.Ready [.connective op] :=
      (adds_operator d op).append adds_blank
    have h := ((left.adds.append adds_blank).append hop).append right.adds
    rw [List.append_nil, List.append_assoc] at h
    exact h
  | not o =>
    -- No condition is a subquery, which would bring its own parentheses.
    have henclosed : enclosed o.expression (o.expression.draft d) =
        parenthesized (o.expression.draft d) := by
      cases o <;> rfl
    show (keyword "NOT" ++ enclosed o.expression (o.expression.draft d)).Adds d _ _ _
    rw [henclosed]
    have hnot : (text "NOT").Adds d Writer.Ready Writer.Any [.not] :=
      adds_keyword (by decide) rfl rfl
    exact (hnot.append adds_blank).append o.adds.parenthesized
  | nested s =>
    show (sequenceDraft s.items (expressionDrafts d s.items)).Adds d _ _ _
    rw [sequenceDraft_items]
    exact s.lines.first 0

/-- A group is written as a line with its opening marker, its own lines and one with its closing
marker. -/
theorem Term.lines (t : Term) : LinesAdd d (t.drafts d) t.lexemes := by
  cases t with
  | operand o =>
    refine LinesAdd.singleton ?_
    rw [itemDraft_expression]
    exact o.adds
  | group s =>
    have hopening : LinesAdd d [(Expression.openGroup, Expression.openGroup.draft d)] [.opening] :=
      LinesAdd.singleton (adds_opening.weaken (fun _ h => h) fun _ _ => trivial)
    have hclosing : LinesAdd d [(Expression.closeGroup, Expression.closeGroup.draft d)]
        [.closing] := LinesAdd.singleton adds_closing
    have h := hopening.append (s.lines.append hclosing)
    rw [Term.drafts, Term.items, List.map_cons, List.map_append]
    exact h

/-- A sequence adds its words, item by item. -/
theorem Sequence.lines (s : Sequence) : LinesAdd d (s.drafts d) s.lexemes := by
  cases s with
  | last t => exact t.lines
  | more t op rest =>
    have hop : LinesAdd d [(Expression.operator op.operator, text op.operator.sql)]
        [.connective op] := LinesAdd.singleton (adds_operator d op)
    have h := t.lines.append (hop.append rest.lines)
    rw [Sequence.drafts, Sequence.items, List.map_append, List.map_cons]
    exact h

end

end ConditionTree

/-! ### Clauses -/

open ConditionTree in
/-- **A clause says what its tree says with nodes and nested sequences dissolved.** The `WHERE`
clause of every tree is written in every dialect and both layouts, behind any statement.  It binds
the values of the tree in order, and its text, whatever its blank end, reads as the dissolved tree.
If no operand brings an `OR` next to an `AND`, this has the truth value of the tree. -/
theorem filter_reads_spliced (s : Sequence) (d : Dialect) (a : Assembly) :
    ∃ b clause, ((Expression.filter s.items).draft d).addTo d a = .ok b ∧
      b.writer.settled = (a.writer.lineBreak.write "WHERE").text ++ clause ∧
      b.arguments = a.arguments ++ s.values ∧
      (∀ gap, (∀ c ∈ gap, Text.isBlank c = true) →
        readCondition d a.index s.values (clause ++ gap) = some s.spliced.formula) ∧
      (s.grouped = true → ∀ σ, s.spliced.formula.holds σ = s.formula.holds σ) := by
  have hne : s.items.isEmpty = false := by
    have := (s.lines d).ne_nil
    rw [List.isEmpty_eq_false_iff]
    exact fun hnil => this (by rw [Sequence.drafts, hnil, List.map_nil])
  have hdraft : (Expression.filter s.items).draft d =
      lineBreak ++ text "WHERE" ++ (lineBreak ++ itemLines 0 true (s.drafts d)) := by
    show (if s.items.isEmpty then _ else _) = _
    rw [hne, if_neg Bool.false_ne_true, sequenceDraft_items, Draft.append_assoc]
  let start : Assembly := { a with writer := a.writer.lineBreak.write "WHERE" }
  have hsettled : start.writer.settled = start.writer.text := by
    refine Writer.settled_of_last rfl fun c hc => ?_
    rw [Writer.text_write, List.getLast?_append] at hc
    cases hc
    decide
  -- Behind the keyword there are no words yet.
  have hshows : start.writer.Shows d start.writer.text a.index a.index [] :=
    ⟨[], by rw [hsettled, List.append_nil], fun rest more _ => Option.map_id'.symm⟩
  have hbase : start.writer.text ≠ [] := by
    rw [Writer.text_write]
    exact List.append_ne_nil_of_right_ne_nil _ (by decide)
  have hadds : (lineBreak ++ itemLines 0 true (s.drafts d)).Adds d Writer.Any Writer.Any
      s.lexemes := adds_lineBreak.append ((s.lines d).first 0)
  -- The tree adds its words there; nothing but a blank end follows, so that the last one ends.
  obtain ⟨b, hb, -, hbound, clause, hclause, hread⟩ := hadds hbase trivial hshows
  refine ⟨b, clause, ?_, hclause, hbound, fun gap hgap => ?_, fun h σ => s.holds_spliced h⟩
  · rw [hdraft, Draft.addTo_append]
    exact hb
  · have hend : WordEnds (gap ++ []) := Writer.wordEnds_gap hgap (Or.inr nofun)
    have hwords := hread (gap ++ []) [] (Or.inr hend)
    rw [lexemes_gap hgap, lexemes_nil, List.append_nil, List.append_nil, Option.map_some,
      List.append_nil] at hwords
    have hformula := s.readOperand_lexemes {} [] []
    rw [List.append_nil] at hformula
    rw [readCondition]
    exact (congrArg (Option.bind · _) hwords).trans hformula

namespace ConditionTree

/-- A column compared with a number. -/
def Operand.number (column : String) (n : Int64) (h : isPlainName column = true) : Operand :=
  .comparison ⟨⟨column, .eq, .int n⟩, h, rfl, rfl⟩

/-- An `OR` between the first two of three comparisons. -/
def firstOrSecond : Operand := .joined (.number "a" 1 rfl) .or (.number "b" 2 rfl)

/-- An `AND` with the third one, in a sequence that has the `OR` between markers. -/
def markedOr : Sequence :=
  .more (.group (.last (.operand firstOrSecond))) .and (.last (.operand (.number "c" 3 rfl)))

/-- An `AND` with the third one, as a node that has the `OR` on its left side. -/
def bareOr : Sequence := .last (.operand (.joined firstOrSecond .and (.number "c" 3 rfl)))

end ConditionTree

open ConditionTree in
/-- An `OR` between markers stays together. -/
theorem filter_reads_spliced_markers (σ : Comparison → Bool) :
    ∃ b clause f, ((Expression.filter markedOr.items).draft .postgres).addTo .postgres
        (Assembly.start .pretty) = .ok b ∧
      b.writer.settled = "WHERE".toList ++ clause ∧
      readCondition .postgres 0 [.int 1, .int 2, .int 3] clause = some f ∧
      f.holds σ = markedOr.formula.holds σ := by
  obtain ⟨b, clause, hb, hsettled, -, hread, hholds⟩ :=
    filter_reads_spliced markedOr .postgres (Assembly.start .pretty)
  have hclause := hread [] nofun
  rw [List.append_nil] at hclause
  exact ⟨b, clause, _, hb, hsettled, hclause, hholds rfl σ⟩

open ConditionTree in
/-- An `OR` on one side of an `AND` does not: the condition holds for every row with the first
comparison, whatever the third one says. -/
theorem filter_regroups :
    (⟨.ansi, .compact⟩ : Compiler).compile (.query {
        source := some ⟨[{ name := "t" }], []⟩
        filter := some bareOr.items }) =
      .ok ⟨"SELECT * FROM t WHERE a = ? OR b = ? AND c = ?;", [.int 1, .int 2, .int 3]⟩ ∧
      ∃ f, readCondition .ansi 0 [.int 1, .int 2, .int 3] " a = ? OR b = ? AND c = ?".toList =
          some f ∧
        f.holds (fun c => c.column == "a") = true ∧
        bareOr.formula.holds (fun c => c.column == "a") = false := by
  -- The reader recurses on the length of the text, which has to be unfolded.
  exact ⟨rfl, bareOr.spliced.formula, by with_unfolding_all rfl, rfl, rfl⟩

end SqlTree
