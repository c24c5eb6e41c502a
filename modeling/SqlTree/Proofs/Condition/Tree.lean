import SqlTree.Expression.Basic
import SqlTree.Proofs.Condition.Reader

/-!
# Trees of conditions

A tree of conditions groups in two ways: a `Condition` node holds two operands, and a sequence has
markers around a group.  `Sequence.formula` is what a tree means if every node and every nested
sequence is one operand.  `Sequence.spliced` is the tree with the nodes and the nested sequences
dissolved: their operands and connectives are joined to the sequence around them, and only markers
and `NOT` group.

The two have the same truth value if no operand brings an `OR` next to an `AND` (`grouped`,
`Sequence.holds_spliced`).
-/

namespace SqlTree

/-! ### Chains -/

/-- Formulas with connectives between them. -/
structure Chain where
  /-- The first formula. -/
  first : Formula
  /-- The others, each with the connective in front of it. -/
  rest : List (Connective × Formula) := []

/-- Puts a chain in the place of an operand, one formula after another. -/
def Place.chain (p : Place) (c : Chain) : Joined :=
  c.rest.foldl (fun j x => j.connect x.1 x.2) (p.operand c.first)

namespace Chain

/-- Two chains with a connective between them. -/
def join (c : Chain) (op : Connective) (e : Chain) : Chain :=
  ⟨c.first, c.rest ++ (op, e.first) :: e.rest⟩

/-- What a chain says: `AND` binds more tightly than `OR`. -/
def formula (c : Chain) : Formula := (Place.chain {} c).formula

/-- Whether there is an `OR` in a chain. -/
def disjunctive (c : Chain) : Bool := c.rest.any fun x => x.1 == .or

end Chain

/-- Whether two chains keep what they say when they are joined: an `OR` does not stand next to an
`AND`. -/
def Connective.separates (op : Connective) (c e : Chain) : Bool :=
  op == .or || (!c.disjunctive && !e.disjunctive)

/-! ### Trees -/

namespace ConditionTree

/-- A comparison that has a plain identifier, a sign and a value that is bound. -/
structure Atom extends Comparison where
  /-- The column is a plain identifier. -/
  isPlain : isPlainName column = true
  /-- The operator is a sign. -/
  isSign : op.isSign = true
  /-- The value is bound. -/
  isBound : value.isNull = false

mutual

/-- A condition. -/
inductive Operand where
  /-- A comparison. -/
  | comparison (a : Atom)
  /-- A node with two sides. -/
  | joined (left : Operand) (op : Connective) (right : Operand)
  /-- A node with `NOT` in front. -/
  | not (operand : Operand)
  /-- A sequence inside another one. -/
  | nested (items : Sequence)

/-- A part of a sequence that stands between two connectives. -/
inductive Term where
  /-- A condition. -/
  | operand (o : Operand)
  /-- A group between markers. -/
  | group (items : Sequence)

/-- A sequence of terms with connectives between them. -/
inductive Sequence where
  /-- The last term. -/
  | last (t : Term)
  /-- A term, the connective behind it and the rest. -/
  | more (t : Term) (op : Connective) (rest : Sequence)

end

mutual

/-- The expression that a condition is. -/
def Operand.expression : Operand → Expression
  | .comparison a => .condition ⟨some (.column a.column), a.op, some (.value a.value)⟩
  | .joined left op right => .condition ⟨some left.expression, op.operator, some right.expression⟩
  | .not o => .condition ⟨none, .not, some o.expression⟩
  | .nested s => .conditions s.items

/-- The items of a term. -/
def Term.items : Term → List Expression
  | .operand o => [o.expression]
  | .group s => .openGroup :: (s.items ++ [.closeGroup])

/-- The items of a sequence. -/
def Sequence.items : Sequence → List Expression
  | .last t => t.items
  | .more t op rest => t.items ++ .operator op.operator :: rest.items

end

mutual

/-- What a condition means. -/
def Operand.formula : Operand → Formula
  | .comparison a => .comparison a.toComparison
  | .joined left op right => .joined left.formula op right.formula
  | .not o => .not o.formula
  | .nested s => s.terms.formula

/-- What a term means. -/
def Term.formula : Term → Formula
  | .operand o => o.formula
  | .group s => s.terms.formula

/-- What the terms of a sequence mean, each of which is one operand. -/
def Sequence.terms : Sequence → Chain
  | .last t => { first := t.formula }
  | .more t op rest => Chain.join { first := t.formula } op rest.terms

end

/-- What a sequence means. -/
def Sequence.formula (s : Sequence) : Formula := s.terms.formula

mutual

/-- What a condition brings to the sequence that it stands in. -/
def Operand.spliced : Operand → Chain
  | .comparison a => { first := .comparison a.toComparison }
  | .joined left op right => left.spliced.join op right.spliced
  | .not o => { first := .not o.spliced.formula }
  | .nested s => s.spliced

/-- What a term brings to the sequence that it stands in. -/
def Term.spliced : Term → Chain
  | .operand o => o.spliced
  | .group s => { first := s.spliced.formula }

/-- A sequence with its nodes and its nested sequences dissolved. -/
def Sequence.spliced : Sequence → Chain
  | .last t => t.spliced
  | .more t op rest => t.spliced.join op rest.spliced

end

/-- The first term of a sequence. -/
def Sequence.head : Sequence → Term
  | .last t => t
  | .more t _ _ => t

mutual

/-- Whether no operand in a condition brings an `OR` next to an `AND`. -/
def Operand.grouped : Operand → Bool
  | .comparison _ => true
  | .joined left op right =>
    left.grouped && right.grouped && op.separates left.spliced right.spliced
  | .not o => o.grouped
  | .nested s => s.grouped

/-- Whether no operand in a term brings an `OR` next to an `AND`. -/
def Term.grouped : Term → Bool
  | .operand o => o.grouped
  | .group s => s.grouped

/-- Whether no operand in a sequence brings an `OR` next to an `AND`. -/
def Sequence.grouped : Sequence → Bool
  | .last t => t.grouped
  | .more t op rest => t.grouped && rest.grouped && op.separates t.spliced rest.head.spliced

end

/-! ### Groups of a sequence -/

theorem opensGroup_expression (o : Operand) : o.expression.opensGroup = false := by
  cases o <;> rfl

theorem closesGroup_expression (o : Operand) : o.expression.closesGroup = false := by
  cases o <;> rfl

mutual

/-- A term opens as many groups as it closes, and none that is not open. -/
theorem Term.balancedFrom_append (t : Term) (depth : Nat) (rest : List Expression) :
    Conditions.balancedFrom depth (t.items ++ rest) = Conditions.balancedFrom depth rest := by
  cases t with
  | operand o =>
    simp only [Term.items, List.singleton_append, Conditions.balancedFrom, opensGroup_expression,
      closesGroup_expression, Bool.false_eq_true, if_false]
  | group s =>
    have hs := s.balancedFrom_append (depth + 1) (.closeGroup :: rest)
    simp only [Term.items, List.cons_append, List.append_assoc, List.nil_append]
    exact hs

/-- Every group of a sequence is closed. -/
theorem Sequence.balancedFrom_append (s : Sequence) (depth : Nat) (rest : List Expression) :
    Conditions.balancedFrom depth (s.items ++ rest) = Conditions.balancedFrom depth rest := by
  cases s with
  | last t => exact t.balancedFrom_append depth rest
  | more t op more =>
    rw [Sequence.items, List.append_assoc, t.balancedFrom_append]
    exact more.balancedFrom_append depth rest

end

/-- The items of a tree are balanced by construction. -/
theorem Sequence.balanced_items (s : Sequence) : Conditions.balanced s.items = true := by
  have h := s.balancedFrom_append 0 []
  rw [List.append_nil] at h
  exact h

end ConditionTree

/-! ### Truth values -/

section Values

variable {σ : Comparison → Bool}

/-- The truth value of what follows a product of the value `x`: `AND` goes on with the product, and
`OR` starts another one. -/
def valueAfter (σ : Comparison → Bool) : (x : Bool) → List (Connective × Formula) → Bool
  | x, [] => x
  | x, (.and, f) :: rest => valueAfter σ (x && f.holds σ) rest
  | x, (.or, f) :: rest => x || valueAfter σ (f.holds σ) rest

theorem Joined.holds_formula (j : Joined) :
    j.formula.holds σ = (j.before.any (·.holds σ) || j.last.holds σ) := by
  unfold formula
  cases j.before <;> rfl

/-- The value of a chain can be computed from the left, with an `OR` setting the last operand apart.
-/
theorem holds_foldl_connect (j : Joined) (rest : List (Connective × Formula)) :
    (rest.foldl (fun j x => j.connect x.1 x.2) j).formula.holds σ =
      (j.before.any (·.holds σ) || valueAfter σ (j.last.holds σ) rest) := by
  -- Along the operands behind the first ones, with what has been joined so far.
  induction rest generalizing j with
  | nil => exact j.holds_formula
  | cons x rest ih =>
    obtain ⟨op, f⟩ := x
    rw [List.foldl_cons, ih]
    cases op with
    | and => rfl
    | or =>
      show (j.formula.holds σ || _) = _
      rw [j.holds_formula, Bool.or_assoc]
      rfl

namespace Chain

theorem holds_formula (c : Chain) :
    c.formula.holds σ = valueAfter σ (c.first.holds σ) c.rest := by
  have h := holds_foldl_connect (σ := σ) { last := c.first } c.rest
  rw [Option.any_none, Bool.false_or] at h
  exact h

/-- In a chain without `OR` everything is one product. -/
theorem valueAfter_and {l : List (Connective × Formula)}
    (hl : (l.any fun x => x.1 == .or) = false) (x y : Bool) :
    valueAfter σ (x && y) l = (x && valueAfter σ y l) := by
  -- Along the operands: without an `OR` the first factor is carried to the end.
  induction l generalizing y with
  | nil => rfl
  | cons z rest ih =>
    obtain ⟨op, f⟩ := z
    rw [List.any_cons, Bool.or_eq_false_iff] at hl
    cases op with
    | and =>
      show valueAfter σ (x && y && f.holds σ) rest = _
      rw [Bool.and_assoc, ih hl.2]
      rfl
    | or => cases hl.1

/-- An `OR` ends what an `AND` binds together. -/
theorem valueAfter_append_or (x : Bool) (l : List (Connective × Formula)) (f : Formula)
    (rest : List (Connective × Formula)) :
    valueAfter σ x (l ++ (.or, f) :: rest) =
      (valueAfter σ x l || valueAfter σ (f.holds σ) rest) := by
  -- Along the operands in front of the `OR`.
  induction l generalizing x with
  | nil => rfl
  | cons z l ih =>
    obtain ⟨op, g⟩ := z
    cases op with
    | and => exact ih (x && g.holds σ)
    | or =>
      show (x || valueAfter σ (g.holds σ) (l ++ (.or, f) :: rest)) = _
      rw [ih, ← Bool.or_assoc]
      rfl

/-- Without an `OR` in front everything is bound together from the left. -/
theorem valueAfter_append_and {l : List (Connective × Formula)}
    (hl : (l.any fun x => x.1 == .or) = false) (x : Bool) (f : Formula)
    (rest : List (Connective × Formula)) :
    valueAfter σ x (l ++ (.and, f) :: rest) =
      valueAfter σ (valueAfter σ x l && f.holds σ) rest := by
  induction l generalizing x with
  | nil => rfl
  | cons z l ih =>
    obtain ⟨op, g⟩ := z
    rw [List.any_cons, Bool.or_eq_false_iff] at hl
    cases op with
    | and => exact ih hl.2 (x && g.holds σ)
    | or => cases hl.1

/-- An `OR` between two chains leaves both as they are. -/
theorem holds_join_or (c e : Chain) :
    (c.join .or e).formula.holds σ = (c.formula.holds σ || e.formula.holds σ) := by
  rw [holds_formula, holds_formula, holds_formula]
  exact valueAfter_append_or _ _ _ _

/-- So does an `AND`, if there is no `OR` in them. -/
theorem holds_join_and {c e : Chain} (hc : c.disjunctive = false) (he : e.disjunctive = false) :
    (c.join .and e).formula.holds σ = (c.formula.holds σ && e.formula.holds σ) := by
  rw [holds_formula, holds_formula, holds_formula]
  exact (valueAfter_append_and hc _ _ _).trans (valueAfter_and he _ _)

/-- An `AND` keeps two chains apart only if there is no `OR` in either of them. -/
theorem not_disjunctive_of_separates {c e : Chain} (h : Connective.and.separates c e = true) :
    c.disjunctive = false ∧ e.disjunctive = false := by
  simp only [Connective.separates, Bool.or_eq_true, Bool.and_eq_true, Bool.not_eq_true'] at h
  rcases h with h | h
  · cases h
  · exact h

/-- Two chains that are kept apart may be joined without parentheses. -/
theorem holds_join {op : Connective} {c e : Chain} (h : op.separates c e = true) :
    (c.join op e).formula.holds σ = op.combine (c.formula.holds σ) (e.formula.holds σ) := by
  cases op with
  | or => exact holds_join_or c e
  | and =>
    obtain ⟨hc, he⟩ := not_disjunctive_of_separates h
    exact holds_join_and hc he

/-- A chain goes on with a product as its formula does, if it is the first of its product or all of
it is one product. -/
theorem valueAfter_chain (c : Chain) {x : Bool} (hx : x = true ∨ c.disjunctive = false) :
    valueAfter σ (x && c.first.holds σ) c.rest = (x && c.formula.holds σ) := by
  rw [holds_formula]
  rcases hx with rfl | hc
  · rfl
  · exact valueAfter_and hc _ _

end Chain

end Values

namespace ConditionTree

variable {σ : Comparison → Bool}

mutual

/-- Dissolving a node keeps its truth value if its operands are kept apart. -/
theorem Operand.holds_spliced {o : Operand} (h : o.grouped = true) :
    o.spliced.formula.holds σ = o.formula.holds σ := by
  -- By recursion on the tree; a negation keeps its parentheses.
  cases o with
  | comparison a => rfl
  | joined left op right =>
    rw [Operand.grouped, Bool.and_eq_true, Bool.and_eq_true] at h
    obtain ⟨⟨hleft, hright⟩, hop⟩ := h
    rw [Operand.spliced, Chain.holds_join hop, left.holds_spliced hleft,
      right.holds_spliced hright]
    rfl
  | not o => exact congrArg Bool.not (o.holds_spliced h)
  | nested s =>
    have hs := s.valueAfter_spliced h (Or.inl rfl)
    exact s.spliced.holds_formula.trans (hs.trans s.terms.holds_formula.symm)

/-- A group keeps its parentheses, so it keeps its truth value if what is inside does. -/
theorem Term.holds_spliced {t : Term} (h : t.grouped = true) :
    t.spliced.formula.holds σ = t.formula.holds σ := by
  cases t with
  | operand o => exact o.holds_spliced h
  | group s =>
    have hs := s.valueAfter_spliced h (Or.inl rfl)
    exact s.spliced.holds_formula.trans (hs.trans s.terms.holds_formula.symm)

/-- A sequence goes on with a product of the value `x` as its terms do.  With `x` true that is all
there is to say of a sequence; the other values are for what is behind an `AND`. -/
theorem Sequence.valueAfter_spliced {s : Sequence} (h : s.grouped = true) {x : Bool}
    (hx : x = true ∨ s.head.spliced.disjunctive = false) :
    valueAfter σ (x && s.spliced.first.holds σ) s.spliced.rest =
      valueAfter σ (x && s.terms.first.holds σ) s.terms.rest := by
  cases s with
  | last t => rw [Sequence.spliced, t.spliced.valueAfter_chain hx, t.holds_spliced h]; rfl
  | more t op rest =>
    rw [Sequence.grouped, Bool.and_eq_true, Bool.and_eq_true] at h
    obtain ⟨⟨ht, hrest⟩, hop⟩ := h
    have hvalue := t.spliced.valueAfter_chain (σ := σ) hx
    rw [t.holds_spliced ht] at hvalue
    cases op with
    | or =>
      -- Another product starts, with the first operand of the rest.
      have hnext := rest.valueAfter_spliced hrest (Or.inl rfl)
      exact (Chain.valueAfter_append_or _ _ _ _).trans (congr (congrArg or hvalue) hnext)
    | and =>
      -- The product goes on, and takes in no more of the rest than its first term.
      obtain ⟨hleft, hright⟩ := Chain.not_disjunctive_of_separates hop
      have hproduct := congrArg
        (fun y => valueAfter σ (y && rest.spliced.first.holds σ) rest.spliced.rest) hvalue
      have hnext := rest.valueAfter_spliced (x := x && t.formula.holds σ) hrest
        (Or.inr hright)
      exact ((Chain.valueAfter_append_and hleft _ _ _).trans hproduct).trans hnext

end

/-- A tree in which no operand brings an `OR` next to an `AND` may be dissolved. -/
theorem Sequence.holds_spliced {s : Sequence} (h : s.grouped = true) :
    s.spliced.formula.holds σ = s.formula.holds σ := by
  have hs := s.valueAfter_spliced (σ := σ) h (Or.inl rfl)
  exact s.spliced.holds_formula.trans (hs.trans s.terms.holds_formula.symm)

end ConditionTree

end SqlTree
