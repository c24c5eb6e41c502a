import SqlTree.Expression.Builder
import SqlTree.Proofs.Condition.Depth
import SqlTree.Proofs.Syntax.Spelled

/-!
# The grammar of groups

Main statement, `Conditions.balanced_grammar`: the check for properly nested groups decides a
grammar.  The markers of a sequence, in their order, are a word over two letters, and the check
passes just when the word is derived from

  S ::= nothing | S S | ( S )

The check counts the open groups and stops at a marker that closes none.  From the grammar to the
count the induction is on the derivation: properly nested items leave every count as it was
(`Conditions.balancedFrom_append`).  In the other direction the first marker has to be an opening
one, and what it opens is cut out up to its closing marker (`Conditions.exists_closing`).
-/

namespace SqlTree

namespace Expression

variable {item : Expression}

/-- There is only one item that opens a group. -/
theorem eq_openGroup (h : item.opensGroup = true) : item = .openGroup := by
  cases item with
  | sql raw => exact congrArg sql (beq_iff_eq.mp h)
  | _ => cases h

/-- There is only one item that closes a group. -/
theorem eq_closeGroup (h : item.closesGroup = true) : item = .closeGroup := by
  cases item with
  | sql raw => exact congrArg sql (beq_iff_eq.mp h)
  | _ => cases h

/-- The markers are the raw texts `(` and `)`. -/
theorem isMarker_iff : item.isMarker = true ↔ item = .sql "(" ∨ item = .sql ")" := by
  constructor
  · intro h
    exact (Bool.or_eq_true_iff.mp h).imp eq_openGroup eq_closeGroup
  · rintro (rfl | rfl)
    · rfl
    · rfl

theorem isMarker_eq_false_iff :
    item.isMarker = false ↔ item.opensGroup = false ∧ item.closesGroup = false :=
  Bool.or_eq_false_iff

end Expression

namespace Conditions

/-- The markers of properly nested groups: no markers, those of some groups and then those of
others, or those of some groups inside one more. -/
inductive Nested : Conditions → Prop where
  | nil : Nested []
  | append {l m : Conditions} (hl : Nested l) (hm : Nested m) : Nested (l ++ m)
  | group {l : Conditions} (h : Nested l) : Nested (.openGroup :: l ++ [.closeGroup])

/-! ### Counting through properly nested items -/

/-- Items that close `inner` groups more than they open leave the other open groups as they are. -/
theorem balancedFrom_append {inner : Nat} {items : Conditions}
    (h : balancedFrom inner items = true) (depth : Nat) (rest : Conditions) :
    balancedFrom (inner + depth) (items ++ rest) = balancedFrom depth rest := by
  induction items generalizing inner with
  | nil =>
    have hzero : inner = 0 := beq_iff_eq.mp h
    rw [hzero, Nat.zero_add, List.nil_append]
  | cons item items ih =>
    rw [List.cons_append]
    cases hopens : item.opensGroup with
    | true =>
      rw [balancedFrom_opening hopens] at h ⊢
      rw [Nat.add_right_comm]
      exact ih h
    | false =>
      cases hcloses : item.closesGroup with
      | true =>
        -- The group that is closed is one of the inner ones.
        obtain ⟨n, rfl⟩ := Nat.exists_eq_add_one.mpr (pos_of_closing hcloses h)
        rw [balancedFrom_closing hcloses] at h
        rw [Nat.add_right_comm, balancedFrom_closing hcloses]
        exact ih h
      | false =>
        rw [balancedFrom_plain hopens hcloses] at h ⊢
        exact ih h

/-- Properly nested items leave the groups around them as they are. -/
theorem balancedFrom_balanced_append {items : Conditions} (h : balanced items = true)
    (depth : Nat) (rest : Conditions) :
    balancedFrom depth (items ++ rest) = balancedFrom depth rest := by
  have hrest := balancedFrom_append h depth rest
  rwa [Nat.zero_add] at hrest

/-- Only the markers count. -/
theorem balancedFrom_markers (depth : Nat) (items : Conditions) :
    balancedFrom depth (items.filter Expression.isMarker) = balancedFrom depth items := by
  -- Along the items: those that are not markers leave the depth as it is.
  induction items generalizing depth with
  | nil => rfl
  | cons item rest ih =>
    cases hmarker : item.isMarker with
    | true =>
      rw [List.filter_cons_of_pos hmarker]
      simp only [balancedFrom, ih]
    | false =>
      obtain ⟨hopens, hcloses⟩ := Expression.isMarker_eq_false_iff.mp hmarker
      rw [List.filter_cons_of_neg (Bool.eq_false_iff.mp hmarker),
        balancedFrom_plain hopens hcloses, ih]

/-- An item that is no marker makes no difference, wherever it stands. -/
theorem balanced_insert (front : Conditions) {item : Expression} (h : item.isMarker = false)
    (behind : Conditions) : balanced (front ++ item :: behind) = balanced (front ++ behind) := by
  have hmarkers : (front ++ item :: behind).filter Expression.isMarker =
      (front ++ behind).filter Expression.isMarker := by
    rw [List.filter_append, List.filter_append,
      List.filter_cons_of_neg (Bool.eq_false_iff.mp h)]
  rw [balanced, balanced, ← balancedFrom_markers, hmarkers, balancedFrom_markers]

/-- The depth is back at zero between two sequences. -/
theorem balanced_append {front items : Conditions} (hfront : balanced front = true)
    (hitems : balanced items = true) : balanced (front ++ items) = true :=
  (balancedFrom_balanced_append hfront 0 items).trans hitems

/-- Markers around a sequence are one depth further out. -/
theorem balanced_group {items : Conditions} (h : balanced items = true) :
    balanced (.openGroup :: items ++ [.closeGroup]) = true := by
  show balancedFrom 1 (items ++ [.closeGroup]) = true
  rw [balancedFrom_balanced_append h]
  rfl

/-! ### The grammar and the count -/

/-- By induction on the derivation: each rule of the grammar keeps the count. -/
theorem Nested.balanced {word : Conditions} (h : Nested word) :
    Conditions.balanced word = true := by
  induction h with
  | nil => rfl
  | append _ _ hl hm => exact balanced_append hl hm
  | group _ hl => exact balanced_group hl

/-- What stands behind a group is properly nested if all of it is. -/
theorem balanced_behind_group {between behind : Conditions} (hbetween : balanced between = true)
    (h : balanced (.openGroup :: (between ++ .closeGroup :: behind)) = true) :
    balanced behind = true := by
  have hinside : balancedFrom 1 (between ++ .closeGroup :: behind) = true := h
  rw [balancedFrom_balanced_append hbetween] at hinside
  exact hinside

/-- What the count accepts is derived from its groups, from the left. -/
theorem nested_markers {items : Conditions} (h : balanced items = true) :
    Nested (items.filter Expression.isMarker) := by
  -- Both parts that are cut out are shorter, but neither is the tail of the list.
  induction hlength : items.length using Nat.strongRecOn generalizing items with
  | ind n ih =>
  subst hlength
  cases items with
  | nil => exact .nil
  | cons item rest =>
    cases hopens : item.opensGroup with
    | true =>
      have hall : balanced ([] ++ item :: rest) = true := h
      obtain ⟨between, closing, behind, rfl, hcloses, hbetween⟩ := exists_closing hall hopens
      obtain rfl := Expression.eq_openGroup hopens
      obtain rfl := Expression.eq_closeGroup hcloses
      simp only [List.length_cons, List.length_append] at ih
      have hfirst := (ih between.length (by omega) hbetween rfl).group
      have hothers := ih behind.length (by omega) (balanced_behind_group hbetween h) rfl
      have hword : (Expression.openGroup :: (between ++ .closeGroup :: behind)).filter
          Expression.isMarker = (.openGroup :: between.filter Expression.isMarker ++
            [.closeGroup]) ++ behind.filter Expression.isMarker := by
        rw [List.filter_cons_of_pos rfl, List.filter_append, List.filter_cons_of_pos rfl,
          List.cons_append, List.cons_append, List.append_assoc, List.singleton_append]
      rw [hword]
      exact hfirst.append hothers
    | false =>
      cases hcloses : item.closesGroup with
      | true =>
        -- There is no open group that a first marker could close.
        exact absurd (pos_of_closing hcloses h) (Nat.lt_irrefl 0)
      | false =>
        have hplain := Expression.isMarker_eq_false_iff.mpr ⟨hopens, hcloses⟩
        rw [balanced, balancedFrom_plain hopens hcloses] at h
        rw [List.filter_cons_of_neg (Bool.eq_false_iff.mp hplain)]
        exact ih rest.length (Nat.lt_succ_self _) h rfl

theorem foldl_push (front items : Conditions) : items.foldl push front = front ++ items := by
  induction items generalizing front with
  | nil => rw [List.foldl_nil, List.append_nil]
  | cons item rest ih => rw [List.foldl_cons, ih, push, List.append_assoc, List.singleton_append]

/-- **Groups are nested by a grammar.** The markers of a sequence are its raw texts `(` and `)`, and
its groups are properly nested just when the markers, in their order, are derived from
`S ::= nothing | S S | ( S )`.  So two properly nested sequences can be put one after another, also
with the second one, item by item, in a group of its own, and items that are no markers can be put
in and left out anywhere. -/
theorem balanced_grammar :
    (∀ item : Expression, item.isMarker = true ↔ item = .sql "(" ∨ item = .sql ")") ∧
      (∀ items, balanced items = true ↔ Nested (items.filter Expression.isMarker)) ∧
      (∀ front items, balanced front = true → balanced items = true →
        balanced (front ++ items) = true ∧
          balanced (closeGroup (items.foldl push (openGroup front))) = true) ∧
      ∀ front item behind, item.isMarker = false →
        balanced (front ++ item :: behind) = balanced (front ++ behind) := by
  refine ⟨fun item => Expression.isMarker_iff, fun items => ⟨nested_markers, fun h => ?_⟩,
    fun front items hfront hitems => ⟨?_, ?_⟩, fun front item behind hitem => ?_⟩
  · have hmarkers : balanced (items.filter Expression.isMarker) = true := h.balanced
    rwa [balanced, balancedFrom_markers] at hmarkers
  · exact balanced_append hfront hitems
  · rw [foldl_push, openGroup, closeGroup, push, push, List.append_assoc, List.append_assoc]
    exact balanced_append hfront (balanced_group hitems)
  · exact balanced_insert front hitem behind

/-- A group in a group, with operands between the markers. -/
theorem balanced_grammar_groups :
    let items : Conditions := [.openGroup, .openGroup, .column "a", .closeGroup, .operator .and,
      .column "b", .closeGroup]
    balanced items = true ∧ Nested [.openGroup, .openGroup, .closeGroup, .closeGroup] ∧
      balanced (closeGroup (items.foldl push (openGroup items))) = true ∧
      balanced ([.openGroup] ++ .operator .not :: [.closeGroup]) = true ∧
      ¬Nested [.closeGroup, .openGroup] := by
  intro items
  have hitems : balanced items = true := by decide
  obtain ⟨-, hgrammar, happend, hinsert⟩ := balanced_grammar
  refine ⟨hitems, (hgrammar items).mp hitems, (happend items items hitems hitems).2, ?_, ?_⟩
  · rw [hinsert [.openGroup] (.operator .not) [.closeGroup] rfl]
    rfl
  · intro h
    have hclosing : balanced [.closeGroup, .openGroup] = true := (hgrammar _).mpr h
    cases hclosing

end Conditions

end SqlTree
