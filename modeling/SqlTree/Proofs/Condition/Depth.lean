import SqlTree.Statement.Clause

/-!
# How deep conditions stand

While the items of a sequence of conditions are written, a depth counts the groups that are open.
It is a natural number, so that closing a group where none is open would leave it at zero.  In a
sequence whose groups are properly nested this never happens: the depth is the number of groups that
have been opened less the number of those that have been closed (`Conditions.depth_of_balanced`),
and every group that is opened is closed later, with properly nested groups in between
(`Conditions.exists_closing`).
-/

namespace SqlTree

namespace Expression

/-- The depth at which an item stands if a number of groups are open in front of it: a marker that
closes a group stands outside it. -/
def marginAt (item : Expression) (depth : Nat) : Nat :=
  if item.closesGroup then depth - 1 else depth

/-- The number of open groups behind an item. -/
def depthBehind (item : Expression) (depth : Nat) : Nat :=
  if item.opensGroup then item.marginAt depth + 1 else item.marginAt depth

variable {item : Expression} {depth : Nat}

/-- No marker both opens and closes a group. -/
theorem closesGroup_of_opensGroup (h : item.opensGroup = true) : item.closesGroup = false := by
  cases hcloses : item.closesGroup with
  | false => rfl
  | true =>
    rw [not_opensGroup_of_closesGroup hcloses] at h
    cases h

/-- A closing marker stands one step further to the left than what it closes. -/
theorem marginAt_of_closes (h : item.closesGroup = true) : item.marginAt depth = depth - 1 :=
  if_pos h

theorem marginAt_of_not_closes (h : item.closesGroup = false) : item.marginAt depth = depth :=
  if_neg (by rw [h]; exact Bool.false_ne_true)

/-- What follows an opening marker stands one step further to the right. -/
theorem depthBehind_of_opens (h : item.opensGroup = true) : item.depthBehind depth = depth + 1 := by
  rw [depthBehind, if_pos h, marginAt_of_not_closes (closesGroup_of_opensGroup h)]

theorem depthBehind_of_not_opens (h : item.opensGroup = false) :
    item.depthBehind depth = item.marginAt depth :=
  if_neg (by rw [h]; exact Bool.false_ne_true)

end Expression

namespace Conditions

/-- The number of open groups behind some items, if a number are open in front of them. -/
def depthFrom (depth : Nat) : Conditions → Nat
  | [] => depth
  | item :: rest => depthFrom (item.depthBehind depth) rest

/-- The number of items that open a group. -/
def openings (items : Conditions) : Nat := items.countP Expression.opensGroup

/-- The number of items that close a group. -/
def closings (items : Conditions) : Nat := items.countP Expression.closesGroup

/-- The depth of an item: the number of groups opened in front of it, less the number of those
closed up to the item itself. -/
def margin (front : Conditions) (item : Expression) : Int :=
  (openings front : Int) - closings (front ++ [item])

/-! ### Items written line by line -/

/-- The lines of some items, and then the lines of those behind them from the depth that they lead
to. -/
theorem itemLines_append (l m : List (Expression × Draft)) (depth : Nat) (first : Bool) :
    itemLines depth first (l ++ m) =
      itemLines depth first l ++
        itemLines (depthFrom depth (l.map (·.1))) (first && l.isEmpty) m := by
  -- Along the first lines: they hand the depth that they reach on to the others.
  induction l generalizing depth first with
  | nil =>
    rw [List.isEmpty_nil, Bool.and_true]
    exact (Draft.empty_append _).symm
  | cons x rest ih =>
    obtain ⟨item, body⟩ := x
    have hrest := ih (item.depthBehind depth) false
    rw [Bool.false_and] at hrest
    rw [List.isEmpty_cons, Bool.and_false, List.cons_append, List.map_cons, depthFrom]
    show _ ++ itemLines (item.depthBehind depth) false (rest ++ m) =
      (_ ++ itemLines (item.depthBehind depth) false rest) ++ _
    rw [hrest, Draft.append_assoc _ (itemLines _ _ rest)]

/-! ### Properly nested groups -/

/-- An opening marker adds one to the depth, a closing one takes it away, and other items leave it.
-/
theorem balancedFrom_opening {item : Expression} (h : item.opensGroup = true) (depth : Nat)
    (rest : Conditions) : balancedFrom depth (item :: rest) = balancedFrom (depth + 1) rest := by
  simp only [balancedFrom, h, if_true]

theorem balancedFrom_closing {item : Expression} (h : item.closesGroup = true) (depth : Nat)
    (rest : Conditions) : balancedFrom (depth + 1) (item :: rest) = balancedFrom depth rest := by
  have hopens : item.opensGroup = false := Expression.not_opensGroup_of_closesGroup h
  simp only [balancedFrom, hopens, h, Bool.false_eq_true, if_false, if_true]

theorem balancedFrom_plain {item : Expression} (hopens : item.opensGroup = false)
    (hcloses : item.closesGroup = false) (depth : Nat) (rest : Conditions) :
    balancedFrom depth (item :: rest) = balancedFrom depth rest := by
  simp only [balancedFrom, hopens, hcloses, Bool.false_eq_true, if_false]

/-- No group is closed where none is open. -/
theorem pos_of_closing {item : Expression} (h : item.closesGroup = true) {depth : Nat}
    {rest : Conditions} (hbalanced : balancedFrom depth (item :: rest) = true) : 0 < depth := by
  cases depth with
  | succ depth => exact Nat.succ_pos depth
  | zero =>
    have hopens : item.opensGroup = false := Expression.not_opensGroup_of_closesGroup h
    simp only [balancedFrom, hopens, h, Bool.false_eq_true, if_false, if_true] at hbalanced

/-- In front of every item the depth is the number of groups that have been opened less the number
of those that have been closed, and the items from there on are properly nested at that depth. -/
theorem depth_of_balanced {depth : Nat} {front rest : Conditions}
    (h : balancedFrom depth (front ++ rest) = true) :
    balancedFrom (depthFrom depth front) rest = true ∧
      depthFrom depth front + closings front = depth + openings front := by
  induction front generalizing depth with
  | nil => exact ⟨h, rfl⟩
  | cons item front ih =>
    rw [List.cons_append] at h
    have hopenings : openings (item :: front) =
        openings front + if item.opensGroup then 1 else 0 := List.countP_cons
    have hclosings : closings (item :: front) =
        closings front + if item.closesGroup then 1 else 0 := List.countP_cons
    rw [hopenings, hclosings, depthFrom]
    cases hopens : item.opensGroup with
    | true =>
      have hcloses := Expression.closesGroup_of_opensGroup hopens
      rw [balancedFrom_opening hopens] at h
      obtain ⟨hrest, hcount⟩ := ih h
      rw [Expression.depthBehind_of_opens hopens, hcloses]
      refine ⟨hrest, ?_⟩
      simp only [Bool.false_eq_true, if_false, if_true]
      omega
    | false =>
      rw [Expression.depthBehind_of_not_opens hopens]
      cases hcloses : item.closesGroup with
      | true =>
        -- A group is open, since the sequence is properly nested.
        obtain ⟨outer, rfl⟩ := Nat.exists_eq_add_one.mpr (pos_of_closing hcloses h)
        rw [balancedFrom_closing hcloses] at h
        obtain ⟨hrest, hcount⟩ := ih h
        rw [Expression.marginAt_of_closes hcloses, Nat.add_sub_cancel]
        refine ⟨hrest, ?_⟩
        simp only [Bool.false_eq_true, if_false, if_true]
        omega
      | false =>
        rw [balancedFrom_plain hopens hcloses] at h
        rw [Expression.marginAt_of_not_closes hcloses]
        exact ih h

/-- The depth of an item is the one at which it is written, which no subtraction has cut off. -/
theorem margin_eq {front rest : Conditions} {item : Expression}
    (h : balanced (front ++ item :: rest) = true) :
    margin front item = item.marginAt (depthFrom 0 front) ∧
      (item.closesGroup = true → 0 < depthFrom 0 front) := by
  obtain ⟨hrest, hcount⟩ := depth_of_balanced h
  have hpos : item.closesGroup = true → 0 < depthFrom 0 front :=
    fun hcloses => pos_of_closing hcloses hrest
  refine ⟨?_, hpos⟩
  have hclosings : closings (front ++ [item]) =
      closings front + if item.closesGroup then 1 else 0 := by
    rw [closings, List.countP_append, List.countP_singleton]
    rfl
  rw [margin, hclosings]
  -- A closing marker is counted among those that are closed in front of it, and so it stands
  -- further out.
  cases hcloses : item.closesGroup with
  | true =>
    have hopen := hpos hcloses
    rw [Expression.marginAt_of_closes hcloses, if_pos rfl]
    omega
  | false =>
    rw [Expression.marginAt_of_not_closes hcloses, if_neg Bool.false_ne_true]
    omega

/-- Behind the last item no group is open. -/
theorem depthFrom_of_balanced {items : Conditions} (h : balanced items = true) :
    depthFrom 0 items = 0 := by
  have hall : balancedFrom 0 (items ++ []) = true := by
    rw [List.append_nil]
    exact h
  obtain ⟨hnil, -⟩ := depth_of_balanced hall
  exact beq_iff_eq.mp hnil

/-- Properly nested groups open as many groups as they close. -/
theorem openings_eq_closings {items : Conditions} (h : balanced items = true) :
    openings items = closings items := by
  have hall : balancedFrom 0 (items ++ []) = true := by
    rw [List.append_nil]
    exact h
  obtain ⟨-, hcount⟩ := depth_of_balanced hall
  rw [depthFrom_of_balanced h] at hcount
  omega

/-! ### The two markers of a group -/

/-- The two markers of a group stand at the same depth. -/
theorem margin_closing_eq {front between : Conditions} {opening closing : Expression}
    (hopens : opening.opensGroup = true) (hcloses : closing.closesGroup = true)
    (h : balanced between = true) :
    margin (front ++ opening :: between) closing = margin front opening := by
  have hbetween : openings between = closings between := openings_eq_closings h
  have hopenings : openings (front ++ opening :: between) =
      openings front + (openings between + 1) := by
    rw [openings, List.countP_append, List.countP_cons, if_pos hopens]
    rfl
  have houter : closings (front ++ [opening]) = closings front := by
    rw [closings, List.countP_append, List.countP_singleton,
      Expression.closesGroup_of_opensGroup hopens]
    rfl
  have hinner : closings (front ++ opening :: between ++ [closing]) =
      closings front + closings between + 1 := by
    rw [closings, List.countP_append, List.countP_append, List.countP_cons, List.countP_singleton,
      Expression.closesGroup_of_opensGroup hopens, if_pos hcloses]
    rfl
  -- What stands between the two markers opens as many groups as it closes.
  rw [margin, margin, hopenings, houter, hinner]
  omega

/-- Where more than `inner` groups are open, the one that has `inner` others in it is closed later.
-/
theorem exists_closing_of_depth (depth inner : Nat) {rest : Conditions}
    (h : balancedFrom (depth + 1 + inner) rest = true) :
    ∃ between closing behind, rest = between ++ closing :: behind ∧
      closing.closesGroup = true ∧ balancedFrom inner between = true := by
  -- Along the items, with the number of groups that have been opened on the way and not closed yet.
  induction rest generalizing inner with
  | nil =>
    have hzero : depth + 1 + inner = 0 := beq_iff_eq.mp h
    omega
  | cons item rest ih =>
    cases hopens : item.opensGroup with
    | true =>
      rw [balancedFrom_opening hopens] at h
      obtain ⟨between, closing, behind, rfl, hcloses, hbetween⟩ := ih (inner + 1) h
      refine ⟨item :: between, closing, behind, rfl, hcloses, ?_⟩
      rw [balancedFrom_opening hopens]
      exact hbetween
    | false =>
      cases hcloses : item.closesGroup with
      | false =>
        rw [balancedFrom_plain hopens hcloses] at h
        obtain ⟨between, closing, behind, rfl, hclosing, hbetween⟩ := ih inner h
        refine ⟨item :: between, closing, behind, rfl, hclosing, ?_⟩
        rw [balancedFrom_plain hopens hcloses]
        exact hbetween
      | true =>
        cases inner with
        | zero => exact ⟨[], item, rest, rfl, hcloses, rfl⟩
        | succ inner =>
          rw [← Nat.add_assoc, balancedFrom_closing hcloses] at h
          obtain ⟨between, closing, behind, rfl, hclosing, hbetween⟩ := ih inner h
          refine ⟨item :: between, closing, behind, rfl, hclosing, ?_⟩
          rw [balancedFrom_closing hcloses]
          exact hbetween

/-- A group that is opened is closed later, with properly nested groups in between. -/
theorem exists_closing {front rest : Conditions} {opening : Expression}
    (h : balanced (front ++ opening :: rest) = true) (hopens : opening.opensGroup = true) :
    ∃ between closing behind, rest = between ++ closing :: behind ∧
      closing.closesGroup = true ∧ balanced between = true := by
  obtain ⟨hrest, -⟩ := depth_of_balanced h
  rw [balancedFrom_opening hopens] at hrest
  exact exists_closing_of_depth (depthFrom 0 front) 0 hrest

end Conditions

end SqlTree
