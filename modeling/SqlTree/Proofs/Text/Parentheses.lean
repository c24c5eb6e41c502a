import SqlTree.Proofs.Text.Unmarked
import SqlTree.Writer

/-!
# Balanced parentheses

A text is balanced if no prefix closes more parentheses than it opens and the whole closes as many.
`Text.closes` reads this off from left to right, with the number of parentheses that are open; so it
is seen what a text closes that was opened in front of it (`closes_append`).

Only the parentheses of a text count (`closes_parentheses`).  The calls to a writer that keep blanks
tidy leave them as they are.
-/

namespace SqlTree.Text

/-! ### Nesting -/

/-- A text without a prefix that closes more parentheses than it opens, and with as many closing as
opening parentheses. -/
def Balanced (cs : List Char) : Prop :=
  (∀ p, p <+: cs → p.count ')' ≤ p.count '(') ∧ cs.count '(' = cs.count ')'

/-- Whether a text closes properly what is open, when `depth` parentheses are open in front of it.
-/
def closes : (depth : Nat) → List Char → Bool
  | depth, [] => depth == 0
  | depth, c :: rest =>
    if c = '(' then closes (depth + 1) rest
    else if c = ')' then
      match depth with
      | 0 => false
      | depth + 1 => closes depth rest
    else closes depth rest

@[simp] theorem closes_nil (depth : Nat) : closes depth [] = (depth == 0) := rfl

@[simp] theorem closes_opening (depth : Nat) (rest : List Char) :
    closes depth ('(' :: rest) = closes (depth + 1) rest := rfl

@[simp] theorem closes_closing (depth : Nat) (rest : List Char) :
    closes (depth + 1) (')' :: rest) = closes depth rest := rfl

@[simp] theorem closes_closing_zero (rest : List Char) : closes 0 (')' :: rest) = false := rfl

theorem closes_cons_of_ne {c : Char} (hopening : c ≠ '(') (hclosing : c ≠ ')') (depth : Nat)
    (rest : List Char) : closes depth (c :: rest) = closes depth rest := by
  show (if c = '(' then _ else if c = ')' then _ else closes depth rest) = _
  rw [if_neg hopening, if_neg hclosing]

/-- All groups are closed if no prefix closes more than are open, and none is open at the end. -/
theorem closes_iff (depth : Nat) (cs : List Char) :
    closes depth cs = true ↔
      (∀ p, p <+: cs → p.count ')' ≤ depth + p.count '(') ∧
        depth + cs.count '(' = cs.count ')' := by
  induction cs generalizing depth with
  | nil => simp
  | cons c rest ih =>
    -- A prefix is empty, or it has the first character and a prefix of the rest.
    have hheads : (∀ p, p <+: c :: rest → p.count ')' ≤ depth + p.count '(') ↔
        ∀ p, p <+: rest → (c :: p).count ')' ≤ depth + (c :: p).count '(' := by
      constructor
      · exact fun h p hp => h (c :: p) (List.cons_prefix_cons.mpr ⟨rfl, hp⟩)
      · intro h p hp
        rcases List.prefix_cons_iff.mp hp with rfl | ⟨q, rfl, hq⟩
        · exact Nat.zero_le _
        · exact h q hq
    rw [hheads]
    by_cases hopening : c = '('
    · subst hopening
      have hcount (l : List Char) : ('(' :: l).count '(' = l.count '(' + 1 ∧
          ('(' :: l).count ')' = l.count ')' := by simp
      simp only [closes_opening, ih, hcount]
      refine and_congr (forall₂_congr fun p _ => ?_) ?_ <;> omega
    by_cases hclosing : c = ')'
    · subst hclosing
      have hcount (l : List Char) : (')' :: l).count '(' = l.count '(' ∧
          (')' :: l).count ')' = l.count ')' + 1 := by simp
      simp only [hcount]
      cases depth with
      | zero =>
        -- The first character alone closes too much.
        rw [closes_closing_zero]
        refine iff_of_false Bool.false_ne_true fun h => ?_
        have hnil := h.1 [] List.nil_prefix
        simp at hnil
      | succ depth =>
        rw [closes_closing, ih]
        refine and_congr (forall₂_congr fun p _ => ?_) ?_ <;> omega
    · have hcount (l : List Char) : (c :: l).count '(' = l.count '(' ∧
          (c :: l).count ')' = l.count ')' := by
        simp [hopening, hclosing]
      simp only [closes_cons_of_ne hopening hclosing, ih, hcount]

/-- A text is balanced if it closes what it opens, and nothing else. -/
theorem balanced_iff {cs : List Char} : Balanced cs ↔ closes 0 cs = true := by
  simp only [closes_iff, Balanced, Nat.zero_add]

instance (cs : List Char) : Decidable (Balanced cs) := decidable_of_iff _ balanced_iff.symm

/-- What is open in front of two texts is closed by the first one or by the second. -/
theorem closes_append {j k : Nat} {x y : List Char} (hx : closes j x = true)
    (hy : closes k y = true) : closes (j + k) (x ++ y) = true := by
  induction x generalizing j with
  | nil =>
    obtain rfl : j = 0 := by simpa using hx
    rwa [Nat.zero_add]
  | cons c rest ih =>
    rw [List.cons_append]
    -- Each character opens a group, closes one, or is no matter.
    by_cases hopening : c = '('
    · subst hopening
      have htail := ih hx
      rwa [Nat.add_right_comm] at htail
    by_cases hclosing : c = ')'
    · subst hclosing
      cases j with
      | zero => exact absurd hx Bool.false_ne_true
      | succ j =>
        rw [Nat.add_right_comm, closes_closing]
        exact ih hx
    · rw [closes_cons_of_ne hopening hclosing] at hx ⊢
      exact ih hx

/-! ### The parentheses of a text -/

/-- Whether a character is a parenthesis. -/
def isParenthesis (c : Char) : Bool := c == '(' || c == ')'

/-- The parentheses of a text. -/
def parentheses (cs : List Char) : List Char := cs.filter isParenthesis

@[simp] theorem parentheses_append (x y : List Char) :
    parentheses (x ++ y) = parentheses x ++ parentheses y := List.filter_append x y

theorem parentheses_eq_nil_iff {cs : List Char} :
    parentheses cs = [] ↔ '(' ∉ cs ∧ ')' ∉ cs := by
  rw [parentheses, List.filter_eq_nil_iff]
  constructor
  · exact fun h => ⟨fun hmem => h _ hmem rfl, fun hmem => h _ hmem rfl⟩
  · rintro ⟨hopening, hclosing⟩ c hc
    simp only [isParenthesis, Bool.or_eq_true, beq_iff_eq, not_or]
    exact ⟨fun h => hopening (h ▸ hc), fun h => hclosing (h ▸ hc)⟩

/-- Only the parentheses of a text matter for its balance. -/
theorem closes_parentheses (depth : Nat) (cs : List Char) :
    closes depth (parentheses cs) = closes depth cs := by
  induction cs generalizing depth with
  | nil => rfl
  | cons c rest ih =>
    -- Each character opens a group, closes one, or is dropped.
    by_cases hopening : c = '('
    · subst hopening
      exact ih (depth + 1)
    by_cases hclosing : c = ')'
    · subst hclosing
      cases depth with
      | zero => rfl
      | succ depth => exact ih depth
    · have hc : isParenthesis c = false := by simp [isParenthesis, hopening, hclosing]
      rw [parentheses, List.filter_cons_of_neg (by simp [hc]), closes_cons_of_ne hopening hclosing]
      exact ih depth

/-- Characters that are dropped from the front do not count if none of them is a parenthesis. -/
theorem parentheses_dropWhile {p : Char → Bool} (h : ∀ c, p c = true → isParenthesis c = false)
    (cs : List Char) : parentheses (cs.dropWhile p) = parentheses cs := by
  induction cs with
  | nil => rfl
  | cons c rest ih =>
    rw [List.dropWhile_cons]
    split
    · next hc => rw [ih, parentheses, parentheses, List.filter_cons_of_neg (by simp [h c hc])]
    · rfl

theorem parentheses_reverse (cs : List Char) :
    parentheses cs.reverse = (parentheses cs).reverse := List.filter_reverse

theorem isParenthesis_of_isBlank {c : Char} (h : isBlank c = true) : isParenthesis c = false := by
  rw [isParenthesis, Bool.or_eq_false_iff, beq_eq_false_iff_ne, beq_eq_false_iff_ne]
  constructor <;> rintro rfl <;> revert h <;> decide

theorem parentheses_trimEnd (cs : List Char) : parentheses (trimEnd cs) = parentheses cs := by
  rw [trimEnd, parentheses_reverse, parentheses_dropWhile fun c => isParenthesis_of_isBlank,
    parentheses_reverse, List.reverse_reverse]

/-! ### Strings -/

/-- A string without parentheses. -/
def Unparenthesized (s : String) : Prop := '(' ∉ s.toList ∧ ')' ∉ s.toList

instance (s : String) : Decidable (Unparenthesized s) := inferInstanceAs (Decidable (_ ∧ _))

theorem unparenthesized_iff {s : String} : Unparenthesized s ↔ parentheses s.toList = [] :=
  parentheses_eq_nil_iff.symm

theorem Unparenthesized.append {s t : String} (hs : Unparenthesized s) (ht : Unparenthesized t) :
    Unparenthesized (s ++ t) := by
  rw [unparenthesized_iff] at hs ht ⊢
  rw [String.toList_append, parentheses_append, hs, ht, List.append_nil]

theorem Unparenthesized.balanced {s : String} (hs : Unparenthesized s) : Balanced s.toList := by
  rw [balanced_iff, ← closes_parentheses, unparenthesized_iff.mp hs]
  rfl

theorem Balanced.append {x y : List Char} (hx : Balanced x) (hy : Balanced y) :
    Balanced (x ++ y) := by
  rw [balanced_iff] at hx hy ⊢
  exact closes_append hx hy

/-- The digits of a number are no parentheses. -/
theorem unparenthesized_toString (n : Nat) : Unparenthesized (toString n) := by
  constructor <;> intro h <;> have hdigit := isDigit_of_mem_toString h <;> revert hdigit <;> decide

theorem unparenthesized_unqualified {column : String} (h : Unparenthesized column) :
    Unparenthesized (unqualified column) := by
  have hmem {c : Char} (hc : c ∈ (unqualified column).toList) : c ∈ column.toList := by
    rw [unqualified, String.toList_ofList, List.mem_reverse] at hc
    exact List.mem_reverse.mp ((List.takeWhile_sublist _).mem hc)
  exact ⟨fun hc => h.1 (hmem hc), fun hc => h.2 (hmem hc)⟩

/-- Quotes other than parentheses leave the parentheses of an identifier as they are. -/
theorem parentheses_quoteWith {mark : Char} (hmark : isParenthesis mark = false) (s : String) :
    parentheses (quoteWith mark s).toList = parentheses s.toList := by
  have hbody (cs : List Char) :
      parentheses (cs.flatMap fun c => if c = mark then [mark, mark] else [c]) =
        parentheses cs := by
    induction cs with
    | nil => rfl
    | cons c rest ih =>
      rw [List.flatMap_cons, parentheses_append, ih]
      split
      · next hc => simp [parentheses, hc, hmark]
      · exact (parentheses_append [c] rest).symm
  have hquote : parentheses [mark] = [] := by simp [parentheses, hmark]
  have hsplit (cs : List Char) : mark :: cs ++ [mark] = [mark] ++ cs ++ [mark] := rfl
  rw [quoteWith, String.toList_ofList, hsplit, parentheses_append, parentheses_append, hquote,
    hbody, List.append_nil, List.nil_append]

theorem balanced_intercalate {separator : String} (hseparator : Balanced separator.toList)
    {l : List String} (hl : ∀ s ∈ l, Balanced s.toList) :
    Balanced (separator.intercalate l).toList := by
  induction l with
  | nil =>
    rw [String.intercalate_nil]
    decide
  | cons s rest ih =>
    obtain ⟨hs, hrest⟩ := List.forall_mem_cons.mp hl
    -- The separator stands in front of every text but the first.
    cases rest with
    | nil => rwa [String.intercalate_singleton]
    | cons t rest =>
      rw [String.intercalate_cons_cons, String.toList_append, String.toList_append]
      exact (hs.append hseparator).append (ih hrest)

end Text

/-! ### Writers -/

namespace Writer

/-- The parentheses of a text. -/
def parentheses (w : Writer) : List Char := Text.parentheses w.text

variable (w : Writer)

@[simp] theorem parentheses_write (s : String) :
    (w.write s).parentheses = w.parentheses ++ Text.parentheses s.toList := by
  rw [parentheses, text_write, Text.parentheses_append, ← parentheses]

@[simp] theorem parentheses_push (c : Char) :
    (w.push c).parentheses = w.parentheses ++ Text.parentheses [c] := by
  rw [parentheses, text_push, Text.parentheses_append, ← parentheses]

@[simp] theorem parentheses_trimSpaces : w.trimSpaces.parentheses = w.parentheses := by
  have hspace (c : Char) (hc : (c == ' ') = true) : Text.isParenthesis c = false := by
    rw [beq_iff_eq.mp hc]
    rfl
  rw [parentheses, parentheses, text, text, Text.parentheses_reverse, Text.parentheses_reverse,
    trimSpaces, Text.parentheses_dropWhile hspace]

theorem parentheses_blank : w.blank.parentheses = w.parentheses := by
  refine blank_induction rfl ?_
  rw [parentheses_push]
  exact List.append_nil _

theorem parentheses_comma : w.comma.parentheses = w.parentheses := by
  rw [comma, parentheses_push, parentheses_push, parentheses_trimSpaces, List.append_assoc]
  exact List.append_nil _

theorem parentheses_lineBreak : w.lineBreak.parentheses = w.parentheses := by
  refine lineBreak_induction w.parentheses_trimSpaces ?_ w.parentheses_blank
  rw [parentheses_push, parentheses_trimSpaces]
  exact List.append_nil _

theorem parentheses_indent (depth : Nat) : (w.indent depth).parentheses = w.parentheses := by
  refine indent_induction rfl ?_
  have htabs : Text.parentheses (List.replicate depth '\t') = [] := by
    rw [Text.parentheses_eq_nil_iff]
    constructor <;> intro h <;> exact absurd (List.eq_of_mem_replicate h) (by decide)
  show Text.parentheses (List.replicate depth '\t' ++ w.reversed).reverse = _
  rw [Text.parentheses_reverse, Text.parentheses_append, htabs, List.nil_append,
    ← Text.parentheses_reverse]
  rfl

@[simp] theorem parentheses_openParenthesis :
    w.openParenthesis.parentheses = w.parentheses ++ ['('] := w.parentheses_push '('

@[simp] theorem parentheses_closeParenthesis :
    w.closeParenthesis.parentheses = w.parentheses ++ [')'] := by
  rw [closeParenthesis, parentheses_push, parentheses_trimSpaces]
  rfl

theorem parentheses_terminate {terminator : String} (h : Text.Unparenthesized terminator) :
    (w.terminate terminator).parentheses = w.parentheses := by
  rw [parentheses, text_terminate, Text.parentheses_append, Text.parentheses_trimEnd,
    Text.unparenthesized_iff.mp h, List.append_nil, parentheses]

end Writer

end SqlTree
