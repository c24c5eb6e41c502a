import SqlTree.Text.Blank

/-!
# Blank ends of a text

A text is its trimmed text between two blank ends (`exists_trim`), and a text that is not blank at
an end is not trimmed there (`trimStart_of_head`, `trimEnd_of_last`).  Blank ends are easily lost,
and so texts are compared in two ways, with their ends and without (`Same`); names that are
different when they are trimmed are different in both (`Same.trimmed_eq`).
-/

namespace SqlTree.Text

/-- Nothing is trimmed in front of a character that is no blank. -/
theorem trimStart_of_head {cs : List Char} (h : ∀ c ∈ cs.head?, isBlank c = false) :
    trimStart cs = cs := by
  cases cs with
  | nil => rfl
  | cons c rest =>
    have hc : isBlank c = false := h c rfl
    simp [trimStart, hc]

theorem trimEnd_append_of_blank {gap : List Char} (hgap : ∀ c ∈ gap, isBlank c = true)
    (cs : List Char) : trimEnd (cs ++ gap) = trimEnd cs := by
  rw [trimEnd, List.reverse_append,
    List.dropWhile_append_of_pos fun c hc => hgap c (List.mem_reverse.mp hc)]
  rfl

theorem trimEnd_of_last {cs : List Char} (h : ∀ c ∈ cs.getLast?, isBlank c = false) :
    trimEnd cs = cs := by
  rw [← List.head?_reverse] at h
  exact (congrArg List.reverse (trimStart_of_head h)).trans (List.reverse_reverse cs)

/-- A text is its trimmed text with a blank end. -/
theorem exists_trimEnd_append (cs : List Char) :
    ∃ gap, cs = trimEnd cs ++ gap ∧ ∀ c ∈ gap, isBlank c = true := by
  refine ⟨(cs.reverse.takeWhile isBlank).reverse, ?_, fun c hc => ?_⟩
  · rw [trimEnd, ← List.reverse_append, List.takeWhile_append_dropWhile, List.reverse_reverse]
  · exact List.all_eq_true.mp List.all_takeWhile c (List.mem_reverse.mp hc)

theorem getLast?_trimEnd {c : Char} {cs : List Char} (h : (trimEnd cs).getLast? = some c) :
    isBlank c = false := by
  rw [trimEnd, List.getLast?_reverse] at h
  obtain ⟨rest, hhead⟩ := List.head?_eq_some_iff.mp h
  exact isBlank_head_trimStart hhead

/-- A text is its trimmed text between two blank ends. -/
theorem exists_trim (cs : List Char) :
    ∃ lead trail, cs = lead ++ trim cs ++ trail ∧ (∀ c ∈ lead, isBlank c = true) ∧
      (∀ c ∈ trail, isBlank c = true) ∧ trimStart cs = trim cs ++ trail := by
  obtain ⟨trail, htrail, hblank⟩ := exists_trimEnd_append (trimStart cs)
  refine ⟨cs.takeWhile isBlank, trail, ?_, fun c hc => ?_, hblank, htrail⟩
  · rw [List.append_assoc, trim, ← htrail]
    exact List.takeWhile_append_dropWhile.symm
  · exact List.all_eq_true.mp List.all_takeWhile c hc

theorem isBlank_head_trim {c : Char} {cs rest : List Char} (h : trim cs = c :: rest) :
    isBlank c = false := by
  obtain ⟨-, trail, -, -, -, htrail⟩ := exists_trim cs
  rw [h, List.cons_append] at htrail
  exact isBlank_head_trimStart htrail

/-- A string that is not blank keeps something when it is trimmed. -/
theorem trimmed_ne_empty {s : String} (h : isAllBlank s = false) : trimmed s ≠ "" := by
  intro hempty
  obtain ⟨lead, trail, hs, hlead, htrail, -⟩ := exists_trim s.toList
  -- If nothing were left, the text would be the blanks around it.
  have htrim : trim s.toList = [] := by
    have hnil := congrArg String.toList hempty
    rwa [trimmed, String.toList_ofList] at hnil
  rw [htrim, List.append_nil] at hs
  have hblank : isAllBlank s = true := by
    rw [isAllBlank, List.all_eq_true, hs]
    intro c hc
    exact (List.mem_append.mp hc).elim (hlead c) (htrail c)
  rw [h] at hblank
  exact Bool.false_ne_true hblank

theorem trimmed_eq_empty {s : String} (h : isAllBlank s = true) : trimmed s = "" := by
  obtain ⟨lead, trail, hs, -⟩ := exists_trim s.toList
  cases htrim : trim s.toList with
  | nil => rw [trimmed, htrim, String.ofList_nil]
  | cons c rest =>
    have hmem : c ∈ s.toList := by
      rw [hs, htrim]
      simp
    have hblank : isBlank c = true := List.all_eq_true.mp h c hmem
    rw [isBlank_head_trim htrim] at hblank
    cases hblank

theorem isEmpty_trimmed (s : String) : (trimmed s).isEmpty = isAllBlank s := by
  cases h : isAllBlank s with
  | true =>
    rw [trimmed_eq_empty h]
    rfl
  | false => exact Bool.eq_false_iff.mpr (mt String.isEmpty_iff.mp (trimmed_ne_empty h))

/-- Neither end of a trimmed text is blank, so that trimming it again changes nothing. -/
theorem trimmed_trimmed (s : String) : trimmed (trimmed s) = trimmed s := by
  have hhead : ∀ c ∈ (trim s.toList).head?, isBlank c = false := by
    intro c hc
    obtain ⟨rest, hrest⟩ := List.head?_eq_some_iff.mp hc
    exact isBlank_head_trim hrest
  have hlast : ∀ c ∈ (trim s.toList).getLast?, isBlank c = false := fun c hc => getLast?_trimEnd hc
  have htrim : trim (trim s.toList) = trim s.toList := by
    rw [trim, trimStart_of_head hhead, trimEnd_of_last hlast]
  rw [trimmed, trimmed, String.toList_ofList, htrim]

/-! ### Comparing texts -/

/-- How texts are compared. -/
inductive Comparison where
  /-- As they are. -/
  | exact
  /-- Without the blank characters at their ends. -/
  | upToEnd
  deriving DecidableEq, Repr

/-- Texts that are the same in a comparison. -/
def Same : Comparison → String → String → Prop
  | .exact, a, b => a = b
  | .upToEnd, a, b => trimEnd a.toList = trimEnd b.toList

instance (c : Comparison) (a b : String) : Decidable (Same c a b) :=
  match c with
  | .exact => inferInstanceAs (Decidable (a = b))
  | .upToEnd => inferInstanceAs (Decidable (trimEnd a.toList = trimEnd b.toList))

variable {c : Comparison} {a b : String}

/-- A blank end can be the whole of a text, and then what is in front of it is trimmed. -/
theorem trimEnd_append (t cs : List Char) :
    trimEnd (t ++ cs) = if trimEnd cs = [] then trimEnd t else t ++ trimEnd cs := by
  obtain ⟨gap, hcs, hgap⟩ := exists_trimEnd_append cs
  -- Blanks at the end of the later text are trimmed first.
  have hwhole : trimEnd (t ++ cs) = trimEnd (t ++ trimEnd cs) := by
    rw [← trimEnd_append_of_blank hgap (t ++ trimEnd cs), List.append_assoc, ← hcs]
  rw [hwhole]
  split
  · next hnil => rw [hnil, List.append_nil]
  · next hne =>
    refine trimEnd_of_last fun x hx => ?_
    rw [List.getLast?_append, List.getLast?_eq_some_getLast hne, Option.some_or,
      ← List.getLast?_eq_some_getLast hne] at hx
    exact getLast?_trimEnd hx

/-- Trimming takes away, and adds nothing. -/
theorem trimEnd_ne_append {t cs : List Char} (h : cs ≠ []) : trimEnd t ≠ t ++ cs := by
  intro heq
  obtain ⟨gap, ht, -⟩ := exists_trimEnd_append t
  have hlength := congrArg List.length heq
  have htlength := congrArg List.length ht
  have hpositive := List.length_pos_iff.mpr h
  rw [List.length_append] at hlength htlength
  omega

/-- What two texts start with does not matter if it is the same. -/
theorem same_append_iff (t : String) : Same c (t ++ a) (t ++ b) ↔ Same c a b := by
  cases c with
  | exact => exact String.append_right_inj t
  | upToEnd =>
    show trimEnd (t ++ a).toList = trimEnd (t ++ b).toList ↔ trimEnd a.toList = trimEnd b.toList
    rw [String.toList_append, String.toList_append, trimEnd_append, trimEnd_append]
    -- Four cases, by which of the two texts are blank: then the blanks in front of them go as well.
    by_cases ha : trimEnd a.toList = [] <;> by_cases hb : trimEnd b.toList = []
    · rw [if_pos ha, if_pos hb, ha, hb]
      exact iff_of_true rfl rfl
    · rw [if_pos ha, if_neg hb, ha]
      exact ⟨fun h => absurd h (trimEnd_ne_append hb), fun h => absurd h.symm hb⟩
    · rw [if_neg ha, if_pos hb, hb]
      exact ⟨fun h => absurd h.symm (trimEnd_ne_append ha), fun h => absurd h ha⟩
    · rw [if_neg ha, if_neg hb]
      exact ⟨List.append_cancel_left, congrArg (_ ++ ·)⟩

theorem trim_append_of_blank {gap : List Char} (hgap : ∀ c ∈ gap, isBlank c = true)
    (cs : List Char) : trim (cs ++ gap) = trim cs := by
  rw [trim, trimStart, List.dropWhile_append]
  split
  · next hnil =>
    have hcs : trimStart cs = [] := List.isEmpty_iff.mp hnil
    have hdropped : gap.dropWhile isBlank = [] := by
      have hall : (gap ++ []).dropWhile isBlank = [] := List.dropWhile_append_of_pos hgap
      rwa [List.append_nil] at hall
    rw [hdropped, trim, hcs]
  · exact trimEnd_append_of_blank hgap _

/-- What is the same is the same when it is trimmed. -/
theorem Same.trimmed_eq (h : Same c a b) : trimmed a = trimmed b := by
  have htrim (s : String) : trimmed s = String.ofList (trim (trimEnd s.toList)) := by
    obtain ⟨gap, hs, hgap⟩ := exists_trimEnd_append s.toList
    rw [trimmed, ← trim_append_of_blank hgap (trimEnd s.toList), ← hs]
  cases c with
  | exact => exact congrArg trimmed h
  | upToEnd => rw [htrim, htrim, show trimEnd a.toList = trimEnd b.toList from h]

end SqlTree.Text
