import SqlTree.Dialect.Basic
import SqlTree.Statement.Page

/-!
# Texts without a character

A character in a statement can only be told from what the compiler writes if nothing else writes
one.  `Text.Lacks` says that a string does not have a character; quoting, cutting and joining
strings adds none, and a number has only digits.  `Text.Unmarked` is the case of question marks.
-/

namespace SqlTree.Text

/-! ### Any character -/

/-- A string without a character. -/
def Lacks (mark : Char) (s : String) : Prop := mark ∉ s.toList

instance (mark : Char) (s : String) : Decidable (Lacks mark s) :=
  inferInstanceAs (Decidable (mark ∉ s.toList))

variable {mark : Char} {s t : String}

theorem Lacks.append (hs : Lacks mark s) (ht : Lacks mark t) : Lacks mark (s ++ t) := by
  rw [Lacks, String.toList_append, List.mem_append]
  exact fun h => h.elim hs ht

/-- What is made of the characters of a string has no other ones. -/
theorem Lacks.of_subset (hs : Lacks mark s) {cs : List Char} (h : ∀ c ∈ cs, c ∈ s.toList) :
    Lacks mark (String.ofList cs) := by
  rw [Lacks, String.toList_ofList]
  exact fun hmem => hs (h _ hmem)

theorem Lacks.ite {c : Prop} [Decidable c] (hs : Lacks mark s) (ht : Lacks mark t) :
    Lacks mark (if c then s else t) := by
  split
  · exact hs
  · exact ht

/-- The digits of a number are the only characters of its numeral. -/
theorem isDigit_of_mem_toString {n : Nat} {c : Char} (h : c ∈ (toString n).toList) :
    c.isDigit = true := by
  rw [Nat.toString_eq_repr, Nat.toList_repr] at h
  exact Nat.isDigit_of_mem_toDigits (by omega) (by omega) h

theorem lacks_toString (hmark : mark.isDigit = false) (n : Nat) : Lacks mark (toString n) := by
  intro h
  rw [isDigit_of_mem_toString h] at hmark
  cases hmark

theorem lacks_intercalate {separator : String} (hseparator : Lacks mark separator)
    {l : List String} (hl : ∀ s ∈ l, Lacks mark s) : Lacks mark (separator.intercalate l) := by
  induction l with
  | nil =>
    rw [String.intercalate_nil]
    exact List.not_mem_nil
  | cons s rest ih =>
    have hs : Lacks mark s := hl s List.mem_cons_self
    have hrest := ih fun t ht => hl t (List.mem_cons_of_mem s ht)
    -- The separator stands in front of every text but the first.
    cases rest with
    | nil => rwa [String.intercalate_singleton]
    | cons t rest =>
      rw [String.intercalate_cons_cons]
      exact (hs.append hseparator).append hrest

/-- Quoting an identifier adds quotes only. -/
theorem lacks_quoteWith {quote : Char} (hquote : quote ≠ mark) (hs : Lacks mark s) :
    Lacks mark (quoteWith quote s) := by
  -- Only quotes are doubled, and they are no marks.
  have hchar : ∀ c ∈ s.toList, mark ∉ (if c = quote then [quote, quote] else [c]) := by
    intro c hc
    have hne : c ≠ mark := fun h => hs (h ▸ hc)
    split
    · simp [hquote.symm]
    · simp [hne.symm]
  rw [Lacks, quoteWith, String.toList_ofList]
  simp only [List.cons_append, List.mem_cons, List.mem_append, List.mem_flatMap, List.not_mem_nil,
    or_false, not_or]
  refine ⟨hquote.symm, ?_, hquote.symm⟩
  rintro ⟨c, hc, h⟩
  exact hchar c hc h

theorem lacks_unqualified (h : Lacks mark s) : Lacks mark (unqualified s) := by
  apply h.of_subset
  intro c hc
  rw [List.mem_reverse] at hc
  exact List.mem_reverse.mp ((List.takeWhile_sublist _).subset hc)

theorem lacks_trimmed (h : Lacks mark s) : Lacks mark (trimmed s) := by
  apply h.of_subset
  intro c hc
  have hstart : c ∈ trimStart s.toList :=
    List.mem_reverse.mp ((List.dropWhile_sublist _).subset (List.mem_reverse.mp hc))
  exact (List.dropWhile_sublist _).subset hstart

/-! ### Question marks -/

/-- A string without question marks. -/
def Unmarked (s : String) : Prop := '?' ∉ s.toList

instance (s : String) : Decidable (Unmarked s) := inferInstanceAs (Decidable ('?' ∉ s.toList))

theorem Unmarked.append (hs : Unmarked s) (ht : Unmarked t) : Unmarked (s ++ t) :=
  Lacks.append hs ht

theorem Unmarked.ite {c : Prop} [Decidable c] (hs : Unmarked s) (ht : Unmarked t) :
    Unmarked (if c then s else t) := Lacks.ite hs ht

end SqlTree.Text
