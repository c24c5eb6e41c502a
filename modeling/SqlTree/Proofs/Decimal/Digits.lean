import Mathlib.Tactic.Ring
import SqlTree.Decimal.Notation
import SqlTree.Decimal.Numeral

/-!
# Digits

Digits are read up to something that is no digit (`spanDigits_append`), and the digits of a number
read as that number (`ofDigits_padded`, `ofDigits_digitsOf`).  A `Spelling` is a number as it is
written, character by character; what is written of a whole number and of a float are spellings.
-/

namespace SqlTree.Decimal

/-! ### Digits of a number -/

/-- The values of digits. -/
def values (cs : List Char) : List Nat := cs.map fun c => c.toNat - '0'.toNat

/-- A digit is worth as much as it is behind zero. -/
theorem digit?_of_isDigit {c : Char} (h : c.isDigit = true) :
    digit? c = some (c.toNat - '0'.toNat) := by
  rw [Char.isDigit, Bool.and_eq_true, decide_eq_true_eq, decide_eq_true_eq] at h
  exact if_pos h

theorem digit?_of_not_isDigit {c : Char} (h : c.isDigit = false) : digit? c = none := by
  refine if_neg fun hrange => Bool.false_ne_true (h.symm.trans ?_)
  rw [Char.isDigit, Bool.and_eq_true, decide_eq_true_eq, decide_eq_true_eq]
  exact hrange

/-- Digits are read up to something that is no digit. -/
theorem spanDigits_append {cs rest : List Char} (hcs : ∀ c ∈ cs, c.isDigit = true)
    (hrest : ∀ c ∈ rest.head?, c.isDigit = false) :
    spanDigits (cs ++ rest) = (values cs, rest) := by
  -- Along the digits, up to the first character that is none.
  induction cs with
  | nil =>
    cases rest with
    | nil => rfl
    | cons c rest =>
      have hc : digit? c = none := digit?_of_not_isDigit (hrest c rfl)
      rw [List.nil_append, spanDigits, hc]
      rfl
  | cons c cs ih =>
    have hc : digit? c = some (c.toNat - '0'.toNat) :=
      digit?_of_isDigit (hcs c List.mem_cons_self)
    rw [List.cons_append, spanDigits, hc, ih fun x hx => hcs x (List.mem_cons_of_mem c hx)]
    rfl

/-- Digits are read as Lean's own functions read them. -/
theorem ofDigits_values (cs : List Char) : ofDigits (values cs) = Nat.ofDigitChars 10 cs 0 := by
  have haux (n : Nat) :
      (values cs).foldl (fun n d => 10 * n + d) n = Nat.ofDigitChars 10 cs n := by
    induction cs generalizing n with
    | nil => rfl
    | cons c cs ih => rw [Nat.ofDigitChars_cons, ← ih]; rfl
  exact haux 0

theorem isDigit_of_mem_padded {width n : Nat} {c : Char} (h : c ∈ padded width n) :
    c.isDigit = true := by
  rcases List.mem_append.mp h with hzero | hdigit
  · rw [List.eq_of_mem_replicate hzero]
    decide
  · exact Nat.isDigit_of_mem_toDigits (by decide) (by decide) hdigit

/-- Filling up a number with zeros in front keeps its value. -/
theorem ofDigits_padded (width n : Nat) : ofDigits (values (padded width n)) = n := by
  have hzeros (k : Nat) : Nat.ofDigitChars 10 (List.replicate k '0' ++ digitsOf n) 0 = n := by
    induction k with
    | zero => exact Nat.ofDigitChars_toDigits (by decide) (by decide)
    | succ k ih =>
      rw [List.replicate_succ, List.cons_append, Nat.ofDigitChars_cons]
      exact ih
  rw [ofDigits_values]
  exact hzeros _

theorem padded_ne_nil (width n : Nat) : padded width n ≠ [] :=
  List.append_ne_nil_of_right_ne_nil _ Nat.toDigits_ne_nil

/-- A number that fits its place fills it. -/
theorem length_padded {width n : Nat} (hwidth : 0 < width) (h : n < Nat.pow 10 width) :
    (padded width n).length = width := by
  have hlength : (digitsOf n).length ≤ width :=
    (Nat.length_toDigits_le_iff (by decide) hwidth).mpr h
  show (List.replicate (width - (digitsOf n).length) '0' ++ digitsOf n).length = width
  rw [List.length_append, List.length_replicate]
  omega

/-- A padded number starts with a digit. -/
theorem exists_padded (width n : Nat) :
    ∃ c rest, padded width n = c :: rest ∧ c.isDigit = true := by
  obtain ⟨c, rest, h⟩ := List.exists_cons_of_ne_nil (padded_ne_nil width n)
  exact ⟨c, rest, h, isDigit_of_mem_padded (h ▸ List.mem_cons_self)⟩

/-! ### Digits without zeros in front -/

theorem isDigit_of_mem_digitsOf {n : Nat} {c : Char} (h : c ∈ digitsOf n) : c.isDigit = true :=
  Nat.isDigit_of_mem_toDigits (by decide) (by decide) h

theorem digitsOf_ne_nil (n : Nat) : digitsOf n ≠ [] := Nat.toDigits_ne_nil

/-- The digits of a number are read back as the number. -/
theorem ofDigits_digitsOf (n : Nat) : ofDigits (values (digitsOf n)) = n := by
  rw [ofDigits_values]
  exact Nat.ofDigitChars_toDigits (by decide) (by decide)

/-- The first digit of a number is no zero, unless the number is zero. -/
theorem head?_digitsOf {n : Nat} (hn : 0 < n) : (digitsOf n).head? ≠ some '0' := by
  -- The first digit of a number is that of the number without its last digit.
  induction n using Nat.strongRecOn with
  | ind n ih =>
    by_cases hlt : n < 10
    · have hdigit : ∀ d < 10, 0 < d → [Nat.digitChar d].head? ≠ some '0' := by decide
      rw [digitsOf, Nat.toDigits_of_lt_base hlt]
      exact hdigit n hlt hn
    · have hge : 10 ≤ n := Nat.le_of_not_lt hlt
      have hrest := ih (n / 10) (Nat.div_lt_self hn (by decide)) (Nat.div_pos hge (by decide))
      obtain ⟨c, cs, hcs⟩ := List.exists_cons_of_ne_nil (digitsOf_ne_nil (n / 10))
      have happend : digitsOf n = digitsOf (n / 10) ++ [Nat.digitChar (n % 10)] :=
        Nat.toDigits_of_base_le (by decide) hge
      rw [hcs] at hrest
      rw [happend, hcs]
      exact hrest

theorem values_append (cs ds : List Char) : values (cs ++ ds) = values cs ++ values ds :=
  List.map_append

theorem length_values (cs : List Char) : (values cs).length = cs.length := List.length_map _

/-- Digits in front of others count for as many powers of ten. -/
theorem ofDigits_append (ds es : List Nat) :
    ofDigits (ds ++ es) = ofDigits ds * 10 ^ es.length + ofDigits es := by
  -- What is read first is multiplied by ten for every digit behind it.
  have haux (n : Nat) : es.foldl (fun n d => 10 * n + d) n = n * 10 ^ es.length + ofDigits es := by
    induction es generalizing n with
    | nil => exact (Nat.mul_one n).symm
    | cons d es ih =>
      have hcons : ofDigits (d :: es) = (10 * 0 + d) * 10 ^ es.length + ofDigits es := ih _
      rw [List.foldl_cons, ih, hcons, List.length_cons]
      ring
  rw [ofDigits, List.foldl_append]
  exact haux _

theorem ofDigits_zeros (k : Nat) : ofDigits (values (List.replicate k '0')) = 0 := by
  rw [ofDigits_values, Nat.ofDigitChars_replicate_zero, Nat.mul_zero]

/-! ### Spellings -/

/-- A number as it is written. -/
structure Spelling where
  /-- Whether a minus sign stands in front. -/
  negative : Bool
  /-- The digits before the point. -/
  integer : List Char
  /-- The digits after the point; without any there is no point. -/
  fraction : List Char
  /-- The power of ten after the exponent mark, if there is one. -/
  exponent : Option Int

namespace Spelling

/-- What is written after the digits. -/
def exponentText : Option Int → List Char
  | none => []
  | some power => (if power < 0 then ['e', '-'] else ['e', '+']) ++ digitsOf power.natAbs

/-- The text of a spelling. -/
def text (w : Spelling) : List Char :=
  sign w.negative ++ w.integer ++ (if w.fraction = [] then [] else '.' :: w.fraction) ++
    exponentText w.exponent

/-- What is read of a spelling. -/
def numeral (w : Spelling) : Numeral :=
  ⟨w.negative, values w.integer, values w.fraction, w.exponent⟩

/-- A spelling as documents have them: a zero in front of the point stands alone. -/
structure Proper (w : Spelling) : Prop where
  integer : ∀ c ∈ w.integer, c.isDigit = true
  fraction : ∀ c ∈ w.fraction, c.isDigit = true
  nonempty : w.integer ≠ []
  leading : w.integer.head? = some '0' → w.integer.length = 1

end Spelling

end SqlTree.Decimal
