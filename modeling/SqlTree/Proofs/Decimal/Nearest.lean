import Mathlib.Algebra.Order.Field.Power
import Mathlib.Data.Rat.Cast.Order
import Mathlib.Tactic.FieldSimp
import Mathlib.Tactic.GCongr
import Mathlib.Tactic.Linarith
import Mathlib.Tactic.NormNum
import Mathlib.Tactic.Positivity
import Mathlib.Tactic.Ring
import SqlTree.Decimal.Numeral

/-!
# The nearest float

A binary number of a float covers the rationals around it that are rounded to it.  Main statement,
`nearestBits_of_covers`: the bits that are found for a fraction are those of the binary number that
covers it.

The weight of the last bit is read off the leading power of two of the fraction
(`leading_spec`).  A fraction just below a power of two can be covered by that power: then the
significand is rounded up to one bit more, and the carry gives the same bits.
-/

namespace SqlTree.Decimal

/-! ### What a binary number covers -/

/-- The value of a binary number. -/
def Binary.value (b : Binary) : ℚ := b.significand * (2 : ℚ) ^ b.exponent

/-- The lower end of the neighbourhood of a binary number. -/
def Binary.lower (b : Binary) : ℚ :=
  (b.significand - if b.narrowBelow then 1 / 4 else 1 / 2) * (2 : ℚ) ^ b.exponent

/-- The upper end of the neighbourhood of a binary number. -/
def Binary.upper (b : Binary) : ℚ := (b.significand + 1 / 2) * (2 : ℚ) ^ b.exponent

/-- The numbers that are rounded to a binary number: those between the two ends, and the ends
themselves if the significand is even. -/
def Binary.Covers (b : Binary) (q : ℚ) : Prop :=
  b.lower < q ∧ q < b.upper ∨ b.significand % 2 = 0 ∧ (q = b.lower ∨ q = b.upper)

/-- The binary number of a float: fifty-three bits, or fewer with the least weight of the last bit.
The neighbour below is nearer where the significand is the least one of its size. -/
structure Binary.OfFloat (b : Binary) : Prop where
  pos : 0 < b.significand
  lt : b.significand < 2 ^ 53
  least : -1074 ≤ b.exponent
  greatest : b.exponent ≤ 971
  full : 2 ^ 52 ≤ b.significand ∨ b.exponent = -1074
  narrow : b.narrowBelow = true ↔ b.significand = 2 ^ 52 ∧ -1074 < b.exponent

/-! ### Powers of two -/

/-- A power with an integer exponent is a quotient of two natural powers, one of which is one. -/
theorem zpow_eq_div (base : ℕ) (z : ℤ) :
    (base : ℚ) ^ z = (Nat.pow base z.toNat : ℕ) / (Nat.pow base (-z).toNat : ℕ) := by
  show (base : ℚ) ^ z = ((base ^ z.toNat : ℕ) : ℚ) / ((base ^ (-z).toNat : ℕ) : ℚ)
  push_cast
  rcases Int.le_total 0 z with hz | hz
  · rw [Int.toNat_of_nonpos (Int.neg_nonpos_of_nonneg hz), pow_zero, div_one, ← zpow_natCast,
      Int.toNat_of_nonneg hz]
  · rw [Int.toNat_of_nonpos hz, pow_zero, one_div, ← zpow_natCast,
      Int.toNat_of_nonneg (Int.neg_nonneg_of_nonpos hz), zpow_neg, inv_inv]

/-- A fraction lies between a power of two and the next one in one way only. -/
theorem eq_of_between {q : ℚ} {i j : ℤ} (hi : (2 : ℚ) ^ i ≤ q) (hi' : q < (2 : ℚ) ^ (i + 1))
    (hj : (2 : ℚ) ^ j ≤ q) (hj' : q < (2 : ℚ) ^ (j + 1)) : i = j := by
  have hij := (zpow_lt_zpow_iff_right₀ (by norm_num : (1 : ℚ) < 2)).mp (hi.trans_lt hj')
  have hji := (zpow_lt_zpow_iff_right₀ (by norm_num : (1 : ℚ) < 2)).mp (hj.trans_lt hi')
  omega

/-- The leading power of two of a fraction, from the number of bits of its two parts. -/
def leading (numerator denominator : ℕ) : ℤ :=
  let guess : Int := (numerator.log2 : Int) - denominator.log2
  if denominator * Nat.pow 2 guess.toNat ≤ numerator * Nat.pow 2 (-guess).toNat then guess
  else guess - 1

/-- The leading power of two of a fraction is the greatest one that is not above it. -/
theorem leading_spec {n d : ℕ} (hn : 0 < n) (hd : 0 < d) :
    (2 : ℚ) ^ leading n d ≤ (n : ℚ) / d ∧ (n : ℚ) / d < (2 : ℚ) ^ (leading n d + 1) := by
  have hdpos : (0 : ℚ) < d := by exact_mod_cast hd
  have hn1 : (2 : ℚ) ^ (n.log2 : ℤ) ≤ n := by
    rw [zpow_natCast]
    exact_mod_cast Nat.log2_self_le hn.ne'
  have hn2 : (n : ℚ) < (2 : ℚ) ^ ((n.log2 : ℤ) + 1) := by
    have h : n < 2 ^ (n.log2 + 1) := Nat.lt_log2_self
    exact_mod_cast h
  have hd1 : (2 : ℚ) ^ (d.log2 : ℤ) ≤ d := by
    rw [zpow_natCast]
    exact_mod_cast Nat.log2_self_le hd.ne'
  have hd2 : (d : ℚ) < (2 : ℚ) ^ ((d.log2 : ℤ) + 1) := by
    have h : d < 2 ^ (d.log2 + 1) := Nat.lt_log2_self
    exact_mod_cast h
  -- The comparison multiplies out the one of the fraction with the guessed power.
  have hguess : d * Nat.pow 2 ((n.log2 : ℤ) - d.log2).toNat ≤
        n * Nat.pow 2 (-((n.log2 : ℤ) - d.log2)).toNat ↔
      (2 : ℚ) ^ ((n.log2 : ℤ) - d.log2) ≤ (n : ℚ) / d := by
    have hpow := zpow_eq_div 2 ((n.log2 : ℤ) - d.log2)
    have hpos : (0 : ℚ) < (Nat.pow 2 (-((n.log2 : ℤ) - d.log2)).toNat : ℕ) := by
      exact_mod_cast Nat.two_pow_pos _
    rw [Nat.cast_ofNat] at hpow
    rw [hpow, div_le_div_iff₀ hpos hdpos, ← Nat.cast_le (α := ℚ), Nat.cast_mul, Nat.cast_mul,
      mul_comm (d : ℚ)]
  have hbelow : (2 : ℚ) ^ ((n.log2 : ℤ) - d.log2 - 1) ≤ (n : ℚ) / d := by
    rw [le_div_iff₀ hdpos]
    calc (2 : ℚ) ^ ((n.log2 : ℤ) - d.log2 - 1) * d
        ≤ 2 ^ ((n.log2 : ℤ) - d.log2 - 1) * 2 ^ ((d.log2 : ℤ) + 1) := by gcongr
      _ = 2 ^ (n.log2 : ℤ) := by
        rw [← zpow_add₀ two_ne_zero]
        congr 1
        ring
      _ ≤ n := hn1
  have habove : (n : ℚ) / d < (2 : ℚ) ^ ((n.log2 : ℤ) - d.log2 + 1) := by
    rw [div_lt_iff₀ hdpos]
    calc (n : ℚ) < 2 ^ ((n.log2 : ℤ) + 1) := hn2
      _ = 2 ^ ((n.log2 : ℤ) - d.log2 + 1) * 2 ^ (d.log2 : ℤ) := by
        rw [← zpow_add₀ two_ne_zero]
        congr 1
        ring
      _ ≤ 2 ^ ((n.log2 : ℤ) - d.log2 + 1) * d := by gcongr
  unfold leading
  dsimp only
  by_cases h : (2 : ℚ) ^ ((n.log2 : ℤ) - d.log2) ≤ (n : ℚ) / d
  · rw [if_pos (hguess.mpr h)]
    exact ⟨h, habove⟩
  · rw [if_neg fun hle => h (hguess.mp hle), Int.sub_add_cancel]
    exact ⟨hbelow, not_le.mp h⟩

/-! ### Rounding -/

/-- A quotient is rounded to a whole number that is at most a half away, and to an even one if it is
a half away. -/
theorem roundedQuotient_eq {n d k : ℕ} (hd : 0 < d) (hlow : (k : ℚ) - 1 / 2 ≤ (n : ℚ) / d)
    (hhigh : (n : ℚ) / d ≤ k + 1 / 2)
    (htie : k % 2 = 0 ∨ (k : ℚ) - 1 / 2 < (n : ℚ) / d ∧ (n : ℚ) / d < k + 1 / 2) :
    roundedQuotient n d = k := by
  have hdpos : (0 : ℚ) < d := by exact_mod_cast hd
  have hlow' : 2 * k * d ≤ 2 * n + d := by
    rw [le_div_iff₀ hdpos] at hlow
    have h : 2 * (k : ℚ) * d ≤ 2 * n + d := by linarith
    exact_mod_cast h
  have hhigh' : 2 * n ≤ 2 * k * d + d := by
    rw [div_le_iff₀ hdpos] at hhigh
    have h : 2 * (n : ℚ) ≤ 2 * k * d + d := by linarith
    exact_mod_cast h
  have htie' : k % 2 = 0 ∨ 2 * k * d < 2 * n + d ∧ 2 * n < 2 * k * d + d := by
    refine htie.imp_right fun ⟨hl, hh⟩ => ?_
    rw [lt_div_iff₀ hdpos] at hl
    rw [div_lt_iff₀ hdpos] at hh
    have h : 2 * (k : ℚ) * d < 2 * n + d := by linarith
    have h' : 2 * (n : ℚ) < 2 * k * d + d := by linarith
    exact ⟨by exact_mod_cast h, by exact_mod_cast h'⟩
  -- In terms of the quotient and the rest everything is linear in `d * (n / d)` and `d * k`.
  have hdivision := Nat.div_add_mod n d
  have hrest := Nat.mod_lt n hd
  have hproduct : 2 * k * d = 2 * (d * k) := by ring
  rw [hproduct] at hlow' hhigh' htie'
  have hnear : n / d = k ∨ n / d + 1 = k := by
    by_contra hne
    rcases Nat.lt_or_ge k (n / d) with hlt | hge
    · have hmul : d * k + d ≤ d * (n / d) := Nat.mul_le_mul_left d hlt
      omega
    · have hmul : d * (n / d) + d + d ≤ d * k := by
        have hle : d * (n / d + 1 + 1) ≤ d * k := Nat.mul_le_mul_left d (by omega)
        rwa [Nat.mul_succ, Nat.mul_succ] at hle
      omega
  unfold roundedQuotient
  dsimp only
  rcases hnear with hq | hq
  · rw [hq] at hdivision ⊢
    split
    · rfl
    · split
      · omega
      · rcases htie' with heven | ⟨-, hlt⟩
        · omega
        · omega
  · have hmul : d * k = d * (n / d) + d := by rw [← hq, Nat.mul_succ]
    split
    · omega
    · split
      · exact hq
      · rcases htie' with heven | ⟨hlt, -⟩
        · omega
        · omega

/-! ### The bits of the nearest float -/

namespace Binary

variable {b : Binary} {q : ℚ}

/-- The neighbourhood below reaches at most half the weight of the last bit. -/
theorem half_le_lower (b : Binary) :
    (b.significand - 1 / 2 : ℚ) * (2 : ℚ) ^ b.exponent ≤ b.lower := by
  have hpos : (0 : ℚ) < (2 : ℚ) ^ b.exponent := by positivity
  unfold lower
  refine mul_le_mul_of_nonneg_right ?_ hpos.le
  split
  · linarith
  · exact le_rfl

/-- A float lies between the ends of what is rounded to it. -/
theorem lower_le_upper (b : Binary) : b.lower ≤ b.upper := by
  have hpos : (0 : ℚ) < (2 : ℚ) ^ b.exponent := by positivity
  unfold lower upper
  refine mul_le_mul_of_nonneg_right ?_ hpos.le
  split
  · linarith
  · linarith

/-- In units of the last bit, what is covered is at most a half away from the significand, and less
if the significand is odd. -/
theorem Covers.bounds (h : b.Covers q) :
    (b.significand : ℚ) - 1 / 2 ≤ q / (2 : ℚ) ^ b.exponent ∧
      q / (2 : ℚ) ^ b.exponent ≤ b.significand + 1 / 2 ∧
      (b.significand % 2 = 0 ∨ (b.significand : ℚ) - 1 / 2 < q / (2 : ℚ) ^ b.exponent ∧
        q / (2 : ℚ) ^ b.exponent < b.significand + 1 / 2) := by
  have hpos : (0 : ℚ) < (2 : ℚ) ^ b.exponent := by positivity
  have hhalf := b.half_le_lower
  rw [le_div_iff₀ hpos, div_le_iff₀ hpos, lt_div_iff₀ hpos, div_lt_iff₀ hpos]
  have hlower := b.lower_le_upper
  rcases h with ⟨hl, hu⟩ | ⟨heven, rfl | rfl⟩
  · exact ⟨(hhalf.trans_lt hl).le, hu.le, .inr ⟨hhalf.trans_lt hl, hu⟩⟩
  · exact ⟨hhalf, hlower, .inl heven⟩
  · exact ⟨hhalf.trans hlower, le_rfl, .inl heven⟩

/-- An end may be covered or not, so the bounds hold with equality. -/
theorem Covers.lower_le (h : b.Covers q) : b.lower ≤ q := by
  rcases h with ⟨hl, -⟩ | ⟨-, rfl | rfl⟩
  · exact hl.le
  · exact le_rfl
  · exact b.lower_le_upper

theorem Covers.le_upper (h : b.Covers q) : q ≤ b.upper := by
  rcases h with ⟨-, hu⟩ | ⟨-, rfl | rfl⟩
  · exact hu.le
  · exact b.lower_le_upper
  · exact le_rfl

end Binary

/-- The weight of the last bit that a fraction is rounded to. -/
theorem last_eq {b : Binary} (hb : b.OfFloat) {n d : ℕ} (hn : 0 < n) (hd : 0 < d)
    (h : b.Covers ((n : ℚ) / d)) :
    max (leading n d - 52) (-1074) = b.exponent ∨
      b.significand = 2 ^ 52 ∧ max (leading n d - 52) (-1074) = b.exponent - 1 ∧
        (2 ^ 53 - 1 / 2 : ℚ) * (2 : ℚ) ^ (b.exponent - 1) ≤ (n : ℚ) / d ∧
        (n : ℚ) / d < 2 ^ 53 * (2 : ℚ) ^ (b.exponent - 1) := by
  have hpos : (0 : ℚ) < (2 : ℚ) ^ b.exponent := by positivity
  obtain ⟨hleading, hleading'⟩ := leading_spec hn hd
  obtain ⟨hlow, hhigh, -⟩ := h.bounds
  rw [le_div_iff₀ hpos] at hlow
  rw [div_le_iff₀ hpos] at hhigh
  have hsplit (k : ℕ) : (2 : ℚ) ^ ((k : ℤ) + b.exponent) = 2 ^ k * (2 : ℚ) ^ b.exponent := by
    rw [zpow_add₀ two_ne_zero, zpow_natCast]
  have hone : (2 : ℚ) ^ b.exponent = 2 * (2 : ℚ) ^ (b.exponent - 1) := by
    rw [zpow_sub_one₀ two_ne_zero]
    ring
  -- A fraction that is rounded to the float lies less than half of its last bit away from it, and
  -- so below the next power of two.
  have habove : (n : ℚ) / d < (2 : ℚ) ^ ((52 : ℕ) + b.exponent + 1) := by
    have hnext : ((52 : ℕ) : ℤ) + b.exponent + 1 = (53 : ℕ) + b.exponent := by push_cast; ring
    have hlt : (b.significand : ℚ) + 1 / 2 < 2 ^ 53 := by
      have hle : (b.significand : ℚ) + 1 ≤ 2 ^ 53 := by exact_mod_cast hb.lt
      linarith
    rw [hnext, hsplit]
    exact hhigh.trans_lt (mul_lt_mul_of_pos_right hlt hpos)
  rcases le_or_gt ((2 : ℚ) ^ ((52 : ℕ) + b.exponent)) ((n : ℚ) / d) with hle | hlt
  · -- The fraction has fifty-three bits in front of the last one.
    have hexponent := eq_of_between hleading hleading' hle habove
    have hleast := hb.least
    exact .inl (by rw [hexponent]; push_cast; omega)
  · have hless := (zpow_lt_zpow_iff_right₀ (by norm_num : (1 : ℚ) < 2)).mp (hleading.trans_lt hlt)
    push_cast at hless
    by_cases hexponent : b.exponent = -1074
    · exact .inl (by omega)
    · -- It lies just below the significand, which is the least one of its size.
      have hleast := hb.least
      have hfull : 2 ^ 52 ≤ b.significand := hb.full.resolve_right hexponent
      have hsignificand : b.significand = 2 ^ 52 := by
        rw [hsplit] at hlt
        have hbound : (b.significand : ℚ) - 1 / 2 < 2 ^ 52 :=
          lt_of_mul_lt_mul_right (hlow.trans_lt hlt) hpos.le
        have hnat : (b.significand : ℚ) < 2 ^ 52 + 1 := by linarith
        have hnat' : b.significand < 2 ^ 52 + 1 := by exact_mod_cast hnat
        omega
      have hnarrow : b.narrowBelow = true := hb.narrow.mpr ⟨hsignificand, by omega⟩
      have hlower : (2 ^ 53 - 1 / 2 : ℚ) * (2 : ℚ) ^ (b.exponent - 1) ≤ (n : ℚ) / d := by
        refine le_trans (le_of_eq ?_) h.lower_le
        rw [Binary.lower, hnarrow, hsignificand, hone, if_pos rfl]
        push_cast
        ring
      have hupper : (n : ℚ) / d < 2 ^ 53 * (2 : ℚ) ^ (b.exponent - 1) := by
        rw [hsplit, hone] at hlt
        refine hlt.trans_eq ?_
        ring
      have hexponent' : leading n d = 51 + b.exponent := by
        refine eq_of_between hleading hleading' ?_ ?_
        · refine le_trans ?_ hlower
          have hpos' : (0 : ℚ) < (2 : ℚ) ^ (b.exponent - 1) := by positivity
          have hsplit' : (2 : ℚ) ^ (51 + b.exponent) = 2 ^ 52 * (2 : ℚ) ^ (b.exponent - 1) := by
            rw [← zpow_natCast, ← zpow_add₀ two_ne_zero]
            congr 1
            push_cast
            ring
          rw [hsplit']
          exact mul_le_mul_of_nonneg_right (by norm_num) hpos'.le
        · refine hlt.trans_eq (congrArg _ ?_)
          push_cast
          ring
      exact .inr ⟨hsignificand, by rw [hexponent']; omega, hlower, hupper⟩

/-- **The bits of the nearest float.** A fraction that a binary number of a float covers has the
bits of that float: its significand over the number of steps from the least exponent. -/
theorem nearestBits_of_covers {b : Binary} (hb : b.OfFloat) {n d : ℕ} (hn : 0 < n) (hd : 0 < d)
    (h : b.Covers ((n : ℚ) / d)) :
    nearestBits n d = (b.exponent + 1074).toNat * leadingBit + b.significand := by
  have hbit : leadingBit = 2 ^ 52 := rfl
  have hleast := hb.least
  have hgreatest := hb.greatest
  have hsize := hb.lt
  -- What is rounded is the fraction in units of the last bit.
  have hratio (last : ℤ) : ((n * Nat.pow 2 (-last).toNat : ℕ) : ℚ) /
      ((d * Nat.pow 2 last.toNat : ℕ) : ℚ) = (n : ℚ) / d / (2 : ℚ) ^ last := by
    have hpow := zpow_eq_div 2 last
    rw [Nat.cast_ofNat] at hpow
    rw [hpow, Nat.cast_mul, Nat.cast_mul]
    field_simp
  have hdpos (last : ℤ) : 0 < d * Nat.pow 2 last.toNat := Nat.mul_pos hd (Nat.two_pow_pos _)
  show min ((max (leading n d - 52) (-1074) + 1074).toNat * leadingBit +
    roundedQuotient (n * Nat.pow 2 (-max (leading n d - 52) (-1074)).toNat)
      (d * Nat.pow 2 (max (leading n d - 52) (-1074)).toNat)) (2047 * leadingBit) = _
  rcases last_eq hb hn hd h with hlast | ⟨hsignificand, hlast, hlower, hupper⟩
  · obtain ⟨hlow, hhigh, htie⟩ := h.bounds
    have hround := roundedQuotient_eq (hdpos b.exponent) (k := b.significand)
      (by rwa [hratio]) (by rwa [hratio]) (by rwa [hratio])
    rw [hlast, hround, hbit]
    omega
  · have hpos : (0 : ℚ) < (2 : ℚ) ^ (b.exponent - 1) := by positivity
    have hround := roundedQuotient_eq (hdpos (b.exponent - 1)) (k := 2 ^ 53)
      (by rw [hratio, le_div_iff₀ hpos]; exact_mod_cast hlower)
      (by
        rw [hratio, div_le_iff₀ hpos]
        refine hupper.le.trans (mul_le_mul_of_nonneg_right ?_ hpos.le)
        norm_num)
      (.inl (by norm_num))
    have hexponent : b.exponent ≠ -1074 := by
      intro heq
      rw [heq] at hlast
      exact absurd (le_max_right (leading n d - 52) (-1074)) (by rw [hlast]; norm_num)
    rw [hlast, hround, hbit, hsignificand]
    omega

end SqlTree.Decimal
