import SqlTree.Proofs.Decimal.Digits
import SqlTree.Proofs.Decimal.Fields
import SqlTree.Proofs.Decimal.Shortest

/-!
# The text of a float

Main statement, `exists_spelling`: what a document writes for a finite float is the spelling of a
number, with a point or an exponent, and the float is the one nearest to that number.

With and without an exponent the digits of the decimal stand in their order, with zeros around them
(`exists_positional`, `exists_scientific`); so what is written has the value of the decimal, and the
decimal is one that is rounded to the float (`shortest_covers`).  The sign is a bit of its own
(`neg_ofFields`).
-/

namespace SqlTree.Decimal

/-! ### The number that is written -/

namespace Numeral

/-- The digits of a number, read as one number. -/
def significand (n : Numeral) : ℕ := ofDigits (n.integer ++ n.fraction)

/-- The power of ten of its last digit. -/
def power (n : Numeral) : ℤ := n.exponent.getD 0 - n.fraction.length

/-- The float nearest to a number as it is written. -/
def nearest (n : Numeral) : Float :=
  let magnitude := Decimal.nearest n.significand n.power
  if n.negative then -magnitude else magnitude

end Numeral

/-- A spelling of a decimal: it has the value of the decimal, and is no whole number. -/
structure Spelling.Of (w : Spelling) (minus : Bool) (body : List Char) (d : Number) : Prop where
  proper : w.Proper
  negative : w.negative = minus
  text : w.text = sign minus ++ body
  broken : w.fraction ≠ [] ∨ w.exponent ≠ none
  pos : 0 < w.numeral.significand
  value : (w.numeral.significand : ℚ) * (10 : ℚ) ^ w.numeral.power = d.value

section Spellings

variable {d : Number} (hd : 0 < d.digits)
include hd

/-- Digits spell a decimal if they are its digits and `zeros` zeros behind them. -/
theorem Spelling.of_digits {w : Spelling} {body : List Char} (hproper : w.Proper)
    (htext : w.text = sign w.negative ++ body) (hbroken : w.fraction ≠ [] ∨ w.exponent ≠ none)
    (zeros : ℕ)
    (hdigits : ofDigits (values (w.integer ++ w.fraction)) = d.digits * 10 ^ zeros)
    (hpower : w.exponent.getD 0 - w.fraction.length + zeros = d.exponent) :
    w.Of w.negative body d := by
  have hsignificand : w.numeral.significand = d.digits * 10 ^ zeros := by
    rw [← hdigits, values_append]
    rfl
  have hpower' : w.numeral.power + zeros = d.exponent := by
    rw [← hpower, Numeral.power, Spelling.numeral, length_values]
  refine ⟨hproper, rfl, htext, hbroken, ?_, ?_⟩
  · rw [hsignificand]
    exact Nat.mul_pos hd (Nat.pow_pos (by decide))
  · rw [hsignificand, Number.value, ← hpower', zpow_add₀ (by norm_num), zpow_natCast]
    push_cast
    ring

/-- A decimal without an exponent. -/
theorem exists_positional (minus : Bool) :
    ∃ w : Spelling, w.Of minus (d.positional ['.', '0']) d := by
  have hdigits : ∀ c ∈ digitsOf d.digits, c.isDigit = true := fun c => isDigit_of_mem_digitsOf
  have hzeros (k : ℕ) : ∀ c ∈ List.replicate k '0', c.isDigit = true := by
    intro c hc
    rw [List.eq_of_mem_replicate hc]
    rfl
  -- No number starts with a zero, unless the point follows.
  obtain ⟨c, cs, hcs⟩ := List.exists_cons_of_ne_nil (digitsOf_ne_nil d.digits)
  have hhead : c ≠ '0' := by
    have hfirst := head?_digitsOf hd
    rw [hcs] at hfirst
    exact fun hc => hfirst (congrArg some hc)
  have hvalue := ofDigits_digitsOf d.digits
  unfold Number.positional
  dsimp only
  by_cases hexponent : 0 ≤ d.exponent
  · -- Zeros fill the places up to the point.
    rw [if_pos hexponent]
    refine ⟨⟨minus, digitsOf d.digits ++ List.replicate d.exponent.toNat '0', ['0'], none⟩,
      Spelling.of_digits hd ⟨?_, ?_, ?_, ?_⟩ ?_ (.inl (List.cons_ne_nil _ _))
        (d.exponent.toNat + 1) ?_ ?_⟩
    · intro x hx
      exact (List.mem_append.mp hx).elim (hdigits x) (hzeros _ x)
    · exact hzeros 1
    · exact List.append_ne_nil_of_left_ne_nil (digitsOf_ne_nil _) _
    · intro hzero
      rw [hcs] at hzero
      exact absurd (Option.some.inj hzero) hhead
    · simp [Spelling.text, Spelling.exponentText]
    · show ofDigits (values (digitsOf d.digits ++ List.replicate d.exponent.toNat '0' ++ ['0'])) = _
      have hzero : ofDigits (values (List.replicate d.exponent.toNat '0' ++ ['0'])) = 0 := by
        rw [← List.replicate_succ']
        exact ofDigits_zeros _
      rw [List.append_assoc, values_append, ofDigits_append, hvalue, hzero, length_values,
        List.length_append, List.length_replicate, List.length_singleton, Nat.add_zero]
    · simp [hexponent]
  · rw [if_neg hexponent]
    have hplaces : ((-d.exponent).toNat : ℤ) = -d.exponent := Int.toNat_of_nonneg (by omega)
    by_cases hfits : (-d.exponent).toNat < (digitsOf d.digits).length
    · -- The point stands among the digits.
      rw [if_pos hfits]
      have hne :
          (digitsOf d.digits).drop ((digitsOf d.digits).length - (-d.exponent).toNat) ≠ [] := by
        rw [Ne, List.drop_eq_nil_iff]
        omega
      refine ⟨⟨minus, (digitsOf d.digits).take ((digitsOf d.digits).length - (-d.exponent).toNat),
        (digitsOf d.digits).drop ((digitsOf d.digits).length - (-d.exponent).toNat), none⟩,
        Spelling.of_digits hd ⟨?_, ?_, ?_, ?_⟩ ?_ (.inl hne) 0 ?_ ?_⟩
      · exact fun x hx => hdigits x (List.mem_of_mem_take hx)
      · exact fun x hx => hdigits x (List.mem_of_mem_drop hx)
      · rw [Ne, List.take_eq_nil_iff, not_or]
        exact ⟨by omega, digitsOf_ne_nil _⟩
      · intro hzero
        obtain ⟨n, hn⟩ := Nat.exists_eq_add_one.mpr (Nat.sub_pos_of_lt hfits)
        rw [hn, hcs] at hzero
        exact absurd (Option.some.inj hzero) hhead
      · simp [Spelling.text, Spelling.exponentText, hne]
      · dsimp only
        rw [List.take_append_drop, hvalue, Nat.pow_zero, Nat.mul_one]
      · simp only [List.length_drop, Option.getD_none]
        omega
    · -- Zeros fill the places behind the point.
      rw [if_neg hfits]
      have hne : List.replicate ((-d.exponent).toNat - (digitsOf d.digits).length) '0' ++
          digitsOf d.digits ≠ [] := List.append_ne_nil_of_right_ne_nil _ (digitsOf_ne_nil _)
      refine ⟨⟨minus, ['0'],
        List.replicate ((-d.exponent).toNat - (digitsOf d.digits).length) '0' ++ digitsOf d.digits,
        none⟩,
        Spelling.of_digits hd ⟨?_, ?_, List.cons_ne_nil _ _, fun _ => rfl⟩ ?_ (.inl hne) 0 ?_ ?_⟩
      · exact hzeros 1
      · exact fun x hx => (List.mem_append.mp hx).elim (hzeros _ x) (hdigits x)
      · simp [Spelling.text, Spelling.exponentText, hne]
      · show ofDigits (values (['0'] ++ (List.replicate _ '0' ++ digitsOf d.digits))) = _
        have hzero := ofDigits_zeros ((-d.exponent).toNat - (digitsOf d.digits).length + 1)
        rw [← List.append_assoc, List.singleton_append, ← List.replicate_succ, values_append,
          ofDigits_append, hzero, hvalue, Nat.zero_mul, Nat.zero_add, Nat.pow_zero, Nat.mul_one]
      · simp only [List.length_append, List.length_replicate, Option.getD_none]
        omega

/-- A decimal with an exponent. -/
theorem exists_scientific (minus : Bool) : ∃ w : Spelling, w.Of minus d.scientific d := by
  have hdigits : ∀ c ∈ digitsOf d.digits, c.isDigit = true := fun c => isDigit_of_mem_digitsOf
  have hvalue := ofDigits_digitsOf d.digits
  obtain ⟨c, cs, hcs⟩ := List.exists_cons_of_ne_nil (digitsOf_ne_nil d.digits)
  rw [hcs] at hdigits hvalue
  obtain ⟨hc, hrest⟩ := List.forall_mem_cons.mp hdigits
  -- Behind the first digit stand a point and the other digits, if there are others.
  refine ⟨⟨minus, [c], cs, some d.leading⟩,
    Spelling.of_digits hd ⟨List.forall_mem_singleton.mpr hc, hrest, List.cons_ne_nil _ _,
      fun _ => rfl⟩ ?_ (.inr (Option.some_ne_none _)) 0 ?_ ?_⟩
  · unfold Number.scientific
    simp only [hcs]
    cases cs with
    | nil => simp [Spelling.text, Spelling.exponentText]
    | cons second rest => simp [Spelling.text, Spelling.exponentText]
  · show ofDigits (values ([c] ++ cs)) = _
    rw [List.singleton_append, hvalue, Nat.pow_zero, Nat.mul_one]
  · simp only [Option.getD_some, Number.leading, hcs, List.length_cons]
    push_cast
    ring

end Spellings

/-! ### The float that is written -/

/-- The number of digits places a number between two powers of ten. -/
theorem length_toDigits_bounds {n : ℕ} (hn : 0 < n) :
    (10 : ℚ) ^ ((Nat.toDigits 10 n).length - 1 : ℤ) ≤ n ∧
      (n : ℚ) < (10 : ℚ) ^ ((Nat.toDigits 10 n).length : ℤ) := by
  obtain ⟨k, hk⟩ := Nat.exists_eq_add_one.mpr
    (List.length_pos_iff.mpr (Nat.toDigits_ne_nil (b := 10) (n := n)))
  have hlt : n < 10 ^ (k + 1) :=
    (Nat.length_toDigits_le_iff (by decide) (Nat.succ_pos k)).mp hk.le
  have hge : 10 ^ k ≤ n := by
    rcases Nat.eq_zero_or_pos k with rfl | hpos
    · exact hn
    · by_contra hless
      have hle := (Nat.length_toDigits_le_iff (b := 10) (by decide) hpos).mpr (not_le.mp hless)
      omega
  -- The number of digits says between which powers of ten a number lies.
  rw [hk]
  push_cast
  rw [add_sub_cancel_right, zpow_natCast]
  exact ⟨by exact_mod_cast hge, by exact_mod_cast hlt⟩

/-- What is covered is at least half of the least float. -/
theorem Binary.OfFloat.half_le_lower {b : Binary} (hb : b.OfFloat) :
    1 / 2 * (2 : ℚ) ^ (-1074 : ℤ) ≤ b.lower := by
  have hsignificand : (1 / 2 : ℚ) ≤ b.significand - 1 / 2 := by
    have hle : (1 : ℚ) ≤ b.significand := by exact_mod_cast hb.pos
    linarith
  refine le_trans ?_ b.half_le_lower
  exact mul_le_mul hsignificand (zpow_le_zpow_right₀ (by norm_num) hb.least) (by positivity)
    (by linarith)

/-- What is rounded to a positive float is positive. -/
theorem Binary.OfFloat.lower_pos {b : Binary} (hb : b.OfFloat) : 0 < b.lower :=
  lt_of_lt_of_le (by positivity) hb.half_le_lower

/-- A decimal that a binary number of a float covers is rounded to that float. -/
theorem nearest_of_covers {b : Binary} (hb : b.OfFloat) {significand : ℕ} {power : ℤ}
    (hpos : 0 < significand) (h : b.Covers (significand * (10 : ℚ) ^ power)) :
    nearest significand power =
      Float.ofBits (UInt64.ofNat ((b.exponent + 1074).toNat * leadingBit + b.significand)) := by
  have hten : (1 : ℚ) < 10 := by norm_num
  obtain ⟨hdigits, hdigits'⟩ := length_toDigits_bounds hpos
  have hpower : (0 : ℚ) < (10 : ℚ) ^ power := by positivity
  have hwhole : (0 : ℚ) < (2 : ℚ) ^ b.exponent := by positivity
  -- The size of the number is that of a finite float, so that it is really rounded.
  have hlarge : ((Nat.toDigits 10 significand).length : ℤ) + power ≤ 310 := by
    have hsignificand : (b.significand : ℚ) + 1 / 2 ≤ 2 ^ 53 := by
      have hle : (b.significand : ℚ) + 1 ≤ 2 ^ 53 := by exact_mod_cast hb.lt
      linarith
    have hlt :
        (10 : ℚ) ^ (((Nat.toDigits 10 significand).length : ℤ) - 1 + power) < 10 ^ (310 : ℤ) := by
      calc (10 : ℚ) ^ (((Nat.toDigits 10 significand).length : ℤ) - 1 + power)
          ≤ significand * (10 : ℚ) ^ power := by
            rw [zpow_add₀ (by norm_num)]
            exact mul_le_mul_of_nonneg_right hdigits hpower.le
        _ ≤ b.upper := h.le_upper
        _ ≤ 2 ^ 53 * (2 : ℚ) ^ (971 : ℤ) :=
            mul_le_mul hsignificand (zpow_le_zpow_right₀ (by norm_num) hb.greatest) hwhole.le
              (by positivity)
        _ = 2 ^ (1024 : ℤ) := by
            rw [← zpow_natCast, ← zpow_add₀ two_ne_zero]
            norm_num
        _ < 10 ^ (310 : ℤ) := by
            have hinverse : (10 : ℚ) ^ (-310 : ℤ) < 2 ^ (-1024 : ℤ) :=
              ten_zpow_lt (by norm_num) (by norm_num)
            rw [zpow_neg, zpow_neg] at hinverse
            exact (inv_lt_inv₀ (by positivity) (by positivity)).mp hinverse
    have hless := (zpow_lt_zpow_iff_right₀ hten).mp hlt
    omega
  have hsmall : -330 ≤ ((Nat.toDigits 10 significand).length : ℤ) + power := by
    have hlt :
        (10 : ℚ) ^ (-330 : ℤ) < 10 ^ (((Nat.toDigits 10 significand).length : ℤ) + power) := by
      calc (10 : ℚ) ^ (-330 : ℤ) < 2 ^ (-1075 : ℤ) := ten_zpow_lt (by norm_num) (by norm_num)
        _ = 1 / 2 * (2 : ℚ) ^ (-1074 : ℤ) := by
            have hsplit : (-1075 : ℤ) = -1 + -1074 := by norm_num
            rw [hsplit, zpow_add₀ two_ne_zero, zpow_neg_one, one_div]
        _ ≤ b.lower := hb.half_le_lower
        _ ≤ significand * (10 : ℚ) ^ power := h.lower_le
        _ < 10 ^ (((Nat.toDigits 10 significand).length : ℤ) + power) := by
            rw [zpow_add₀ (by norm_num)]
            exact mul_lt_mul_of_pos_right hdigits' hpower
    have hless := (zpow_lt_zpow_iff_right₀ hten).mp hlt
    omega
  have hfraction :
      ((significand * Nat.pow 10 power.toNat : ℕ) : ℚ) / (Nat.pow 10 (-power).toNat : ℕ) =
        significand * (10 : ℚ) ^ power := by
    have hpow := zpow_eq_div 10 power
    rw [Nat.cast_ofNat] at hpow
    rw [hpow, Nat.cast_mul, mul_div_assoc]
  have hbits : nearestBits (significand * Nat.pow 10 power.toNat) (Nat.pow 10 (-power).toNat) = _ :=
    nearestBits_of_covers hb (Nat.mul_pos hpos (Nat.pow_pos (by decide)))
      (Nat.pow_pos (by decide)) (hfraction ▸ h)
  unfold nearest
  dsimp only
  rw [if_neg hpos.ne', if_neg (not_lt.mpr hlarge), if_neg (not_lt.mpr hsmall), hbits]

/-- **The text of a float names it.** What a document writes for a finite float is the spelling of a
number with a point or an exponent, and the float is the nearest one to that number. -/
theorem exists_spelling {x : Float} (hx : x.isFinite = true) :
    ∃ w : Spelling, w.Proper ∧ (w.fraction ≠ [] ∨ w.exponent ≠ none) ∧
      document? x = some w.text ∧ w.numeral.nearest = x := by
  obtain ⟨minus, scale, fraction, hscale, hfraction, rfl⟩ := exists_ofFields hx
  -- A minus sign turns the float of the magnitude into the one with the same fields.
  have hsigned {n : Numeral} (hnegative : n.negative = minus)
      (hmagnitude : nearest n.significand n.power = ofFields false scale fraction) :
      n.nearest = ofFields minus scale fraction := by
    rw [Numeral.nearest, hmagnitude, hnegative]
    cases minus with
    | false => rfl
    | true => exact neg_ofFields hscale hfraction false
  by_cases hzero : scale = 0 ∧ fraction = 0
  · obtain ⟨rfl, rfl⟩ := hzero
    refine ⟨⟨minus, ['0'], ['0'], none⟩, ⟨?_, ?_, List.cons_ne_nil _ _, fun _ => rfl⟩,
      .inl (List.cons_ne_nil _ _), ?_, hsigned rfl ?_⟩
    · exact List.forall_mem_singleton.mpr rfl
    · exact List.forall_mem_singleton.mpr rfl
    · rw [document?, content_ofFields hscale hfraction]
      cases minus <;> rfl
    · have hnearest : nearest 0 (-1) = ofFields false 0 0 := by decide +kernel
      exact hnearest
  · obtain ⟨b, hb, hcontent, hbits⟩ := exists_binary hscale hfraction minus hzero
    have hcovers := shortest_covers hb .even
    have hdigits : 0 < (shortest .even b).digits := by
      refine Nat.pos_of_ne_zero fun hzero => absurd (hb.lower_pos.trans_le hcovers.lower_le) ?_
      rw [Number.value, hzero, Nat.cast_zero, zero_mul]
      exact lt_irrefl _
    obtain ⟨w, hw⟩ : ∃ w : Spelling, w.Of minus (if -5 ≤ (shortest .even b).leading ∧
        (shortest .even b).leading < 16 then (shortest .even b).positional ['.', '0']
        else (shortest .even b).scientific) (shortest .even b) := by
      split
      · exact exists_positional hdigits minus
      · exact exists_scientific hdigits minus
    refine ⟨w, hw.proper, hw.broken, ?_, hsigned hw.negative ?_⟩
    · rw [document?, hcontent, hw.text]
    · rw [nearest_of_covers hb hw.pos (hw.value ▸ hcovers), hbits]
      rfl

end SqlTree.Decimal
