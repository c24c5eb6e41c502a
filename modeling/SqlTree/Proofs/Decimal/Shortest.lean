import SqlTree.Proofs.Decimal.Nearest

/-!
# The fewest digits are covered

Main statement, `shortest_covers`: the decimal that is found for a float is one of those that are
rounded to it.

A multiple that is taken is covered, since the comparisons are those of the definition in quarters
of the last bit (`covers_of_multiple?`).  The search ends: once the power of ten weighs less than
half of the last bit, the multiple above the float is covered (`isSome_multiple?`), and after
twenty-four steps it does (`unit_lt`).
-/

namespace SqlTree.Decimal

/-- The value of a decimal number. -/
def Number.value (d : Number) : ℚ := d.digits * (10 : ℚ) ^ d.exponent

/-! ### Multiples of a power of ten -/

/-- The weight of a quarter of the last bit, for comparisons with a power of ten. -/
def quarter (e k : ℤ) : ℕ := Nat.pow 2 (e - 2).toNat * Nat.pow 10 (-k).toNat

/-- The weight of a power of ten, for comparisons with a quarter of the last bit. -/
def unit (e k : ℤ) : ℕ := Nat.pow 2 (2 - e).toNat * Nat.pow 10 k.toNat

theorem quarter_pos (e k : ℤ) : 0 < quarter e k :=
  Nat.mul_pos (Nat.two_pow_pos _) (Nat.pow_pos (by decide))

theorem unit_pos (e k : ℤ) : 0 < unit e k :=
  Nat.mul_pos (Nat.two_pow_pos _) (Nat.pow_pos (by decide))

/-- The two weights have the proportion of what they stand for. -/
theorem unit_mul (e k : ℤ) :
    (unit e k : ℚ) * ((2 : ℚ) ^ e / 4) = quarter e k * (10 : ℚ) ^ k := by
  have htwo := zpow_eq_div 2 (e - 2)
  have hten := zpow_eq_div 10 k
  rw [Int.neg_sub, Nat.cast_ofNat] at htwo
  rw [Nat.cast_ofNat] at hten
  have hpos : (0 : ℚ) < (Nat.pow 2 (2 - e).toNat : ℕ) := by exact_mod_cast Nat.two_pow_pos _
  have hpos' : (0 : ℚ) < (Nat.pow 10 (-k).toNat : ℕ) := by
    exact_mod_cast Nat.pow_pos (by decide)
  have hquarter : (2 : ℚ) ^ e / 4 = (2 : ℚ) ^ (e - 2) := by
    rw [zpow_sub₀ two_ne_zero]
    norm_num
  rw [hquarter, htwo, hten, unit, quarter, Nat.cast_mul, Nat.cast_mul]
  field_simp

/-- The number of which a natural number is the number of quarters, times the weight of one. -/
def place (e k : ℤ) (n : ℕ) : ℚ := n / quarter e k * ((2 : ℚ) ^ e / 4)

/-- All comparisons are made at one scale, and keep their order there. -/
theorem place_strictMono (e k : ℤ) : StrictMono (place e k) := by
  intro n m hnm
  have hquarter : (0 : ℚ) < quarter e k := by exact_mod_cast quarter_pos e k
  have hpos : (0 : ℚ) < (2 : ℚ) ^ e / 4 := by positivity
  exact mul_lt_mul_of_pos_right
    (div_lt_div_of_pos_right (by exact_mod_cast hnm) hquarter) hpos

/-- At that scale the quarters of the last bit are whole numbers. -/
theorem place_quarter (e k : ℤ) (c : ℕ) :
    place e k (c * quarter e k) = c * ((2 : ℚ) ^ e / 4) := by
  have hquarter : (quarter e k : ℚ) ≠ 0 := by exact_mod_cast (quarter_pos e k).ne'
  rw [place, Nat.cast_mul, mul_div_assoc, div_self hquarter, mul_one]

/-- So are the multiples of the power of ten. -/
theorem place_unit (e k : ℤ) (t : ℕ) : place e k (t * unit e k) = t * (10 : ℚ) ^ k := by
  have hquarter : (quarter e k : ℚ) ≠ 0 := by exact_mod_cast (quarter_pos e k).ne'
  have hunit := unit_mul e k
  rw [place, Nat.cast_mul, div_mul_eq_mul_div, mul_assoc, hunit]
  field_simp

section Multiples

variable {b : Binary} {k : ℤ} {t : ℕ}

/-- The quarters between the middle of a binary number and its lower end. -/
def Binary.below (b : Binary) : ℕ := if b.narrowBelow then 1 else 2

/-- The lower end lies half a bit below, or a quarter at a power of two. -/
theorem lower_eq_place (hb : 0 < b.significand) (k : ℤ) :
    b.lower = place b.exponent k ((4 * b.significand - b.below) * quarter b.exponent k) := by
  have hle : b.below ≤ 4 * b.significand := by
    unfold Binary.below
    split <;> omega
  rw [place_quarter, Binary.lower, Nat.cast_sub hle, Binary.below]
  split
  · push_cast
    ring
  · push_cast
    ring

/-- The upper end lies half a bit above. -/
theorem upper_eq_place (b : Binary) (k : ℤ) :
    b.upper = place b.exponent k ((4 * b.significand + 2) * quarter b.exponent k) := by
  rw [place_quarter, Binary.upper]
  push_cast
  ring

/-- A multiple of a power of ten is covered just when the comparisons of natural numbers say so. -/
theorem covers_iff (hb : 0 < b.significand) :
    b.Covers (t * (10 : ℚ) ^ k) ↔
      (4 * b.significand - b.below) * quarter b.exponent k < t * unit b.exponent k ∧
          t * unit b.exponent k < (4 * b.significand + 2) * quarter b.exponent k ∨
        b.significand % 2 = 0 ∧
          (t * unit b.exponent k = (4 * b.significand - b.below) * quarter b.exponent k ∨
            t * unit b.exponent k = (4 * b.significand + 2) * quarter b.exponent k) := by
  have hmono := place_strictMono b.exponent k
  rw [Binary.Covers, ← place_unit b.exponent, lower_eq_place hb k, upper_eq_place b k,
    hmono.lt_iff_lt, hmono.lt_iff_lt, hmono.injective.eq_iff, hmono.injective.eq_iff]

end Multiples

/-! ### The multiples next to a binary number -/

section Neighbours

variable {b : Binary} {k : ℤ}

/-- The largest multiple of a power of ten that is not above a binary number, without the power. -/
def floor (b : Binary) (k : ℤ) : ℕ :=
  4 * b.significand * quarter b.exponent k / unit b.exponent k

/-- Whether the multiple below is taken. -/
def takesFloor (b : Binary) (k : ℤ) : Bool :=
  (4 * b.significand - b.below) * quarter b.exponent k < floor b k * unit b.exponent k ||
    (b.significand % 2 == 0 &&
      (4 * b.significand - b.below) * quarter b.exponent k == floor b k * unit b.exponent k)

/-- Whether the next multiple is taken. -/
def takesNext (b : Binary) (k : ℤ) : Bool :=
  (floor b k + 1) * unit b.exponent k < (4 * b.significand + 2) * quarter b.exponent k ||
    (b.significand % 2 == 0 &&
      (floor b k + 1) * unit b.exponent k == (4 * b.significand + 2) * quarter b.exponent k)

/-- The search at one power of ten. -/
theorem multiple?_cases (tie : Tie) (b : Binary) (k : ℤ) :
    multiple? tie b k = none ∧ takesNext b k = false ∨
      multiple? tie b k = some (floor b k) ∧ takesFloor b k = true ∨
      multiple? tie b k = some (floor b k + 1) ∧ takesNext b k = true := by
  unfold multiple?
  dsimp only
  split
  · next hnext => exact .inl ⟨rfl, hnext⟩
  · next hfloor _ => exact .inr (.inl ⟨rfl, hfloor⟩)
  · next hnext => exact .inr (.inr ⟨rfl, hnext⟩)
  · next hfloor hnext =>
    -- Both are taken, so that either answer will do.
    split
    · exact .inr (.inl ⟨rfl, hfloor⟩)
    split
    · exact .inr (.inr ⟨rfl, hnext⟩)
    cases tie with
    | even =>
      dsimp only
      split
      · exact .inr (.inl ⟨rfl, hfloor⟩)
      · exact .inr (.inr ⟨rfl, hnext⟩)
    | up => exact .inr (.inr ⟨rfl, hnext⟩)

/-- The float lies between the two multiples. -/
theorem floor_bounds (b : Binary) (k : ℤ) :
    floor b k * unit b.exponent k ≤ 4 * b.significand * quarter b.exponent k ∧
      4 * b.significand * quarter b.exponent k < (floor b k + 1) * unit b.exponent k := by
  have hdivision := Nat.div_add_mod (4 * b.significand * quarter b.exponent k) (unit b.exponent k)
  have hrest := Nat.mod_lt (4 * b.significand * quarter b.exponent k) (unit_pos b.exponent k)
  rw [Nat.mul_comm] at hdivision
  rw [Nat.add_mul, Nat.one_mul]
  unfold floor
  omega

/-- The multiple below is not above the upper end, so the lower end decides. -/
theorem covers_floor (hb : 0 < b.significand) (h : takesFloor b k = true) :
    b.Covers (floor b k * (10 : ℚ) ^ k) := by
  have hquarter := quarter_pos b.exponent k
  have hupper : floor b k * unit b.exponent k <
      (4 * b.significand + 2) * quarter b.exponent k := by
    have hle := (floor_bounds b k).1
    rw [Nat.add_mul]
    omega
  rw [covers_iff hb]
  simp only [takesFloor, Bool.or_eq_true, Bool.and_eq_true, decide_eq_true_eq, beq_iff_eq] at h
  rcases h with hlower | ⟨heven, hlower⟩
  · exact .inl ⟨hlower, hupper⟩
  · exact .inr ⟨heven, .inl hlower.symm⟩

/-- The next multiple is above the float, so the upper end decides. -/
theorem covers_next (hb : 0 < b.significand) (h : takesNext b k = true) :
    b.Covers ((floor b k + 1 : ℕ) * (10 : ℚ) ^ k) := by
  have hlower : (4 * b.significand - b.below) * quarter b.exponent k <
      (floor b k + 1) * unit b.exponent k :=
    (Nat.mul_le_mul_right _ (Nat.sub_le _ _)).trans_lt (floor_bounds b k).2
  rw [covers_iff hb]
  simp only [takesNext, Bool.or_eq_true, Bool.and_eq_true, decide_eq_true_eq, beq_iff_eq] at h
  rcases h with hupper | ⟨heven, hupper⟩
  · exact .inl ⟨hlower, hupper⟩
  · exact .inr ⟨heven, .inr hupper⟩

/-- A multiple that is taken is covered. -/
theorem covers_of_multiple? (hb : 0 < b.significand) {tie : Tie} {t : ℕ}
    (h : multiple? tie b k = some t) : b.Covers (t * (10 : ℚ) ^ k) := by
  rcases multiple?_cases tie b k with ⟨hnone, -⟩ | ⟨hfloor, htakes⟩ | ⟨hnext, htakes⟩
  · rw [hnone] at h
    cases h
  · obtain rfl := Option.some.inj (hfloor.symm.trans h)
    exact covers_floor hb htakes
  · obtain rfl := Option.some.inj (hnext.symm.trans h)
    exact covers_next hb htakes

/-- A power of ten that weighs less than half of the last bit has a multiple that is taken. -/
theorem isSome_multiple? (tie : Tie) (hunit : (10 : ℚ) ^ k < (2 : ℚ) ^ (b.exponent - 1)) :
    (multiple? tie b k).isSome = true := by
  have hsmall : unit b.exponent k < 2 * quarter b.exponent k := by
    have hmono := place_strictMono b.exponent k
    rw [← hmono.lt_iff_lt, place_quarter, ← Nat.one_mul (unit b.exponent k), place_unit,
      Nat.cast_one, one_mul]
    refine hunit.trans_eq ?_
    rw [zpow_sub_one₀ two_ne_zero]
    push_cast
    ring
  -- The next multiple is less than a unit above the float, and so below the upper end.
  have htakes : takesNext b k = true := by
    have hle := (floor_bounds b k).1
    simp only [takesNext, Bool.or_eq_true, decide_eq_true_eq]
    refine .inl ?_
    rw [Nat.add_mul, Nat.add_mul, Nat.one_mul]
    omega
  rcases multiple?_cases tie b k with ⟨-, hnone⟩ | ⟨hfloor, -⟩ | ⟨hnext, -⟩
  · rw [hnone] at htakes
    cases htakes
  · rw [hfloor]
    rfl
  · rw [hnext]
    rfl

end Neighbours

/-! ### The search -/

/-- The search finds a number that is covered if it gets far enough. -/
theorem shortestFrom_covers {b : Binary} (hb : 0 < b.significand) (tie : Tie) (steps : ℕ) {k : ℤ}
    (h : (multiple? tie b (k - steps)).isSome = true) :
    b.Covers (shortestFrom tie b (steps + 1) k).value := by
  -- On the steps: either this power of ten has a multiple, or a smaller one has.
  induction steps generalizing k with
  | zero =>
    obtain ⟨t, ht⟩ := Option.isSome_iff_exists.mp h
    rw [Nat.cast_zero, Int.sub_zero] at ht
    rw [shortestFrom, ht]
    exact covers_of_multiple? hb ht
  | succ steps ih =>
    rw [shortestFrom]
    cases ht : multiple? tie b k with
    | some t => exact covers_of_multiple? hb ht
    | none =>
      refine ih ?_
      have hlast : k - 1 - (steps : ℤ) = k - ((steps + 1 : ℕ) : ℤ) := by
        push_cast
        ring
      rw [hlast]
      exact h

/-- Powers of ten and of two, whether large or small, by `10 ^ 59 < 2 ^ 196` and `2 ^ 93 < 10 ^ 28`.
-/
theorem ten_zpow_lt {k e : ℤ} (hlarge : 0 ≤ k → 196 * k < 59 * e)
    (hsmall : k < 0 → 93 * k < 28 * e) : (10 : ℚ) ^ k < (2 : ℚ) ^ e := by
  have hone : (1 : ℚ) < 2 := by norm_num
  have htwo (n : ℕ) : ((2 : ℚ) ^ e) ^ n = (2 : ℚ) ^ ((n : ℤ) * e) := by
    rw [← zpow_natCast, ← zpow_mul, mul_comm]
  have hten (n : ℕ) : ((10 : ℚ) ^ k) ^ n = ((10 : ℚ) ^ n) ^ k := by
    rw [← zpow_natCast, ← zpow_mul, mul_comm, zpow_mul, zpow_natCast]
  have hpos : (0 : ℚ) ≤ (2 : ℚ) ^ e := by positivity
  -- The logarithm of ten is bounded on either side by a fraction, one for each sign of the
  -- exponent.
  rcases Int.lt_or_le k 0 with hk | hk
  · refine lt_of_pow_lt_pow_left₀ 28 hpos ?_
    rw [hten, htwo]
    calc ((10 : ℚ) ^ 28) ^ k = (((10 : ℚ) ^ 28)⁻¹) ^ (-k) := by rw [inv_zpow', neg_neg]
      _ ≤ (((2 : ℚ) ^ 93)⁻¹) ^ (-k) :=
          zpow_le_zpow_left₀ (by omega) (by positivity) (inv_anti₀ (by positivity) (by norm_num))
      _ = (2 : ℚ) ^ (93 * k) := by rw [inv_zpow', neg_neg, ← zpow_natCast, ← zpow_mul]; norm_num
      _ < (2 : ℚ) ^ (((28 : ℕ) : ℤ) * e) := zpow_lt_zpow_right₀ hone (hsmall hk)
  · refine lt_of_pow_lt_pow_left₀ 59 hpos ?_
    rw [hten, htwo]
    calc ((10 : ℚ) ^ 59) ^ k ≤ ((2 : ℚ) ^ 196) ^ k :=
          zpow_le_zpow_left₀ hk (by positivity) (by norm_num)
      _ = (2 : ℚ) ^ (196 * k) := by rw [← zpow_natCast, ← zpow_mul]; norm_num
      _ < (2 : ℚ) ^ (((59 : ℕ) : ℤ) * e) := zpow_lt_zpow_right₀ hone (hlarge hk)

/-- **The fewest digits name the float.** The decimal that is found for a float is rounded to it. -/
theorem shortest_covers {b : Binary} (hb : b.OfFloat) (tie : Tie) :
    b.Covers (shortest tie b).value := by
  have hbits : b.significand.log2 ≤ 52 :=
    Nat.le_of_lt_succ ((Nat.log2_lt hb.pos.ne').mpr hb.lt)
  have hleast := hb.least
  have hgreatest := hb.greatest
  unfold shortest
  dsimp only
  -- Twenty-three powers are enough: the last one weighs less than half of the last bit.
  refine shortestFrom_covers hb.pos tie 23 (isSome_multiple? tie ?_)
  rw [Int.fdiv_eq_ediv_of_nonneg _ (by decide)]
  refine ten_zpow_lt (fun hk => ?_) fun hk => ?_
  · push_cast at hk ⊢
    omega
  · push_cast at hk ⊢
    omega

end SqlTree.Decimal
