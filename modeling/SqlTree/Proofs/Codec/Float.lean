import SqlTree.Json.Basic
import SqlTree.Proofs.Decimal.Fields

/-!
# Numbers that are read are finite floats

Main statements, `Json.isFinite_floatOfInt` and `Decimal.Numeral.isFinite_of_toFloat?`: a whole
number of at most sixty-four bits is a finite float, and so is any number that can be read as a
float.

Floats are bounded by powers of two (`Below`).  Rounding takes one bit more at most
(`below_roundWithAccuracy`), and a number is divided by powers of ten alone, which are not less than
one; so what is read starts far below the largest float and stays there.  Products can be too large,
and then they are infinite and not read (`isFinite_mul`).
-/

namespace SqlTree

open Float.Model (UnpackedFloat Format totalExponent)
open Float.Model.UnpackedFloat

namespace Decimal

/-! ### Floats below a power of two -/

/-- Zero, or a number below a power of two. -/
def Below (bound : Int) : UnpackedFloat → Prop
  | .zero _ => True
  | .finite _ mantissa exponent _ => totalExponent mantissa exponent ≤ bound
  | _ => False

section Below

variable {x : UnpackedFloat} {bound : Int} {b : BitVec Format.binary64.numBits}

/-- What is bounded is neither infinite nor not a number. -/
theorem Below.isFinite (h : Below bound x) : x.isFinite = true := by
  cases x with
  | zero s => rfl
  | finite s m e hm => rfl
  | _ => exact h.elim

/-- A mantissa has fifty-three bits, unless the exponent is the least one. -/
theorem targetExponent_eq (total : Int) :
    Format.binary64.targetExponent total = max (total - 53) (-1074) := by
  have hmin : Format.binary64.minExponent = -1074 := by decide
  rw [Format.targetExponent, hmin]
  rfl

/-- The bound holds for zero too, whose logarithm counts as zero. -/
theorem log2_le {n k : Nat} (h : n ≤ 2 ^ k) : n.log2 ≤ k := by
  by_cases hzero : n = 0
  · rw [hzero, Nat.log2_zero]
    exact Nat.zero_le _
  · exact Nat.le_of_lt_succ ((Nat.log2_lt hzero).mpr
      (Nat.lt_of_le_of_lt h (Nat.pow_lt_pow_succ (by decide))))

/-- The exponent field bounds a float, unless it is kept for what is not finite. -/
theorem below_unpack (hne : unpackExponent b ≠ -1#_) (hlow : 0 ≤ bound)
    (hexponent : ((unpackExponent b).toNat : Int) - 1022 ≤ bound) :
    Below bound (unpack Format.binary64 b) := by
  have hmantissa : (unpackMantissa b).toNat ≤ 2 ^ 52 := Nat.le_of_lt (unpackMantissa b).isLt
  have hwhole : (1#1 ++ unpackMantissa b).toNat.log2 ≤ 52 := by
    by_cases hzero : (1#1 ++ unpackMantissa b).toNat = 0
    · rw [hzero]
      decide
    · exact Nat.le_of_lt_succ ((Nat.log2_lt hzero).mpr (1#1 ++ unpackMantissa b).isLt)
  show Below bound (ite (unpackExponent b = -1#_) _ (ite (unpackExponent b = 0#_) (dite _ _ _) _))
  -- Without the leading bit a float is subnormal, and its exponent is the least one.
  rw [if_neg hne]
  split
  · next hzero =>
    split
    · trivial
    · have hlog := log2_le hmantissa
      rw [hzero]
      show ((unpackMantissa b).toNat.log2 : Int) + 1 +
        (((0 : Nat) : Int) - ((1023 : Nat) + (52 : Nat)) + 1) ≤ _
      omega
  · show ((1#1 ++ unpackMantissa b).toNat.log2 : Int) + 1 +
      ((unpackExponent b).toNat - ((1023 : Nat) + (52 : Nat))) ≤ _
    omega

/-- What is far below the largest float stays there when it is packed. -/
theorem Below.unpack_pack (h : Below bound x) (hlow : 0 ≤ bound) (hhigh : bound ≤ 972) :
    Below bound (unpack Format.binary64 (pack Format.binary64 x)) := by
  cases x with
  | zero s =>
    have hzero : pack Format.binary64 (.zero s) = packedZero Format.binary64 s := rfl
    rw [hzero, unpack_packedZero]
    trivial
  | finite s m e hm =>
    have htotal : (m.log2 : Int) + 1 + e ≤ bound := h
    have hbiased : (e + Format.binary64.exponentBias +
        Format.binary64.mantissaBitsWithoutImplicit).toNat = (e + 1075).toNat := by
      have hbias : Format.binary64.exponentBias = 1023 := rfl
      rw [hbias]
      show (e + (1023 : Nat) + (52 : Nat)).toNat = _
      congr 1
      omega
    have hsize : (e + 1075).toNat % 2 ^ Format.binary64.exponentBits = (e + 1075).toNat :=
      Nat.mod_eq_of_lt (by show (e + 1075).toNat < 2048; omega)
    -- The exponent fits into its field, so that nothing is packed as infinite.
    delta pack
    dsimp only
    rw [hbiased, if_neg]
    · split
      · next hnormal =>
        have hlog : m.log2 = 52 := Nat.succ.inj hnormal
        refine below_unpack ?_ hlow ?_
        · rw [unpackExponent_packComponents]
          exact exponent_ne (by omega)
        · rw [unpackExponent_packComponents, BitVec.toNat_ofNat, hsize]
          omega
      · refine below_unpack ?_ hlow ?_
        · rw [unpackExponent_packComponents]
          decide
        · rw [unpackExponent_packComponents, BitVec.toNat_ofNat, Nat.zero_mod]
          omega
    · exact Nat.not_le_of_lt (show (e + 1075).toNat + 1 < 2048 by omega)
  | _ => exact h.elim

/-! ### Rounding -/

/-- Shifting drops bits, and keeps track of them for rounding alone. -/
theorem mantissa_shiftRight (m : ExtendedMantissa) (n : Nat) :
    (m >>> n).mantissa = m.mantissa / 2 ^ n := by
  induction n with
  | zero => exact (Nat.div_one _).symm
  | succ n ih =>
    show (m >>> n).mantissa / 2 = _
    rw [ih, Nat.div_div_eq_div_mul, Nat.pow_succ]

theorem mantissa_ofMantissaAndAccuracy (m : Nat) (a : Accuracy) :
    (ExtendedMantissa.ofMantissaAndAccuracy m a).mantissa = m := by
  match a with
  | .exact | .inexact .lt | .inexact .eq | .inexact .gt => rfl

/-- Rounding adds one to a mantissa at most. -/
theorem roundedMantissa_le (m : ExtendedMantissa) : m.roundedMantissa ≤ m.mantissa + 1 := by
  rw [ExtendedMantissa.roundedMantissa]
  match m.accuracy with
  | .exact | .inexact .lt => exact Nat.le_succ _
  | .inexact .eq =>
    show m.mantissa + m.mantissa % 2 ≤ m.mantissa + 1
    omega
  | .inexact .gt => exact Nat.le_refl _

/-- Bits that are dropped and then rounded up are one bit more at most. -/
theorem log2_roundedMantissa_le (m k : Nat) (a : Accuracy) :
    (ExtendedMantissa.ofMantissaAndAccuracy m a >>> k).roundedMantissa.log2 ≤ m.log2 + 1 - k := by
  have hround := roundedMantissa_le (ExtendedMantissa.ofMantissaAndAccuracy m a >>> k)
  rw [mantissa_shiftRight, mantissa_ofMantissaAndAccuracy] at hround
  have hm : m < 2 ^ (m.log2 + 1) := Nat.lt_log2_self
  refine log2_le (Nat.le_trans hround ?_)
  -- A mantissa is shifted by fewer bits than it has, or nothing is left of it.
  rcases Nat.le_total k (m.log2 + 1) with hk | hk
  · have hsplit : 2 ^ (m.log2 + 1) = 2 ^ (m.log2 + 1 - k) * 2 ^ k := by
      rw [← Nat.pow_add, Nat.sub_add_cancel hk]
    exact Nat.div_lt_of_lt_mul (by rwa [Nat.mul_comm, ← hsplit])
  · have hle : 2 ^ (m.log2 + 1) ≤ 2 ^ k := Nat.pow_le_pow_right (by decide) hk
    rw [Nat.div_eq_of_lt (Nat.lt_of_lt_of_le hm hle), Nat.sub_eq_zero_of_le hk]
    exact Nat.le_refl _

/-- Shifting to the left adds no more bits than it shifts by. -/
theorem log2_shiftLeft_le (m k : Nat) : (m <<< k).log2 ≤ m.log2 + k := by
  induction k with
  | zero => exact Nat.le_refl _
  | succ k ih =>
    rw [Nat.shiftLeft_succ]
    -- Zero has no bits to shift.
    by_cases hzero : m <<< k = 0
    · rw [hzero]
      exact Nat.zero_le _
    · rw [Nat.log2_two_mul hzero]
      exact Nat.succ_le_succ ih

/-- A quotient and the number that it is divided by have no more bits together than their product.
-/
theorem log2_div_le {m n : Nat} (h : m / n ≠ 0) : (m / n).log2 + n.log2 ≤ m.log2 := by
  have hm : m ≠ 0 := by
    rintro rfl
    exact h (Nat.zero_div _)
  have hn : n ≠ 0 := by
    rintro rfl
    exact h (Nat.div_zero _)
  rw [Nat.le_log2 hm, Nat.pow_add]
  exact Nat.le_trans (Nat.mul_le_mul (Nat.log2_self_le h) (Nat.log2_self_le hn))
    (Nat.div_mul_le_self m n)

/-- A rounded mantissa may be zero, which is below everything. -/
theorem below_dite (s : Sign) {m : Nat} {e : Int} (h : m ≠ 0 → totalExponent m e ≤ bound) :
    Below bound (if h : m = 0 then .zero s else .finite s m e (Nat.pos_of_ne_zero h)) := by
  by_cases hzero : m = 0
  · rw [dif_pos hzero]
    trivial
  · rw [dif_neg hzero]
    exact h hzero

/-- Rounding takes one bit more at most. -/
theorem below_roundWithAccuracy (s : Sign) {m : Nat} {e : Int} (a : Accuracy)
    (hbound : 0 ≤ bound) (h : totalExponent m e ≤ bound) :
    Below (bound + 1) (roundWithAccuracy Format.binary64 s m e a) := by
  have hround := log2_roundedMantissa_le m
    (Format.binary64.targetExponent (totalExponent m e) - e).toNat a
  rw [roundWithAccuracy]
  refine below_dite s fun hne => ?_
  simp only [mantissa_shiftRight, mantissa_ofMantissaAndAccuracy] at hne ⊢
  have hdrop := log2_div_le hne
  simp only [targetExponent_eq, totalExponent, Nat.log2_two_pow] at hround hdrop h ⊢
  omega

/-! ### Whole numbers and quotients -/

/-- Rounding a whole number adds at most one bit. -/
theorem below_round (s : Sign) {m : Nat} (hbound : 0 ≤ bound) (hm : (m.log2 : Int) + 1 ≤ bound) :
    Below (bound + 1) (UnpackedFloat.round Format.binary64 s m 0) := by
  rw [UnpackedFloat.round]
  simp only [decreaseExponent]
  refine below_roundWithAccuracy s _ hbound ?_
  have hshift := log2_shiftLeft_le m (0 - Format.binary64.targetExponent (totalExponent m 0)).toNat
  rw [totalExponent]
  omega

/-- A quotient of numbers is hardly greater than the first of them, unless the second is less than
one. -/
theorem below_div {y : UnpackedFloat} (hx : Below bound x) (hbound : 0 ≤ bound)
    (hy : ∃ s m e h, y = .finite s m e h ∧ 1 ≤ totalExponent m e) :
    Below (bound + 1) (div Format.binary64 x y) := by
  obtain ⟨s, m, e, hm, rfl, hone⟩ := hy
  cases x with
  | zero s' => trivial
  | finite s' m' e' hm' =>
    refine below_roundWithAccuracy _ _ hbound ?_
    have hshift := log2_shiftLeft_le m'
      (e' - e - min (e' - e) (Format.binary64.targetExponent
        (totalExponent m' e' - totalExponent m e))).toNat
    have htotal : totalExponent m' e' ≤ bound := hx
    show totalExponent (_ / m) _ ≤ bound
    -- A quotient of zero has the exponent that was aimed at.
    by_cases hzero : m' <<< (e' - e - min (e' - e) (Format.binary64.targetExponent
        (totalExponent m' e' - totalExponent m e))).toNat / m = 0
    · rw [hzero, totalExponent, Nat.log2_zero]
      simp only [targetExponent_eq, totalExponent] at hone htotal ⊢
      omega
    · have hquotient := log2_div_le hzero
      simp only [targetExponent_eq, totalExponent] at hone htotal hshift hquotient ⊢
      omega
  | _ => exact hx.elim

/-- A number of sixty-four bits stays below the sixty-fifth power of two when it is rounded. -/
theorem below_ofUInt64 (n : UInt64) : Below 65 (ofUInt64 Format.binary64 n) := by
  have hbits {m : Nat} (hm : m ≤ n.toNat) : (m.log2 : Int) + 1 ≤ 64 := by
    have hlog : m.log2 ≤ 64 - 1 := by
      by_cases hzero : m = 0
      · rw [hzero, Nat.log2_zero]
        exact Nat.zero_le _
      · exact Nat.le_of_lt_succ ((Nat.log2_lt hzero).mpr (Nat.lt_of_le_of_lt hm n.toNat_lt))
    omega
  rw [ofUInt64, UnpackedFloat.ofNat, UnpackedFloat.ofInt, UnpackedFloat.normalize]
  split
  · exact below_round _ (by decide) (hbits (by omega))
  · trivial
  · exact below_round _ (by decide) (hbits (Nat.le_refl _))

/-- A number that is too large for a float is packed as an infinity. -/
theorem isFinite_or_isInf_pack (hx : x.isFinite = true) :
    (unpack Format.binary64 (pack Format.binary64 x)).isFinite = true ∨
      (unpack Format.binary64 (pack Format.binary64 x)).isInf = true := by
  have hfinite {b : BitVec Format.binary64.numBits} (hne : unpackExponent b ≠ -1#_) :
      (unpack Format.binary64 b).isFinite = true := by
    have hlt : (unpackExponent b).toNat < 2048 := (unpackExponent b).isLt
    exact (below_unpack hne (by decide : (0 : Int) ≤ 2048) (by omega)).isFinite
  -- An exponent that is too large for its field is packed as infinite.
  cases x with
  | zero s =>
    have hzero : pack Format.binary64 (.zero s) = packedZero Format.binary64 s := rfl
    rw [hzero, unpack_packedZero]
    exact .inl rfl
  | finite s m e hm =>
    delta pack
    dsimp only
    split
    · refine .inr ?_
      simp [unpack, packedInfinity, UnpackedFloat.isInf]
    · next hsize =>
      refine .inl ?_
      split
      · refine hfinite ?_
        rw [unpackExponent_packComponents]
        exact exponent_ne (Nat.lt_of_succ_lt_succ (Nat.lt_of_not_le hsize))
      · refine hfinite ?_
        rw [unpackExponent_packComponents]
        decide
  | _ => cases hx

/-- A product of finite floats is finite as long as its exponent is not bounded. -/
theorem isFinite_mul_unpacked {y : UnpackedFloat} (hx : x.isFinite = true)
    (hy : y.isFinite = true) : (mul Format.binary64 x y).isFinite = true := by
  have hdite (s : Sign) (m : Nat) (e : Int) : UnpackedFloat.isFinite
      (if h : m = 0 then .zero s else .finite s m e (Nat.pos_of_ne_zero h)) = true := by
    split
    · rfl
    · rfl
  cases x with
  | zero s =>
    cases y with
    | zero s' => rfl
    | finite s' m' e' hm' => rfl
    | _ => cases hy
  | finite s m e hm =>
    cases y with
    | zero s' => rfl
    | finite s' m' e' hm' =>
      show (roundWithAccuracy _ _ _ _ _).isFinite = true
      rw [roundWithAccuracy]
      exact hdite _ _ _
    | _ => cases hy
  | _ => cases hx

end Below

/-! ### Floats -/

/-- What a float is made of. -/
def parts (x : Float) : UnpackedFloat := unpack Format.binary64 x.toBits.toBitVec

section Floats

variable {x y : Float} {bound : Int}

/-- The bound is one bit more than a number of sixty-four bits has, for rounding. -/
theorem below_toFloat (n : UInt64) : Below 65 (parts n.toFloat) :=
  (below_ofUInt64 n).unpack_pack (by decide) (by decide)

/-- Powers of ten that are floats are not less than one. -/
theorem exists_powerOfTen {n : Nat} (hn : n ≤ 308) :
    ∃ s m e h, parts (Numeral.powerOfTen n) = .finite s m e h ∧ 1 ≤ totalExponent m e := by
  have hall : ∀ k < 309, (match parts (Numeral.powerOfTen k) with
      | .finite _ m e _ => decide (1 ≤ totalExponent m e)
      | _ => false) = true := by
    decide +kernel
  have h := hall n (Nat.lt_succ_of_le hn)
  split at h
  · next s m e hm heq => exact ⟨s, m, e, hm, heq, of_decide_eq_true h⟩
  · cases h

/-- Dividing by a power of ten of at least one adds one bit at most, for rounding. -/
theorem below_div_powerOfTen (hx : Below bound (parts x)) (hlow : 0 ≤ bound) (hhigh : bound ≤ 971)
    {n : Nat} (hn : n ≤ 308) : Below (bound + 1) (parts (x / Numeral.powerOfTen n)) :=
  (below_div hx hlow (exists_powerOfTen hn)).unpack_pack (by omega) (by omega)

/-- A product that is not infinite is finite, for it is a number. -/
theorem isFinite_mul (hx : x.isFinite = true) (hy : y.isFinite = true)
    (h : (x * y).isInf = false) : (x * y).isFinite = true :=
  (isFinite_or_isInf_pack (isFinite_mul_unpacked hx hy)).resolve_right fun hinf =>
    Bool.false_ne_true (h.symm.trans hinf)

/-- What is scaled from a small float is finite. -/
theorem isFinite_of_scale {steps : Nat} {power : Int} (hx : Below bound (parts x))
    (hlow : 0 ≤ bound) (hhigh : bound + steps ≤ 900) (h : Numeral.scale steps x power = some y) :
    y.isFinite = true := by
  -- On the steps: a small number is divided by a great power of ten until what is left of the power
  -- is in the table.
  induction steps generalizing x bound power with
  | zero =>
    obtain rfl := Option.some.inj h
    exact hx.isFinite
  | succ steps ih =>
    rw [Numeral.scale] at h
    split at h
    · next hpower =>
      split at h
      · dsimp only at h
        split at h
        · cases h
        · next hinf =>
          obtain rfl := Option.some.inj h
          obtain ⟨s, m, e, hm, hparts, -⟩ := exists_powerOfTen (n := power.toNat) (by omega)
          have hten : (parts (Numeral.powerOfTen power.toNat)).isFinite = true := by
            rw [hparts]
            rfl
          exact isFinite_mul hx.isFinite hten (by simpa using hinf)
      · obtain rfl := Option.some.inj h
        exact (below_div_powerOfTen hx hlow (by omega) hpower).isFinite
    · split at h
      · obtain rfl := Option.some.inj h
        exact hx.isFinite
      · split at h
        · cases h
        · exact ih (below_div_powerOfTen hx hlow (by omega) (Nat.le_refl _)) (by omega) (by omega) h

end Floats

/-- **A number that can be read as a float is a finite float.** -/
theorem Numeral.isFinite_of_toFloat? {n : Numeral} {x : Float} (h : n.toFloat? = some x) :
    x.isFinite = true := by
  unfold toFloat? at h
  obtain ⟨y, hy, rfl⟩ := Option.map_eq_some_iff.mp h
  have hfinite := isFinite_of_scale (below_toFloat _) (by decide) (by decide) hy
  split
  · exact isFinite_neg hfinite
  · exact hfinite

end Decimal

/-- **A whole number of at most sixty-four bits is a finite float.** -/
theorem Json.isFinite_floatOfInt (n : Int) : (floatOfInt n).isFinite = true := by
  have hfinite : (n.natAbs.toUInt64.toFloat).isFinite = true :=
    (Decimal.below_toFloat n.natAbs.toUInt64).isFinite
  rw [floatOfInt]
  split
  · exact Decimal.isFinite_neg hfinite
  · exact hfinite

end SqlTree
