import Mathlib
import SqlTree.Proofs.Decimal.Nearest

/-!
# The fields of a float

Main statements, `exists_ofFields` and `neg_ofFields`: a finite float is given by its sign and by
two fields of its bits, and its negative has the same fields and the other sign.

What the fields stand for is `content_ofFields`: nothing, or a binary number from which the bits are
had back, as `Decimal.nearestBits_of_covers` gives them.
-/

namespace SqlTree.Decimal

open Float.Model (Format UnpackedFloat)
open Float.Model.UnpackedFloat

/-! ### Bits -/

/-- The bits of a float with a sign and two fields. -/
def fieldBits (minus : Bool) (scale fraction : ℕ) : ℕ :=
  (minus.toNat * 2048 + scale) * leadingBit + fraction

/-- The float with a sign and two fields. -/
def ofFields (minus : Bool) (scale fraction : ℕ) : Float :=
  Float.ofBits (UInt64.ofNat (fieldBits minus scale fraction))

/-- The sign of a float as its bits have it. -/
def signOf (minus : Bool) : Sign := if minus then .negative else .positive

section Fields

variable {scale fraction : ℕ} (hscale : scale < 2047) (hfraction : fraction < leadingBit)
include hscale hfraction

/-- The three fields take sixty-four bits. -/
theorem fieldBits_lt (minus : Bool) : fieldBits minus scale fraction < 2 ^ 64 := by
  rw [leadingBit] at hfraction
  have hminus := minus.toNat_le
  rw [fieldBits, leadingBit]
  omega

/-- The fields stand one behind the other. -/
theorem toBitVec_fields (minus : Bool) :
    (UInt64.ofNat (fieldBits minus scale fraction)).toBitVec =
      packComponents Format.binary64 (signOf minus) (BitVec.ofNat _ scale)
        (BitVec.ofNat _ fraction) := by
  have hbits := fieldBits_lt hscale hfraction minus
  have hsign : (signOf minus).toBitVec.toNat = minus.toNat := by cases minus <;> rfl
  have hexponent : Format.binary64.exponentBits = 11 := rfl
  have hmantissa : Format.binary64.mantissaBitsWithoutImplicit = 52 := rfl
  rw [leadingBit] at hfraction
  -- Joined fields are sums of numbers that do not overlap.
  apply BitVec.eq_of_toNat_eq
  rw [UInt64.toNat_toBitVec, UInt64.toNat_ofNat', Nat.mod_eq_of_lt hbits, packComponents,
    BitVec.toNat_append, BitVec.toNat_append, hsign, BitVec.toNat_ofNat, BitVec.toNat_ofNat,
    hexponent, hmantissa, Nat.mod_eq_of_lt (by omega : scale < 2 ^ 11),
    Nat.mod_eq_of_lt (by omega : fraction < 2 ^ 52),
    ← Nat.shiftLeft_add_eq_or_of_lt (by omega : scale < 2 ^ 11),
    ← Nat.shiftLeft_add_eq_or_of_lt (by omega : fraction < 2 ^ 52),
    Nat.shiftLeft_eq, Nat.shiftLeft_eq]
  rfl

omit hfraction in
/-- The greatest exponent field is kept for what is not finite. -/
theorem exponent_ne : BitVec.ofNat Format.binary64.exponentBits scale ≠ -1#_ := by
  intro heq
  have hnat := congrArg BitVec.toNat heq
  rw [BitVec.toNat_ofNat] at hnat
  have hsize : scale % 2 ^ 11 = 2047 := hnat
  omega

/-- Floats that are not NaN keep their bits. -/
theorem toBits_ofFields (minus : Bool) :
    (ofFields minus scale fraction).toBits = UInt64.ofNat (fieldBits minus scale fraction) := by
  apply UInt64.toBitVec_inj.mp
  show pack Format.binary64 (unpack Format.binary64 _) = _
  rw [toBitVec_fields hscale hfraction, pack_unpack, if_neg]
  rw [isNaNBits, decide_eq_true_eq, unpackExponent_packComponents]
  exact fun h => exponent_ne hscale h.1

/-- **The negative of a float.** It has the same fields and the other sign. -/
theorem neg_ofFields (minus : Bool) :
    -ofFields minus scale fraction = ofFields (!minus) scale fraction := by
  have hne := exponent_ne hscale
  have hsign : signOf (!minus) = -signOf minus := by cases minus <;> rfl
  -- Only the sign differs between the two, and no exponent is that of NaN.
  have hunpack : unpack Format.binary64 (packComponents Format.binary64 (-signOf minus)
        (BitVec.ofNat _ scale) (BitVec.ofNat _ fraction)) =
      (unpack Format.binary64 (packComponents Format.binary64 (signOf minus)
        (BitVec.ofNat _ scale) (BitVec.ofNat _ fraction))).neg := by
    simp only [unpack, unpackExponent_packComponents, unpackMantissa_packComponents,
      unpackSign_packComponents, Sign.ofBitVec_toBitVec, if_neg hne]
    split
    · split
      · rfl
      · rfl
    · rfl
  apply Float.toBits_inj.mp
  rw [toBits_ofFields hscale hfraction]
  apply UInt64.toBitVec_inj.mp
  show pack Format.binary64 (unpack Format.binary64
    (ofFields minus scale fraction).toBits.toBitVec).neg = _
  rw [toBits_ofFields hscale hfraction, toBitVec_fields hscale hfraction,
    toBitVec_fields hscale hfraction, ← hunpack, hsign, pack_unpack, if_neg]
  rw [isNaNBits, decide_eq_true_eq, unpackExponent_packComponents]
  exact fun h => hne h.1

/-- With an exponent below the greatest one a float is finite. -/
theorem isFinite_ofFields (minus : Bool) : (ofFields minus scale fraction).isFinite = true := by
  show (unpack Format.binary64 (ofFields minus scale fraction).toBits.toBitVec).isFinite = true
  rw [toBits_ofFields hscale hfraction, toBitVec_fields hscale hfraction]
  simp only [unpack, unpackExponent_packComponents, unpackMantissa_packComponents,
    if_neg (exponent_ne hscale)]
  split
  · split
    · rfl
    · rfl
  · rfl

/-- What a float holds is in its fields. -/
theorem content_ofFields (minus : Bool) :
    Content.ofFloat (ofFields minus scale fraction) =
      if scale = 0 then
        if fraction = 0 then .zero minus else .finite minus ⟨fraction, -1074, false⟩
      else
        .finite minus
          ⟨fraction + leadingBit, (scale : ℤ) - 1075, fraction == 0 && decide (1 < scale)⟩ := by
  have hbits := fieldBits_lt hscale hfraction minus
  -- The fields are taken out of the number by dividing and by taking remainders.
  have hsign : (fieldBits minus scale fraction >>> 63 % 2 == 1) = minus := by
    rw [Nat.shiftRight_eq_div_pow, fieldBits]
    rw [leadingBit] at hfraction ⊢
    cases minus with
    | false =>
      rw [beq_eq_false_iff_ne]
      simp only [Bool.toNat_false]
      omega
    | true =>
      rw [beq_iff_eq]
      simp only [Bool.toNat_true]
      omega
  have hexponent : fieldBits minus scale fraction >>> 52 % 2048 = scale := by
    rw [Nat.shiftRight_eq_div_pow, fieldBits]
    rw [leadingBit] at hfraction ⊢
    omega
  have hrest : fieldBits minus scale fraction % leadingBit = fraction := by
    rw [fieldBits, Nat.mul_comm, Nat.mul_add_mod, Nat.mod_eq_of_lt hfraction]
  rw [Content.ofFloat, toBits_ofFields hscale hfraction, UInt64.toNat_ofNat',
    Nat.mod_eq_of_lt hbits, Content.ofBits, hsign, hexponent, hrest, if_neg hscale.ne]

/-- Fields that are not both zero hold a binary number, from which the bits without the sign are
had back. -/
theorem exists_binary (minus : Bool) (hne : ¬(scale = 0 ∧ fraction = 0)) :
    ∃ b : Binary, b.OfFloat ∧ Content.ofFloat (ofFields minus scale fraction) = .finite minus b ∧
      (b.exponent + 1074).toNat * leadingBit + b.significand = fieldBits false scale fraction := by
  have hbit : leadingBit = 2 ^ 52 := rfl
  rw [content_ofFields hscale hfraction]
  -- Without the leading bit the exponent is the least one.
  by_cases hzero : scale = 0
  · have hpos : 0 < fraction := Nat.pos_of_ne_zero fun h => hne ⟨hzero, h⟩
    refine ⟨⟨fraction, -1074, false⟩, ⟨hpos, ?_, le_rfl, by norm_num, .inr rfl, ?_⟩, ?_, ?_⟩
    · rw [hbit] at hfraction
      dsimp only
      omega
    · refine ⟨fun h => ?_, fun h => absurd h.2 (by norm_num)⟩
      cases h
    · rw [if_pos hzero, if_neg hpos.ne']
    · rw [fieldBits, hzero]
      rfl
  · refine ⟨⟨fraction + leadingBit, (scale : ℤ) - 1075, fraction == 0 && decide (1 < scale)⟩,
      ⟨?_, ?_, ?_, ?_, .inl ?_, ?_⟩, ?_, ?_⟩
    · exact Nat.add_pos_right _ (by rw [hbit]; norm_num)
    · rw [hbit] at hfraction ⊢
      dsimp only
      omega
    · dsimp only
      omega
    · dsimp only
      omega
    · rw [hbit]
      exact Nat.le_add_left _ _
    · rw [Bool.and_eq_true, beq_iff_eq, decide_eq_true_eq, hbit]
      dsimp only
      omega
    · rw [if_neg hzero]
    · rw [fieldBits]
      rw [hbit]
      dsimp only [Bool.toNat_false]
      omega

end Fields

/-- **A finite float is given by its sign and two fields.** -/
theorem exists_ofFields {x : Float} (h : x.isFinite = true) :
    ∃ minus scale fraction, scale < 2047 ∧ fraction < leadingBit ∧
      x = ofFields minus scale fraction := by
  let b : BitVec Format.binary64.numBits := x.toBits.toBitVec
  have hfinite : (unpack Format.binary64 b).isFinite = true := h
  have hexponent : unpackExponent b ≠ -1#_ := by
    intro heq
    rw [unpack] at hfinite
    dsimp only at hfinite
    rw [if_pos heq] at hfinite
    split at hfinite
    · cases hfinite
    · cases hfinite
  have hscale : (unpackExponent b).toNat < 2047 := by
    have hlt : (unpackExponent b).toNat < 2048 := (unpackExponent b).isLt
    have hne : (unpackExponent b).toNat ≠ 2047 := fun heq =>
      hexponent (BitVec.eq_of_toNat_eq heq)
    omega
  have hfraction : (unpackMantissa b).toNat < leadingBit := (unpackMantissa b).isLt
  -- The fields of the bits are those that it is made of.
  obtain ⟨minus, hminus⟩ : ∃ minus, signOf minus = Sign.ofBitVec (unpackSign b) := by
    cases Sign.ofBitVec (unpackSign b) with
    | negative => exact ⟨true, rfl⟩
    | positive => exact ⟨false, rfl⟩
  refine ⟨minus, _, _, hscale, hfraction, ?_⟩
  have hbits : UInt64.ofNat (fieldBits minus (unpackExponent b).toNat (unpackMantissa b).toNat) =
      x.toBits := by
    apply UInt64.toBitVec_inj.mp
    rw [toBitVec_fields hscale hfraction, hminus, BitVec.ofNat_toNat, BitVec.ofNat_toNat,
      BitVec.setWidth_eq, BitVec.setWidth_eq]
    exact packComponents_unpackSign_unpackExponent_unpackMantissa b
  rw [ofFields, hbits, Float.ofBits_toBits]

/-- Negation turns the sign around and nothing else. -/
theorem isFinite_neg {x : Float} (h : x.isFinite = true) : (-x).isFinite = true := by
  obtain ⟨minus, scale, fraction, hscale, hfraction, rfl⟩ := exists_ofFields h
  rw [neg_ofFields hscale hfraction]
  exact isFinite_ofFields hscale hfraction _

end SqlTree.Decimal
