/-!
# The fewest digits that name a float

A positive finite float is a binary number `significand * 2 ^ exponent`, and every real of an
interval around it is rounded to it.  `shortest` walks the powers of ten from large to small and
stops at the first whose multiples meet that interval; of two multiples that meet it the nearer one
is taken, and `Tie` says which one when the float lies exactly half way between them.
-/

namespace SqlTree.Decimal

/-- Which of two decimals names a float that lies exactly half way between them. -/
inductive Tie where
  /-- The one whose last digit is even. -/
  | even
  /-- The larger one. -/
  | up
  deriving DecidableEq, Repr

/-- A decimal number `digits * 10 ^ exponent`. -/
structure Number where
  /-- The digits, read as one number. -/
  digits : Nat
  /-- The power of ten of the last digit. -/
  exponent : Int
  deriving DecidableEq, Repr

/-- A positive binary number `significand * 2 ^ exponent` and its neighbourhood. -/
structure Binary where
  /-- The significand, at most fifty-three bits. -/
  significand : Nat
  /-- The power of two of the last bit. -/
  exponent : Int
  /-- Whether the float below is only half as far away as the float above. -/
  narrowBelow : Bool
  deriving DecidableEq, Repr

/-- What a float holds. -/
inductive Content where
  /-- Not a number. -/
  | nan
  /-- An infinity and its sign. -/
  | infinite (negative : Bool)
  /-- A zero and its sign. -/
  | zero (negative : Bool)
  /-- A sign and a positive binary number. -/
  | finite (negative : Bool) (magnitude : Binary)
  deriving DecidableEq, Repr

/-- The weight of the bit in front of the fifty-two that a double stores. -/
def leadingBit : Nat := 0x10000000000000

/-- Reads the sixty-four bits of a double: one sign bit, eleven of exponent, fifty-two of fraction.
-/
def Content.ofBits (bits : Nat) : Content :=
  let negative := (bits >>> 63) % 2 == 1
  let scale : Nat := (bits >>> 52) % 2048
  let fraction : Nat := bits % leadingBit
  if scale = 2047 then
    if fraction = 0 then .infinite negative else .nan
  else if scale = 0 then
    if fraction = 0 then .zero negative else .finite negative ⟨fraction, -1074, false⟩
  else
    .finite negative ⟨fraction + leadingBit, (scale : Int) - 1075, fraction == 0 && 1 < scale⟩

/-- What a float holds. -/
def Content.ofFloat (x : Float) : Content := ofBits x.toBits.toNat

/-- The multiple of `10 ^ k` that is rounded to `b`, if one of the two next to `b` is: the nearer
one when both are.  All comparisons are multiplied out to natural numbers, in quarters of the last
bit of `b`. -/
def multiple? (tie : Tie) (b : Binary) (k : Int) : Option Nat :=
  let scale := Nat.pow 2 (b.exponent - 2).toNat * Nat.pow 10 (-k).toNat
  let unit := Nat.pow 2 (2 - b.exponent).toNat * Nat.pow 10 k.toNat
  let value := 4 * b.significand * scale
  let lower := (4 * b.significand - if b.narrowBelow then 1 else 2) * scale
  let upper := (4 * b.significand + 2) * scale
  let ends := b.significand % 2 == 0
  let below := value / unit
  let above := below + 1
  let takesBelow := lower < below * unit || (ends && lower == below * unit)
  let takesAbove := above * unit < upper || (ends && above * unit == upper)
  match takesBelow, takesAbove with
  | false, false => none
  | true, false => some below
  | false, true => some above
  | true, true =>
    let down := value - below * unit
    let up := above * unit - value
    if down < up then some below
    else if up < down then some above
    else match tie with
      | .even => some (if below % 2 = 0 then below else above)
      | .up => some above

/-- The first multiple found while the power of ten falls from `k`, at most `steps` times. -/
def shortestFrom (tie : Tie) (b : Binary) : (steps : Nat) → (k : Int) → Number
  | 0, k => ⟨0, k⟩
  | steps + 1, k =>
    match multiple? tie b k with
    | some digits => ⟨digits, k⟩
    | none => shortestFrom tie b steps (k - 1)

/-- The decimal of fewest digits that is rounded to `b`.  The search starts at a power of ten above
`b`; seventeen digits always suffice. -/
def shortest (tie : Tie) (b : Binary) : Number :=
  let bits : Int := b.significand.log2 + 1 + b.exponent
  shortestFrom tie b 24 ((bits * 30103).fdiv 100000 + 2)

end SqlTree.Decimal
