import SqlTree.Decimal.Shortest

/-!
# Reading numbers

A `Numeral` is a number as it is written.  `Numeral.toInt?` is its value as a whole number of at
most sixty-four bits, and `Numeral.toFloat?` its value as a float: the leading digits that fit
sixty-four bits, scaled by a power of ten in float arithmetic.  `readFloat?` reads the free-standing
spelling of a float, infinities and NaN included, and rounds to the nearest float.
-/

namespace SqlTree.Decimal

/-- A number as it is written. -/
structure Numeral where
  /-- Whether a minus sign stands in front. -/
  negative : Bool
  /-- The digits before the point. -/
  integer : List Nat
  /-- The digits after the point. -/
  fraction : List Nat
  /-- The power of ten after the exponent mark, if there is one. -/
  exponent : Option Int
  deriving DecidableEq, Repr

/-- The value of a digit. -/
def digit? (c : Char) : Option Nat :=
  if '0' ≤ c ∧ c ≤ '9' then some (c.toNat - '0'.toNat) else none

/-- The digits at the start of a text and the text after them. -/
def spanDigits : List Char → List Nat × List Char
  | [] => ([], [])
  | c :: rest =>
    match digit? c with
    | some d => let (ds, tail) := spanDigits rest; (d :: ds, tail)
    | none => ([], c :: rest)

/-- The number that a list of digits spells. -/
def ofDigits (ds : List Nat) : Nat := ds.foldl (fun n d => 10 * n + d) 0

/-! ### Rounding -/

/-- A quotient rounded to the nearest whole number, a half to the even one. -/
def roundedQuotient (numerator denominator : Nat) : Nat :=
  let quotient := numerator / denominator
  let rest := 2 * (numerator % denominator)
  if rest < denominator then quotient
  else if denominator < rest then quotient + 1
  else quotient + quotient % 2

/-- The bits of the float nearest to a positive fraction.  The last bit of the significand weighs
`2 ^ last`, so that there are fifty-three bits or the weight is the least one; a significand that is
rounded up to fifty-four bits carries into the exponent. -/
def nearestBits (numerator denominator : Nat) : Nat :=
  let guess : Int := (numerator.log2 : Int) - denominator.log2
  let leading :=
    if denominator * Nat.pow 2 guess.toNat ≤ numerator * Nat.pow 2 (-guess).toNat then guess
    else guess - 1
  let last := max (leading - 52) (-1074)
  let significand :=
    roundedQuotient (numerator * Nat.pow 2 (-last).toNat) (denominator * Nat.pow 2 last.toNat)
  min ((last + 1074).toNat * leadingBit + significand) (2047 * leadingBit)

/-- The float nearest to `significand * 10 ^ power`. -/
def nearest (significand : Nat) (power : Int) : Float :=
  if significand = 0 then 0.0
  else
    let top : Int := (Nat.toDigits 10 significand).length + power
    if 310 < top then 1.0 / 0.0
    else if top < -330 then 0.0
    else
      let bits := nearestBits (significand * Nat.pow 10 power.toNat) (Nat.pow 10 (-power).toNat)
      Float.ofBits (UInt64.ofNat bits)

namespace Numeral

/-- The value of a whole number that fits sixty-four bits, signed or unsigned.  A negative zero is
no whole number. -/
def toInt? (n : Numeral) : Option Int :=
  if n.fraction = [] ∧ n.exponent = none then
    let magnitude := ofDigits n.integer
    if n.negative then
      if magnitude ≠ 0 ∧ magnitude ≤ 0x8000000000000000 then some (-(magnitude : Int)) else none
    else if magnitude < UInt64.size then some magnitude else none
  else none

/-- Appends digits to a significand as long as it fits sixty-four bits; the digits left over. -/
def absorb (significand : Nat) : List Nat → Nat × List Nat
  | [] => (significand, [])
  | d :: ds =>
    if 10 * significand + d < UInt64.size then absorb (10 * significand + d) ds
    else (significand, d :: ds)

/-- Ten to a small power, as a float. -/
def powerOfTen (n : Nat) : Float := nearest 1 n

/-- Scales a float by a power of ten, in steps of at most `10 ^ 308`; `none` when the result is too
large for a float.  Two steps down reach zero from any significand, so that few `steps` are needed.
-/
def scale : (steps : Nat) → Float → Int → Option Float
  | 0, x, _ => some x
  | steps + 1, x, power =>
    if power.natAbs ≤ 308 then
      if 0 ≤ power then
        let y := x * powerOfTen power.toNat
        if y.isInf then none else some y
      else some (x / powerOfTen power.natAbs)
    else if x == 0.0 then some x
    else if 0 ≤ power then none
    else scale steps (x / powerOfTen 308) (power + 308)

/-- The value as a float; `none` when it is too large for one. -/
def toFloat? (n : Numeral) : Option Float :=
  let (whole, dropped) := absorb 0 n.integer
  let (significand, ignored) := absorb whole n.fraction
  let kept := n.fraction.length - ignored.length
  let power := (dropped.length : Int) - kept + n.exponent.getD 0
  (scale 4 significand.toUInt64.toFloat power).map fun x => if n.negative then -x else x

end Numeral

/-! ### Free-standing floats -/

/-- The power of ten after an exponent mark, to the end of the text. -/
def exponent? : List Char → Option Int
  | '-' :: rest => magnitude rest |>.map fun n => -(n : Int)
  | '+' :: rest => magnitude rest |>.map fun n => (n : Int)
  | rest => magnitude rest |>.map fun n => (n : Int)
where
  /-- A number of at least one digit, to the end of the text. -/
  magnitude (cs : List Char) : Option Nat :=
    match spanDigits cs with
    | ([], _) => none
    | (ds, []) => some (ofDigits ds)
    | (_, _ :: _) => none

/-- An unsigned float: a name, or digits with an optional point and exponent. -/
def readMagnitude? (cs : List Char) : Option Float :=
  let name := cs.map Char.toLower
  if name = "inf".toList ∨ name = "infinity".toList then some (1.0 / 0.0)
  else if name = "nan".toList then some (0.0 / 0.0)
  else
    let (integer, afterInteger) := spanDigits cs
    let (fraction, afterFraction) := match afterInteger with
      | '.' :: rest => spanDigits rest
      | rest => ([], rest)
    if integer = [] ∧ fraction = [] then none
    else
      let significand := ofDigits (integer ++ fraction)
      match afterFraction with
      | [] => some (nearest significand (-(fraction.length : Int)))
      | mark :: rest =>
        if mark = 'e' ∨ mark = 'E' then
          (exponent? rest).map fun power => nearest significand (power - fraction.length)
        else none

/-- A float with an optional sign. -/
def readFloat? : List Char → Option Float
  | '-' :: rest => (readMagnitude? rest).map fun x => -x
  | '+' :: rest => readMagnitude? rest
  | rest => readMagnitude? rest

end SqlTree.Decimal
