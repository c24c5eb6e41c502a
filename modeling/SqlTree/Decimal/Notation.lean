import SqlTree.Decimal.Shortest

/-!
# Writing a float

Two notations.  `plain` never uses an exponent and drops an empty fraction; `document` is the
notation of JSON documents, which keeps a fraction of at least one digit and turns to an exponent
below `10⁻⁵` and from `10¹⁶` on.
-/

namespace SqlTree.Decimal

/-- The decimal digits of a number. -/
def digitsOf (n : Nat) : List Char := Nat.toDigits 10 n

/-- A number written with at least `width` digits. -/
def padded (width n : Nat) : List Char :=
  let ds := digitsOf n
  List.replicate (width - ds.length) '0' ++ ds

namespace Number

/-- The power of ten of the first digit. -/
def leading (d : Number) : Int := d.exponent + (digitsOf d.digits).length - 1

/-- The number without an exponent; `fraction` is written after a whole number. -/
def positional (d : Number) (fraction : List Char) : List Char :=
  let ds := digitsOf d.digits
  if 0 ≤ d.exponent then
    ds ++ List.replicate d.exponent.toNat '0' ++ fraction
  else
    let places := (-d.exponent).toNat
    if places < ds.length then
      ds.take (ds.length - places) ++ ['.'] ++ ds.drop (ds.length - places)
    else
      ['0', '.'] ++ List.replicate (places - ds.length) '0' ++ ds

/-- The number with one digit before the point and a signed exponent. -/
def scientific (d : Number) : List Char :=
  let power := d.leading
  let mark := if power < 0 then ['e', '-'] else ['e', '+']
  let mantissa := match digitsOf d.digits with
    | first :: second :: rest => first :: '.' :: second :: rest
    | short => short
  mantissa ++ mark ++ digitsOf power.natAbs

end Number

/-- The text of a sign. -/
def sign (negative : Bool) : List Char := if negative then ['-'] else []

/-- A float without an exponent, whole numbers without a point. -/
def plain (x : Float) : List Char :=
  match Content.ofFloat x with
  | .nan => "NaN".toList
  | .infinite negative => sign negative ++ "inf".toList
  | .zero negative => sign negative ++ ['0']
  | .finite negative b => sign negative ++ (shortest .up b).positional []

/-- A float as JSON documents write it: `none` for a float that no JSON number denotes. -/
def document? (x : Float) : Option (List Char) :=
  match Content.ofFloat x with
  | .nan | .infinite _ => none
  | .zero negative => some (sign negative ++ "0.0".toList)
  | .finite negative b =>
    let d := shortest .even b
    let body := if -5 ≤ d.leading ∧ d.leading < 16 then d.positional ['.', '0'] else d.scientific
    some (sign negative ++ body)

end SqlTree.Decimal
