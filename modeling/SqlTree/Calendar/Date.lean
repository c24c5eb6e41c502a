import SqlTree.Decimal.Notation
import SqlTree.Decimal.Numeral
import SqlTree.Text.Blank

/-!
# Calendar dates

Days of the proleptic Gregorian calendar.  `Date.text` writes year, month and day with hyphens, and
a sign in front of a year that does not have four digits; `Date.ofText?` reads this and more: blanks
may stand before every number and every hyphen, month and day may have one digit, and a signed year
may have any number of digits.
-/

namespace SqlTree.Calendar

open Decimal (spanDigits digit? ofDigits padded)
open Text (trimStart)

/-- Whether a year has a twenty-ninth of February. -/
def isLeapYear (year : Int) : Bool := year % 4 == 0 && (year % 100 != 0 || year % 400 == 0)

/-- The number of days of a month. -/
def daysIn (year : Int) (month : Nat) : Nat :=
  match month with
  | 2 => if isLeapYear year then 29 else 28
  | 4 | 6 | 9 | 11 => 30
  | _ => 31

/-- Whether year, month and day name a day of the calendar, which spans the years from `-262143` to
`262142`. -/
def isDate (year : Int) (month day : Nat) : Bool :=
  -262143 ≤ year && year ≤ 262142 && 1 ≤ month && month ≤ 12 && 1 ≤ day && day ≤ daysIn year month

/-- A day of the calendar. -/
structure Date where
  /-- The year, counted through zero. -/
  year : Int
  /-- The month, from one. -/
  month : Nat
  /-- The day of the month, from one. -/
  day : Nat
  /-- The three name a day. -/
  valid : isDate year month day = true
  deriving DecidableEq

/-- The date of a year, a month and a day, if they name one. -/
def Date.ofParts? (year : Int) (month day : Nat) : Option Date :=
  if h : isDate year month day = true then some ⟨year, month, day, h⟩ else none

/-- A year: four digits, or a sign and at least four digits. -/
def yearText (year : Int) : List Char :=
  if 0 ≤ year ∧ year ≤ 9999 then padded 4 year.toNat
  else (if year < 0 then '-' else '+') :: padded 4 year.natAbs

/-- A date as year, month and day. -/
def Date.text (d : Date) : List Char :=
  yearText d.year ++ '-' :: padded 2 d.month ++ '-' :: padded 2 d.day

/-! ### Reading -/

/-- A number of one digit at least and of at most `width` digits, and the text after it. -/
def number? (width : Nat) (cs : List Char) : Option (Nat × List Char) :=
  match (spanDigits (cs.take width)).1 with
  | [] => none
  | ds => some (ofDigits ds, cs.drop ds.length)

/-- A number without a sign after blanks. -/
def field? (width : Nat) (cs : List Char) : Option (Nat × List Char) := number? width (trimStart cs)

/-- A year after blanks: at most four digits, or a sign and any number of digits. -/
def year? (cs : List Char) : Option (Int × List Char) :=
  match trimStart cs with
  | '-' :: rest => (number? rest.length rest).map fun (n, tail) => (-(n : Int), tail)
  | '+' :: rest => (number? rest.length rest).map fun (n, tail) => ((n : Int), tail)
  | rest => (number? 4 rest).map fun (n, tail) => ((n : Int), tail)

/-- The text after blanks and a given character. -/
def after? (mark : Char) (cs : List Char) : Option (List Char) :=
  match trimStart cs with
  | c :: rest => if c = mark then some rest else none
  | [] => none

/-- A date at the start of a text, and the text after it. -/
def Date.read? (cs : List Char) : Option (Date × List Char) := do
  let (year, cs) ← year? cs
  let cs ← after? '-' cs
  let (month, cs) ← field? 2 cs
  let cs ← after? '-' cs
  let (day, cs) ← field? 2 cs
  let date ← Date.ofParts? year month day
  return (date, cs)

/-- The date that a text spells. -/
def Date.ofText? (cs : List Char) : Option Date := do
  let (date, rest) ← Date.read? cs
  if trimStart rest = [] then some date else none

end SqlTree.Calendar
