import SqlTree.Calendar.Date

/-!
# Dates with a time of day

A date and a time without a zone, to the nanosecond; the second `60` of a leap second is kept.
`DateTime.text` writes the two with a character of choice between them and a fraction of no, three,
six or nine digits, the fewest that lose nothing.  `DateTime.ofText?` reads a date and a time around
a `T`.
-/

namespace SqlTree.Calendar

open Decimal (spanDigits ofDigits padded)
open Text (trimStart)

/-- Whether hour, minute, second and nanosecond name a time of day. -/
def isTime (hour minute second nanosecond : Nat) : Bool :=
  hour ≤ 23 && minute ≤ 59 && second ≤ 60 && nanosecond < 1_000_000_000

/-- A date and a time of day. -/
structure DateTime where
  /-- The date. -/
  date : Date
  /-- The hour, from zero. -/
  hour : Nat
  /-- The minute. -/
  minute : Nat
  /-- The second; `60` is a leap second. -/
  second : Nat
  /-- The nanoseconds after the second. -/
  nanosecond : Nat
  /-- The four name a time of day. -/
  valid : isTime hour minute second nanosecond = true
  deriving DecidableEq

/-- The date and time of their parts, if hour, minute, second and nanosecond name a time of day. -/
def DateTime.ofParts? (date : Date) (hour minute second nanosecond : Nat) : Option DateTime :=
  if h : isTime hour minute second nanosecond = true then
    some ⟨date, hour, minute, second, nanosecond, h⟩
  else none

/-- A fraction of a second with its point. -/
def fractionText (nanosecond : Nat) : List Char :=
  if nanosecond = 0 then []
  else if nanosecond % 1_000_000 = 0 then '.' :: padded 3 (nanosecond / 1_000_000)
  else if nanosecond % 1_000 = 0 then '.' :: padded 6 (nanosecond / 1_000)
  else '.' :: padded 9 nanosecond

/-- The date, a separator and the time. -/
def DateTime.text (separator : Char) (t : DateTime) : List Char :=
  t.date.text ++ separator :: padded 2 t.hour ++ ':' :: padded 2 t.minute ++
    ':' :: padded 2 t.second ++ fractionText t.nanosecond

/-! ### Reading -/

/-- The nanoseconds of a fraction with its point, if there is one: digits after the ninth do not
count. -/
def fraction? : List Char → Option (Nat × List Char)
  | '.' :: rest =>
    match spanDigits rest with
    | ([], _) => none
    | (ds, tail) =>
      let kept := ds.take 9
      some (ofDigits kept * Nat.pow 10 (9 - kept.length), tail)
  | rest => some (0, rest)

/-- The date and time that a text spells. -/
def DateTime.ofText? (cs : List Char) : Option DateTime := do
  let (date, cs) ← Date.read? cs
  let cs ← after? 'T' cs
  let (hour, cs) ← field? 2 cs
  let cs ← after? ':' cs
  let (minute, cs) ← field? 2 cs
  let cs ← after? ':' cs
  let (second, cs) ← field? 2 cs
  let (nanosecond, cs) ← fraction? cs
  if trimStart cs = [] then DateTime.ofParts? date hour minute second nanosecond else none

end SqlTree.Calendar
