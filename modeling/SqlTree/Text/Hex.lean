/-!
# Hexadecimal digits

`digitChar` writes a digit in lower case, and `digit?` reads one of either case: it undoes
`digitChar` (`digit?_digitChar`).
-/

namespace SqlTree.Text.Hex

/-- The character of a digit, in lower case. -/
def digitChar (d : Fin 16) : Char := Nat.digitChar d

/-- The digit of a character of either case. -/
def digit? (c : Char) : Option (Fin 16) :=
  let n := c.toNat
  if '0'.toNat ≤ n ∧ n ≤ '9'.toNat then some (Fin.ofNat 16 (n - '0'.toNat))
  else if 'a'.toNat ≤ n ∧ n ≤ 'f'.toNat then some (Fin.ofNat 16 (n - 'a'.toNat + 10))
  else if 'A'.toNat ≤ n ∧ n ≤ 'F'.toNat then some (Fin.ofNat 16 (n - 'A'.toNat + 10))
  else none

/-- The two digits of a byte. -/
def byteText (b : UInt8) : List Char :=
  [digitChar (Fin.ofNat 16 (b.toNat / 16)), digitChar (Fin.ofNat 16 b.toNat)]

theorem digit?_digitChar : ∀ d : Fin 16, digit? (digitChar d) = some d := by decide

end SqlTree.Text.Hex
