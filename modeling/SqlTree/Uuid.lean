import SqlTree.Text.Hex

/-!
# Universally unique identifiers

Thirty-two hexadecimal digits.  `Uuid.text` writes them in lower case in groups of 8, 4, 4, 4 and
12; `Uuid.ofText?` reads digits of either case without hyphens, or with the hyphens of the five
groups, the latter also in braces or after `urn:uuid:` in letters of either case.
-/

namespace SqlTree

/-- An identifier of a hundred and twenty-eight bits. -/
structure Uuid where
  /-- The hexadecimal digits, the most significant first. -/
  digits : List (Fin 16)
  /-- There are thirty-two. -/
  length_digits : digits.length = 32
  deriving DecidableEq

namespace Uuid

open Text.Hex (digitChar digit?)

/-- The lengths of the five groups. -/
def groups : List Nat := [8, 4, 4, 4, 12]

/-- Writes characters in groups with hyphens between them. -/
def hyphenated : (groups : List Nat) → List Char → List Char
  | [], cs => cs
  | [_], cs => cs
  | n :: rest, cs => cs.take n ++ '-' :: hyphenated rest (cs.drop n)

/-- The identifier in its written form. -/
def text (u : Uuid) : List Char := hyphenated groups (u.digits.map digitChar)

/-- The characters of a text in groups with hyphens between them; the last group takes the rest. -/
def withoutHyphens? : (groups : List Nat) → List Char → Option (List Char)
  | [], cs => some cs
  | [_], cs => some cs
  | n :: rest, cs =>
    match cs.drop n with
    | '-' :: tail => (withoutHyphens? rest tail).map (cs.take n ++ ·)
    | _ => none

/-- The identifier of thirty-two digits. -/
def ofDigits? (cs : List Char) : Option Uuid := do
  let ds ← cs.mapM digit?
  if h : ds.length = 32 then some ⟨ds, h⟩ else none

/-- The identifier of digits in hyphenated groups. -/
def ofHyphenated? (cs : List Char) : Option Uuid := do
  ofDigits? (← withoutHyphens? groups cs)

/-- The name space that may stand in front of an identifier. -/
def urnPrefix : List Char := "urn:uuid:".toList

/-- The identifier that a text spells. -/
def ofText? (cs : List Char) : Option Uuid :=
  match cs.length with
  | 32 => ofDigits? cs
  | 36 => ofHyphenated? cs
  | 38 =>
    if cs.head? = some '\x7b' ∧ cs.getLast? = some '\x7d' then ofHyphenated? (cs.drop 1).dropLast
    else none
  | 45 =>
    if (cs.take 9).map Char.toLower = urnPrefix then ofHyphenated? (cs.drop 9) else none
  | _ => none

end Uuid

end SqlTree
