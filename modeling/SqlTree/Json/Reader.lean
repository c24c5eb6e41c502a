import SqlTree.Decimal.Numeral
import SqlTree.Json.Basic
import SqlTree.Text.Hex

/-!
# Reading JSON documents

`Json.ofText?` is the grammar of JSON documents: no comments, no trailing commas, no byte order
mark, no control characters in strings, no leading zeros.  Nesting is not bounded here, and a part
without a value becomes `Json.unreadable`, so that a reader may still pass over it.  The grammar
says where numbers stand and not what they come to: `Json.textWith?` is given that as a function.
-/

namespace SqlTree.Json

open Decimal (Numeral spanDigits ofDigits)
open Text.Hex (digit?)

/-- The blank characters of JSON documents. -/
def isSpace (c : Char) : Bool := c == ' ' || c == '\t' || c == '\n' || c == '\r'

/-- The text after leading blanks. -/
def skipSpace (cs : List Char) : List Char := cs.dropWhile isSpace

/-! ### Strings -/

/-- The number that four hexadecimal digits spell. -/
def hexQuad? (a b c d : Char) : Option Nat := do
  let a ← digit? a
  let b ← digit? b
  let c ← digit? c
  let d ← digit? d
  return ((a.val * 16 + b) * 16 + c) * 16 + d

/-- The character that an escape of one letter stands for. -/
def escape? : Char → Option Char
  | '"' => some '"'
  | '\\' => some '\\'
  | '/' => some '/'
  | 'b' => some '\x08'
  | 'f' => some '\x0c'
  | 'n' => some '\n'
  | 'r' => some '\r'
  | 't' => some '\t'
  | _ => none

/-- The code units of a string after its opening quote, and the text after its closing quote.  A
character that stands for itself is one unit, whatever its size. -/
def stringUnits? : List Char → Option (List Nat × List Char)
  | '"' :: rest => some ([], rest)
  | '\\' :: 'u' :: a :: b :: c :: d :: rest => do
    let unit ← hexQuad? a b c d
    let (units, tail) ← stringUnits? rest
    return (unit :: units, tail)
  | '\\' :: letter :: rest => do
    let c ← escape? letter
    let (units, tail) ← stringUnits? rest
    return (c.toNat :: units, tail)
  | c :: rest => do
    if c.toNat < 0x20 then none
    let (units, tail) ← stringUnits? rest
    return (c.toNat :: units, tail)
  | [] => none

/-- Whether a code unit is the first of a surrogate pair. -/
def isHighSurrogate (unit : Nat) : Bool := 0xd800 ≤ unit && unit < 0xdc00

/-- Whether a code unit is the second of a surrogate pair. -/
def isLowSurrogate (unit : Nat) : Bool := 0xdc00 ≤ unit && unit < 0xe000

/-- The characters of a list of code units; `none` when a surrogate is not part of a pair. -/
def charsOfUnits? : List Nat → Option (List Char)
  | [] => some []
  | [unit] => if isHighSurrogate unit || isLowSurrogate unit then none else some [Char.ofNat unit]
  | unit :: next :: rest =>
    if isHighSurrogate unit then
      if isLowSurrogate next then
        (charsOfUnits? rest).map
          (Char.ofNat (0x10000 + (unit - 0xd800) * 0x400 + (next - 0xdc00)) :: ·)
      else none
    else if isLowSurrogate unit then none
    else (charsOfUnits? (next :: rest)).map (Char.ofNat unit :: ·)

/-! ### Numbers -/

/-- The digits of a number before its point: a zero alone, or digits that start with another one. -/
def integerPart? (cs : List Char) : Option (List Nat × List Char) :=
  match spanDigits cs with
  | ([], _) => none
  | (0 :: _ :: _, _) => none
  | (ds, rest) => some (ds, rest)

/-- The digits after a point, if there is one. -/
def fractionPart? : List Char → Option (List Nat × List Char)
  | '.' :: rest =>
    match spanDigits rest with
    | ([], _) => none
    | (ds, tail) => some (ds, tail)
  | rest => some ([], rest)

/-- The signed number after an exponent mark. -/
def exponentDigits? (negative : Bool) (cs : List Char) : Option (Int × List Char) :=
  match spanDigits cs with
  | ([], _) => none
  | (ds, tail) => some (if negative then -(ofDigits ds : Int) else ofDigits ds, tail)

/-- The exponent of a number, if there is one. -/
def exponentPart? : List Char → Option (Option Int × List Char)
  | c :: rest =>
    if c = 'e' ∨ c = 'E' then
      (match rest with
        | '-' :: tail => exponentDigits? true tail
        | '+' :: tail => exponentDigits? false tail
        | tail => exponentDigits? false tail).map fun (power, tail) => (some power, tail)
    else some (none, c :: rest)
  | [] => some (none, [])

/-- A number and the text after it. -/
def numeral? (cs : List Char) : Option (Numeral × List Char) := do
  let (negative, cs) := match cs with
    | '-' :: rest => (true, rest)
    | rest => (false, rest)
  let (integer, cs) ← integerPart? cs
  let (fraction, cs) ← fractionPart? cs
  let (exponent, cs) ← exponentPart? cs
  return (⟨negative, integer, fraction, exponent⟩, cs)

/-- The document that a number is. -/
def ofNumeral (n : Numeral) : Json :=
  match n.toInt? with
  | some i => .int i
  | none =>
    match n.toFloat? with
    | some x => .float x
    | none => .unreadable

/-! ### Documents -/

/-- The text after a word, if it starts with it. -/
def afterWord? : (word : List Char) → List Char → Option (List Char)
  | [], cs => some cs
  | w :: word, c :: cs => if w = c then afterWord? word cs else none
  | _ :: _, [] => none

section Grammar

variable (number : Numeral → Json)

mutual

/-- A document and the text after it; `fuel` bounds the length of the text. -/
def read? : (fuel : Nat) → List Char → Option (Json × List Char)
  | 0, _ => none
  | fuel + 1, cs =>
    match skipSpace cs with
    | '\x7b' :: rest =>
      match skipSpace rest with
      | '\x7d' :: tail => some (.object [], tail)
      | _ => do
        let (members, tail) ← readMembers? fuel rest
        match members.mapM (fun (key, value) => key.map fun key => (key, value)) with
        | some members => return (.object members, tail)
        | none => return (.unreadable, tail)
    | '[' :: rest =>
      match skipSpace rest with
      | ']' :: tail => some (.array [], tail)
      | _ => do
        let (items, tail) ← readItems? fuel rest
        return (.array items, tail)
    | '"' :: rest => do
      let (units, tail) ← stringUnits? rest
      match charsOfUnits? units with
      | some cs => return (.string (String.ofList cs), tail)
      | none => return (.unreadable, tail)
    | 'n' :: rest => (afterWord? "ull".toList rest).map fun tail => (.null, tail)
    | 't' :: rest => (afterWord? "rue".toList rest).map fun tail => (.bool true, tail)
    | 'f' :: rest => (afterWord? "alse".toList rest).map fun tail => (.bool false, tail)
    | rest => (numeral? rest).map fun (n, tail) => (number n, tail)

/-- The items of an array that is not empty, up to its closing bracket. -/
def readItems? : (fuel : Nat) → List Char → Option (List Json × List Char)
  | 0, _ => none
  | fuel + 1, cs => do
    let (item, rest) ← read? fuel cs
    match skipSpace rest with
    | ',' :: rest =>
      let (items, tail) ← readItems? fuel rest
      return (item :: items, tail)
    | ']' :: tail => return ([item], tail)
    | _ => none

/-- The members of an object that is not empty, up to its closing brace.  A key without a value as a
string is `none`. -/
def readMembers? : (fuel : Nat) → List Char → Option (List (Option String × Json) × List Char)
  | 0, _ => none
  | fuel + 1, cs =>
    match skipSpace cs with
    | '"' :: rest => do
      let (units, rest) ← stringUnits? rest
      let key := (charsOfUnits? units).map String.ofList
      match skipSpace rest with
      | ':' :: rest =>
        let (value, rest) ← read? fuel rest
        match skipSpace rest with
        | ',' :: rest =>
          let (members, tail) ← readMembers? fuel rest
          return ((key, value) :: members, tail)
        | '\x7d' :: tail => return ([(key, value)], tail)
        | _ => none
      | _ => none
    | _ => none

end

/-- The document that a text spells, for a reader of numbers; nothing but blanks may follow it. -/
def textWith? (text : String) : Option Json :=
  let cs := text.toList
  match read? number (2 * cs.length + 2) cs with
  | some (j, rest) => if skipSpace rest = [] then some j else none
  | none => none

end Grammar

/-- The document that a text spells. -/
def ofText? (text : String) : Option Json := textWith? ofNumeral text

/-- The free-form document that a text spells: every part has a value, nesting is bounded, and
members are sorted by key. -/
def ofFreeText? (text : String) : Option Json := do
  let j ← ofText? text
  if j.admissible textLevels then some j.canonical else none

end SqlTree.Json
