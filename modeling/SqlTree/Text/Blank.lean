/-!
# Blank characters

`isBlank` is the Unicode property White_Space, and `trim` drops blank characters at both ends of a
text, neither of which is blank then (`isBlank_head_trimStart`).
-/

namespace SqlTree.Text

/-- The characters with the property White_Space, by code point. -/
def isBlank (c : Char) : Bool :=
  let n := c.toNat
  (9 ≤ n && n ≤ 13) || n == 0x20 || n == 0x85 || n == 0xa0 || n == 0x1680 ||
    (0x2000 ≤ n && n ≤ 0x200a) || n == 0x2028 || n == 0x2029 || n == 0x202f || n == 0x205f ||
    n == 0x3000

/-- A text without its leading blank characters. -/
def trimStart (cs : List Char) : List Char := cs.dropWhile isBlank

/-- A text without its trailing blank characters. -/
def trimEnd (cs : List Char) : List Char := (cs.reverse.dropWhile isBlank).reverse

/-- A text without the blank characters at its two ends. -/
def trim (cs : List Char) : List Char := trimEnd (trimStart cs)

/-- A string without the blank characters at its two ends. -/
def trimmed (s : String) : String := String.ofList (trim s.toList)

/-- A string of blank characters alone, the empty string included. -/
def isAllBlank (s : String) : Bool := s.toList.all isBlank

/-! ### Small facts -/

theorem isBlank_head_trimStart {c : Char} {cs rest : List Char} (h : trimStart cs = c :: rest) :
    isBlank c = false := by
  induction cs with
  | nil => simp [trimStart] at h
  | cons d ds ih =>
    by_cases hd : isBlank d = true
    · exact ih (by simpa [trimStart, hd] using h)
    · have : d = c := by simp [trimStart, hd] at h; exact h.1
      simpa [← this] using hd

end SqlTree.Text
