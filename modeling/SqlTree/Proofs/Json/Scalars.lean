import SqlTree.Json.Printer
import SqlTree.Json.Reader
import SqlTree.Proofs.Decimal.Notation

/-!
# Numbers and strings of JSON documents

What is written of a number or of a string is read back in front of any text that may follow it
(`numeral?_text`, `stringUnits?_flatMap_escaped`).

Numbers are read back exactly: `ofExact` takes a whole number of at most sixty-four bits as it is,
and any other number as the float nearest to it.  It is what the grammar is read with here, and says
which document a text stands for without any arithmetic of floats.
-/

namespace SqlTree.Json

open Decimal (Numeral Spelling spanDigits ofDigits digitsOf values)

/-! ### Numbers -/

/-- The document that a number is, with the nearest float in place of one that is no whole number of
at most sixty-four bits. -/
def ofExact (n : Numeral) : Json :=
  match n.toInt? with
  | some i => .int i
  | none => .float n.nearest

/-- What may follow a number: nothing, or a character that cannot belong to it. -/
def EndsNumber (rest : List Char) : Prop :=
  ∀ c ∈ rest.head?, c.isDigit = false ∧ c ≠ '.' ∧ c ≠ 'e' ∧ c ≠ 'E'

section Numbers

variable {w : Spelling} {rest : List Char}

/-- The digits in front of the point are read up to the first other character, unless they start
with a needless zero. -/
theorem integerPart?_append {cs : List Char} (hdigits : ∀ c ∈ cs, c.isDigit = true)
    (hne : cs ≠ []) (hleading : cs.head? = some '0' → cs.length = 1)
    (hrest : ∀ c ∈ rest.head?, c.isDigit = false) :
    integerPart? (cs ++ rest) = some (values cs, rest) := by
  rw [integerPart?, Decimal.spanDigits_append hdigits hrest]
  split
  · next h => exact absurd (List.map_eq_nil_iff.mp (Prod.mk.inj h).1) hne
  · next h =>
    -- A zero in front of other digits.
    obtain ⟨c, tail, rfl, hzero, htail⟩ := List.map_eq_cons_iff.mp (Prod.mk.inj h).1
    have hc : c = '0' := by
      have hdigit := hdigits c List.mem_cons_self
      rw [Char.isDigit, Bool.and_eq_true, decide_eq_true_eq, decide_eq_true_eq] at hdigit
      have hle : '0'.toNat ≤ c.toNat := hdigit.1
      exact Char.toNat_inj.mp (by omega)
    have hlength := hleading (congrArg some hc)
    rw [List.length_cons, ← List.length_map (f := fun c : Char => c.toNat - '0'.toNat), htail]
      at hlength
    cases hlength
  · next h =>
    obtain ⟨rfl, rfl⟩ := Prod.mk.inj h
    rfl

/-- A point is read with the digits behind it; without one there are none. -/
theorem fractionPart?_append {cs : List Char} (hdigits : ∀ c ∈ cs, c.isDigit = true)
    (hrest : ∀ c ∈ rest.head?, c.isDigit = false ∧ c ≠ '.') :
    fractionPart? ((if cs = [] then [] else '.' :: cs) ++ rest) = some (values cs, rest) := by
  -- Without digits there is no point either.
  by_cases hcs : cs = []
  · subst hcs
    rw [if_pos rfl, List.nil_append]
    cases rest with
    | nil => rfl
    | cons c rest =>
      rw [fractionPart?]
      · rfl
      · rintro tail heq
        exact (hrest c rfl).2 (List.cons.inj heq).1
  · rw [if_neg hcs, List.cons_append, fractionPart?,
      Decimal.spanDigits_append hdigits fun c hc => (hrest c hc).1]
    split
    · next h => exact absurd (List.map_eq_nil_iff.mp (Prod.mk.inj h).1) hcs
    · next h =>
      obtain ⟨rfl, rfl⟩ := Prod.mk.inj h
      rfl

/-- An exponent takes its sign from what has been read in front of it. -/
theorem exponentDigits?_append (minus : Bool) (n : Nat)
    (hrest : ∀ c ∈ rest.head?, c.isDigit = false) :
    exponentDigits? minus (digitsOf n ++ rest) = some (if minus then -(n : Int) else n, rest) := by
  rw [exponentDigits?, Decimal.spanDigits_append (fun c => Decimal.isDigit_of_mem_digitsOf) hrest]
  split
  · next h =>
    exact absurd (List.map_eq_nil_iff.mp (Prod.mk.inj h).1) (Decimal.digitsOf_ne_nil n)
  · next h =>
    obtain ⟨rfl, rfl⟩ := Prod.mk.inj h
    rw [Decimal.ofDigits_digitsOf]

/-- An exponent is read back if there is one, and otherwise the rest starts with none. -/
theorem exponentPart?_append (exponent : Option Int) (hrest : EndsNumber rest) :
    exponentPart? (Spelling.exponentText exponent ++ rest) = some (exponent, rest) := by
  have hdigit : ∀ c ∈ rest.head?, c.isDigit = false := fun c hc => (hrest c hc).1
  cases exponent with
  | none =>
    cases rest with
    | nil => rfl
    | cons c rest =>
      obtain ⟨-, -, hlower, hupper⟩ := hrest c rfl
      exact if_neg fun h => h.elim hlower hupper
  | some power =>
    rw [Spelling.exponentText]
    -- The sign of an exponent is a character of its own, and may be left out if it is a plus.
    by_cases hpower : power < 0
    · have hread := exponentDigits?_append true power.natAbs hdigit
      rw [if_pos hpower]
      show (exponentDigits? true (digitsOf power.natAbs ++ rest)).map _ = _
      rw [hread]
      simp only [Option.map_some, if_true]
      rw [← Int.eq_neg_natAbs_of_nonpos hpower.le]
    · have hread := exponentDigits?_append false power.natAbs hdigit
      rw [if_neg hpower]
      show (exponentDigits? false (digitsOf power.natAbs ++ rest)).map _ = _
      rw [hread]
      simp only [Option.map_some, Bool.false_eq_true, if_false]
      rw [Int.natAbs_of_nonneg (not_lt.mp hpower)]

/-- A number is read back in front of what may follow it. -/
theorem numeral?_text (hw : w.Proper) (hrest : EndsNumber rest) :
    numeral? (w.text ++ rest) = some (w.numeral, rest) := by
  have hexponent := exponentPart?_append w.exponent hrest
  -- Neither the exponent nor what follows the number goes on with the digits in front of it.
  have hmark : ∀ c ∈ (Spelling.exponentText w.exponent ++ rest).head?,
      c.isDigit = false ∧ c ≠ '.' := by
    cases w.exponent with
    | none => exact fun c hc => ⟨(hrest c hc).1, (hrest c hc).2.1⟩
    | some power =>
      rw [Spelling.exponentText]
      rintro c hc
      have hc' : c = 'e' := by
        split at hc
        · exact (Option.some.inj hc).symm
        · exact (Option.some.inj hc).symm
      rw [hc']
      decide
  have hfraction := fractionPart?_append hw.fraction hmark
  have hpoint : ∀ c ∈ ((if w.fraction = [] then [] else '.' :: w.fraction) ++
      (Spelling.exponentText w.exponent ++ rest)).head?, c.isDigit = false := by
    split
    · exact fun c hc => (hmark c hc).1
    · intro c hc
      rw [← Option.some.inj hc]
      rfl
  have hinteger := integerPart?_append hw.integer hw.nonempty hw.leading hpoint
  have htext : w.text ++ rest = Decimal.sign w.negative ++ (w.integer ++
      ((if w.fraction = [] then [] else '.' :: w.fraction) ++
        (Spelling.exponentText w.exponent ++ rest))) := by
    simp only [Spelling.text, List.append_assoc]
  have hparts (minus : Bool) :
      ((integerPart? (w.integer ++ ((if w.fraction = [] then [] else '.' :: w.fraction) ++
        (Spelling.exponentText w.exponent ++ rest)))).bind fun integer =>
          (fractionPart? integer.2).bind fun fraction =>
            (exponentPart? fraction.2).bind fun exponent =>
              some ((⟨minus, integer.1, fraction.1, exponent.1⟩ : Numeral), exponent.2)) =
        some (⟨minus, values w.integer, values w.fraction, w.exponent⟩, rest) := by
    rw [hinteger, Option.bind_some, hfraction, Option.bind_some, hexponent, Option.bind_some]
  rw [htext, Spelling.numeral]
  cases hminus : w.negative with
  | true => exact hparts true
  | false =>
    obtain ⟨c, cs, hcs⟩ := List.exists_cons_of_ne_nil hw.nonempty
    have hc : c ≠ '-' := by
      rintro rfl
      have hdigit := hw.integer '-' (hcs ▸ List.mem_cons_self)
      cases hdigit
    rw [hcs] at hparts ⊢
    unfold numeral?
    split
    · next heq =>
      split at heq
      · next hminus => exact absurd (List.cons.inj hminus).1 hc
      · obtain ⟨rfl, rfl⟩ := Prod.mk.inj heq
        exact hparts false

/-- The spelling of a whole number. -/
def wholeSpelling (n : Int) : Spelling := ⟨decide (n < 0), digitsOf n.natAbs, [], none⟩

theorem proper_wholeSpelling (n : Int) : (wholeSpelling n).Proper := by
  refine ⟨fun c => Decimal.isDigit_of_mem_digitsOf, fun c hc => absurd hc List.not_mem_nil,
    Decimal.digitsOf_ne_nil _, fun hzero => ?_⟩
  rcases Nat.eq_zero_or_pos n.natAbs with h | h
  · show (digitsOf n.natAbs).length = 1
    rw [h]
    rfl
  · exact absurd hzero (Decimal.head?_digitsOf h)

/-- A whole number is shown as the spelling without a fraction or an exponent. -/
theorem toList_toString_int (n : Int) : (toString n).toList = (wholeSpelling n).text := by
  -- Only numbers below zero have a sign.
  cases n with
  | ofNat n =>
    have hsign : decide (Int.ofNat n < 0) = false := by
      rw [decide_eq_false_iff_not]
      exact not_lt.mpr (Int.natCast_nonneg n)
    show (String.ofList (digitsOf n)).toList = _
    rw [Spelling.text, wholeSpelling, hsign, String.toList_ofList]
    simp [Spelling.exponentText, Decimal.sign]
  | negSucc n =>
    show ("-" ++ String.ofList (digitsOf (n + 1))).toList = _
    rw [String.toList_append, String.toList_ofList, Spelling.text, wholeSpelling]
    simp [Spelling.exponentText, Decimal.sign]

/-- Sixty-four bits hold the number, with a sign or without. -/
theorem toInt?_wholeSpelling {n : Int} (hlow : -0x8000000000000000 ≤ n)
    (hhigh : n < 0x10000000000000000) : (wholeSpelling n).numeral.toInt? = some n := by
  have hsize : UInt64.size = 0x10000000000000000 := rfl
  rw [Numeral.toInt?, wholeSpelling, Spelling.numeral]
  dsimp only
  rw [if_pos ⟨rfl, rfl⟩, Decimal.ofDigits_digitsOf]
  by_cases hn : n < 0
  · rw [if_pos (decide_eq_true hn), if_pos (by omega)]
    congr 1
    omega
  · rw [if_neg (by simpa using hn), if_pos (by omega)]
    congr 1
    omega

/-- A whole number of at most sixty-four bits is read back. -/
theorem exists_numeral?_int {n : Int} (hlow : -0x8000000000000000 ≤ n)
    (hhigh : n < 0x10000000000000000) (hrest : EndsNumber rest) :
    ∃ m, numeral? ((scalarText (.int n)).toList ++ rest) = some (m, rest) ∧ ofExact m = .int n := by
  refine ⟨(wholeSpelling n).numeral, ?_, ?_⟩
  · show numeral? ((toString n).toList ++ rest) = _
    rw [toList_toString_int]
    exact numeral?_text (proper_wholeSpelling n) hrest
  · rw [ofExact, toInt?_wholeSpelling hlow hhigh]

/-- A float is read back. -/
theorem exists_numeral?_float {x : Float} (hx : x.isFinite = true) (hrest : EndsNumber rest) :
    ∃ m, numeral? ((scalarText (.float x)).toList ++ rest) = some (m, rest) ∧
      ofExact m = .float x := by
  obtain ⟨w, hw, hbroken, htext, hnearest⟩ := Decimal.exists_spelling hx
  refine ⟨w.numeral, ?_, ?_⟩
  · rw [scalarText, floatText, htext, String.toList_ofList]
    exact numeral?_text hw hrest
  · have hnone : w.numeral.toInt? = none := by
      refine if_neg fun h => ?_
      rcases hbroken with hfraction | hexponent
      · exact hfraction (List.map_eq_nil_iff.mp h.1)
      · exact hexponent h.2
    rw [ofExact, hnone, hnearest]

end Numbers

/-! ### Strings -/

section Strings

variable {rest tail : List Char} {units : List Nat}

/-- A backslash and a letter stand for one character. -/
theorem stringUnits?_letter (letter : Char) {c : Char} (hletter : letter ≠ 'u')
    (hc : escape? letter = some c) (h : stringUnits? rest = some (units, tail)) :
    stringUnits? ('\\' :: letter :: rest) = some (c.toNat :: units, tail) := by
  rw [stringUnits?, hc, h]
  · rfl
  · intro a b c d rest' heq
    exact absurd heq hletter

/-- Other characters stand for themselves. -/
theorem stringUnits?_plain {c : Char} (hquote : c ≠ '"') (hbackslash : c ≠ '\\')
    (hcontrol : ¬c.toNat < 0x20) (h : stringUnits? rest = some (units, tail)) :
    stringUnits? (c :: rest) = some (c.toNat :: units, tail) := by
  rw [stringUnits?, if_neg hcontrol, h]
  · rfl
  · exact hquote
  · intro a b c d rest' heq
    exact absurd heq hbackslash
  · intro letter rest' heq
    exact absurd heq hbackslash

/-- The four digits of a control character. -/
theorem hexQuad?_control : ∀ n < 0x20,
    hexQuad? '0' '0' (Text.Hex.digitChar (Fin.ofNat 16 (n.toUInt8.toNat / 16)))
      (Text.Hex.digitChar (Fin.ofNat 16 n.toUInt8.toNat)) = some n := by
  decide

/-- A character that is written as it is or escaped is one unit when it is read. -/
theorem stringUnits?_escaped (c : Char) (h : stringUnits? rest = some (units, tail)) :
    stringUnits? (escaped c ++ rest) = some (c.toNat :: units, tail) := by
  unfold escaped
  split
  · next hc => exact hc ▸ stringUnits?_letter '"' (by decide) rfl h
  split
  · next hc => exact hc ▸ stringUnits?_letter '\\' (by decide) rfl h
  split
  · next hc => exact hc ▸ stringUnits?_letter 'b' (by decide) rfl h
  split
  · next hc => exact hc ▸ stringUnits?_letter 'f' (by decide) rfl h
  split
  · next hc => exact hc ▸ stringUnits?_letter 'n' (by decide) rfl h
  split
  · next hc => exact hc ▸ stringUnits?_letter 'r' (by decide) rfl h
  split
  · next hc => exact hc ▸ stringUnits?_letter 't' (by decide) rfl h
  split
  · next hcontrol =>
    show stringUnits? ('\\' :: 'u' :: '0' :: '0' :: _ :: _ :: rest) = _
    rw [stringUnits?, hexQuad?_control c.toNat hcontrol, h]
    rfl
  · next hquote hbackslash _ _ _ _ _ hcontrol =>
    exact stringUnits?_plain hquote hbackslash hcontrol h

/-- A string is read back up to its closing quote. -/
theorem stringUnits?_flatMap_escaped (cs rest : List Char) :
    stringUnits? (cs.flatMap escaped ++ '"' :: rest) = some (cs.map Char.toNat, rest) := by
  induction cs with
  | nil => rfl
  | cons c cs ih =>
    rw [List.flatMap_cons, List.append_assoc]
    exact stringUnits?_escaped c ih

end Strings

/-- No character is a surrogate, so that the units of a string are its characters. -/
theorem charsOfUnits?_map_toNat (cs : List Char) : charsOfUnits? (cs.map Char.toNat) = some cs := by
  have hunit (c : Char) : isHighSurrogate c.toNat = false ∧ isLowSurrogate c.toNat = false := by
    have hvalid : c.toNat < 0xd800 ∨ 0xdfff < c.toNat ∧ c.toNat < 0x110000 := c.valid
    simp only [isHighSurrogate, isLowSurrogate, Bool.and_eq_false_iff, decide_eq_false_iff_not]
    omega
  induction cs with
  | nil => rfl
  | cons c cs ih =>
    obtain ⟨hhigh, hlow⟩ := hunit c
    cases cs with
    | nil =>
      show charsOfUnits? [c.toNat] = _
      rw [charsOfUnits?, hhigh, hlow, Char.ofNat_toNat]
      rfl
    | cons d cs =>
      rw [List.map_cons] at ih
      rw [List.map_cons, List.map_cons, charsOfUnits?, hhigh, hlow, Char.ofNat_toNat, ih]
      rfl

end SqlTree.Json
