import SqlTree.Calendar.DateTime
import SqlTree.Proofs.Decimal.Digits
import SqlTree.Proofs.Text.Solid
import SqlTree.Proofs.Text.Trim

/-!
# Dates and times read back as themselves

Main statements, `Date.ofText?_text` and `DateTime.ofText?_text`.

A number is written with at least as many digits as its place asks for, and read with at most that
many; so a number that fits its place is read up to its end, whatever follows
(`number?_padded`).  What stands between numbers is neither blank nor a digit.
-/

namespace SqlTree.Calendar

open Decimal
open Text (trimStart)

/-! ### Numbers in their places -/

/-- A number is read up to its end if it fits its place, or if what follows is no digit. -/
theorem number?_append {width : Nat} {cs rest : List Char} (hcs : ∀ c ∈ cs, c.isDigit = true)
    (hne : cs ≠ []) (hlength : cs.length ≤ width)
    (hrest : ∀ c ∈ (rest.take (width - cs.length)).head?, c.isDigit = false) :
    number? width (cs ++ rest) = some (ofDigits (values cs), rest) := by
  have htake : (cs ++ rest).take width = cs ++ rest.take (width - cs.length) := by
    rw [List.take_append, List.take_of_length_le hlength]
  have hvalues : ∃ d ds, values cs = d :: ds := by
    obtain ⟨c, tail, rfl⟩ := List.exists_cons_of_ne_nil hne
    exact ⟨_, _, rfl⟩
  obtain ⟨d, ds, hds⟩ := hvalues
  -- What is read is as long as the digits, and so the rest is what stands behind them.
  have hdrop : (cs ++ rest).drop (values cs).length = rest := by
    rw [values, List.length_map, List.drop_left]
  rw [number?, htake, spanDigits_append hcs hrest, hds]
  rw [hds] at hdrop
  exact congrArg (fun tail => some (ofDigits (d :: ds), tail)) hdrop

/-- A number that has been filled up to a width is read back with that width. -/
theorem number?_padded {width n : Nat} (hwidth : 0 < width) (h : n < Nat.pow 10 width)
    (rest : List Char) : number? width (padded width n ++ rest) = some (n, rest) := by
  have hlength : (padded width n).length = width := length_padded hwidth h
  rw [number?_append (fun c hc => isDigit_of_mem_padded hc) (padded_ne_nil width n)
    (Nat.le_of_eq hlength), ofDigits_padded]
  rw [hlength, Nat.sub_self]
  exact fun c hc => by cases hc

/-- A padded number starts with a digit, so no blank is skipped in front of it. -/
theorem trimStart_padded (width n : Nat) (rest : List Char) :
    trimStart (padded width n ++ rest) = padded width n ++ rest := by
  obtain ⟨c, tail, hc, hdigit⟩ := exists_padded width n
  refine Text.trimStart_of_head fun x hx => ?_
  rw [hc] at hx
  cases hx
  exact Text.isBlank_eq_false_of_isDigit hdigit

/-- Months, days, hours, minutes and seconds take two digits. -/
theorem field?_padded {n : Nat} (h : n < 100) (rest : List Char) :
    field? 2 (padded 2 n ++ rest) = some (n, rest) := by
  rw [field?, trimStart_padded, number?_padded (by decide) h]

theorem after?_self {mark : Char} (hmark : Text.isBlank mark = false) (rest : List Char) :
    after? mark (mark :: rest) = some rest := by
  have htrim : trimStart (mark :: rest) = mark :: rest :=
    Text.trimStart_of_head fun c hc => by cases hc; exact hmark
  rw [after?, htrim]
  exact if_pos rfl

/-! ### Dates -/

/-- A year is read up to the hyphen behind it. -/
theorem year?_yearText (year : Int) (rest : List Char) :
    year? (yearText year ++ '-' :: rest) = some (year, '-' :: rest) := by
  unfold yearText
  split
  · next hrange =>
    -- Four digits without a sign.
    obtain ⟨c, tail, hc, hdigit⟩ := exists_padded 4 year.toNat
    have hnumber : number? 4 (padded 4 year.toNat ++ '-' :: rest) =
        some (year.toNat, '-' :: rest) :=
      number?_padded (by decide) (show year.toNat < 10000 by omega) _
    have hyear : (year.toNat : Int) = year := Int.toNat_of_nonneg hrange.1
    rw [year?, trimStart_padded]
    rw [hc, List.cons_append] at hnumber ⊢
    split
    · next heq =>
      obtain ⟨rfl, -⟩ := List.cons.inj heq
      exact absurd hdigit (by decide)
    · next heq =>
      obtain ⟨rfl, -⟩ := List.cons.inj heq
      exact absurd hdigit (by decide)
    · rw [hnumber]
      exact congrArg (fun n => some (n, _)) hyear
  · next hrange =>
    have hnumber : number? (padded 4 year.natAbs ++ '-' :: rest).length
        (padded 4 year.natAbs ++ '-' :: rest) = some (year.natAbs, '-' :: rest) := by
      rw [number?_append (fun c hc => isDigit_of_mem_padded hc) (padded_ne_nil 4 year.natAbs),
        ofDigits_padded]
      · rw [List.length_append]
        omega
      · intro c hc
        rw [List.length_append, Nat.add_sub_cancel_left, List.take_length] at hc
        cases hc
        decide
    split
    · next hnegative =>
      have hyear : -(year.natAbs : Int) = year := by omega
      have htrim : trimStart ('-' :: (padded 4 year.natAbs ++ '-' :: rest)) =
          '-' :: (padded 4 year.natAbs ++ '-' :: rest) :=
        Text.trimStart_of_head fun c hc => by cases hc; decide
      rw [year?, List.cons_append, htrim]
      show (number? _ _).map _ = _
      rw [hnumber]
      exact congrArg (fun n => some (n, _)) hyear
    · next hnegative =>
      have hyear : (year.natAbs : Int) = year := by omega
      have htrim : trimStart ('+' :: (padded 4 year.natAbs ++ '-' :: rest)) =
          '+' :: (padded 4 year.natAbs ++ '-' :: rest) :=
        Text.trimStart_of_head fun c hc => by cases hc; decide
      rw [year?, List.cons_append, htrim]
      show (number? _ _).map _ = _
      rw [hnumber]
      exact congrArg (fun n => some (n, _)) hyear

/-- Month and day have at most two digits. -/
theorem Date.lt_hundred (d : Date) : d.month < 100 ∧ d.day < 100 := by
  have hdays : daysIn d.year d.month ≤ 31 := by
    unfold daysIn
    split
    · split <;> decide
    · decide
    · decide
    · decide
    · decide
    · decide
  have hvalid := d.valid
  simp only [isDate, Bool.and_eq_true, decide_eq_true_eq] at hvalid
  omega

/-- A date is read up to whatever follows it. -/
theorem Date.read?_text (d : Date) (rest : List Char) :
    Date.read? (d.text ++ rest) = some (d, rest) := by
  obtain ⟨hmonth, hday⟩ := d.lt_hundred
  have htext : d.text ++ rest =
      yearText d.year ++ '-' :: (padded 2 d.month ++ '-' :: (padded 2 d.day ++ rest)) := by
    simp only [Date.text, List.append_assoc, List.cons_append]
  have hparts : Date.ofParts? d.year d.month d.day = some d := dif_pos d.valid
  have hhyphen (rest : List Char) : after? '-' ('-' :: rest) = some rest :=
    after?_self (by decide) _
  -- Each reader takes its own part and hands on what stands behind it.
  rw [htext, Date.read?]
  simp only [Option.bind_eq_bind, Option.pure_def, Option.bind_some, year?_yearText, hhyphen,
    field?_padded hmonth, field?_padded hday, hparts]

/-- **A date reads back as itself.** -/
theorem Date.ofText?_text (d : Date) : Date.ofText? d.text = some d := by
  have hread : Date.read? d.text = some (d, []) := by
    have h := d.read?_text []
    rwa [List.append_nil] at h
  rw [Date.ofText?, hread]
  rfl

/-! ### Dates with a time of day -/

/-- A fraction of a second, as it is written with a number of digits. -/
theorem fraction?_padded {width n : Nat} (hwidth : 0 < width) (hnine : width ≤ 9)
    (h : n < Nat.pow 10 width) :
    fraction? ('.' :: padded width n) = some (n * Nat.pow 10 (9 - width), []) := by
  have hspan : spanDigits (padded width n) = (values (padded width n), []) := by
    have happend : spanDigits (padded width n ++ []) = (values (padded width n), []) :=
      spanDigits_append (fun c hc => isDigit_of_mem_padded hc) fun c hc => by cases hc
    rwa [List.append_nil] at happend
  have hlength : (values (padded width n)).length = width := by
    rw [values, List.length_map, length_padded hwidth h]
  obtain ⟨d, ds, hds⟩ : ∃ d ds, values (padded width n) = d :: ds := by
    refine List.exists_cons_of_ne_nil fun hnil => ?_
    rw [hnil] at hlength
    exact absurd hlength.symm (Nat.pos_iff_ne_zero.mp hwidth)
  -- There are nine digits at most, so none are cut off.
  have htake : (d :: ds).take 9 = values (padded width n) := by
    rw [← hds, List.take_of_length_le (by omega)]
  rw [fraction?, hspan, hds]
  show some (ofDigits ((d :: ds).take 9) * Nat.pow 10 (9 - ((d :: ds).take 9).length), []) = _
  rw [htake, hlength, ofDigits_padded]

/-- A fraction of zero is left out; any other has three, six or nine digits, as many as it needs. -/
theorem fraction?_fractionText {n : Nat} (h : n < 1000000000) :
    fraction? (fractionText n) = some (n, []) := by
  unfold fractionText
  split
  · next hzero => rw [hzero]; rfl
  · split
    · next hmillis =>
      rw [fraction?_padded (by decide) (by decide) (show n / 1000000 < 1000 by omega)]
      have hexact : n / 1000000 * 1000000 = n := by omega
      exact congrArg (fun n => some (n, [])) hexact
    · split
      · next hmicros =>
        rw [fraction?_padded (by decide) (by decide) (show n / 1000 < 1000000 by omega)]
        have hexact : n / 1000 * 1000 = n := by omega
        exact congrArg (fun n => some (n, [])) hexact
      · rw [fraction?_padded (by decide) (by decide) h]
        exact congrArg (fun n => some (n, [])) (Nat.mul_one n)

/-- **A date with a time of day reads back as itself.** -/
theorem DateTime.ofText?_text (t : DateTime) : DateTime.ofText? (t.text 'T') = some t := by
  have hvalid := t.valid
  simp only [isTime, Bool.and_eq_true, decide_eq_true_eq] at hvalid
  obtain ⟨⟨⟨hhour, hminute⟩, hsecond⟩, hnanosecond⟩ := hvalid
  have htext : t.text 'T' = t.date.text ++ 'T' :: (padded 2 t.hour ++ ':' :: (padded 2 t.minute ++
      ':' :: (padded 2 t.second ++ fractionText t.nanosecond))) := by
    simp only [DateTime.text, List.append_assoc, List.cons_append]
  have hparts : DateTime.ofParts? t.date t.hour t.minute t.second t.nanosecond = some t :=
    dif_pos t.valid
  have hmark (rest : List Char) : after? 'T' ('T' :: rest) = some rest := after?_self (by decide) _
  have hcolon (rest : List Char) : after? ':' (':' :: rest) = some rest := after?_self (by decide) _
  rw [htext, DateTime.ofText?]
  simp only [Option.bind_eq_bind, t.date.read?_text, Option.bind_some, hmark, hcolon,
    field?_padded (show t.hour < 100 by omega), field?_padded (show t.minute < 100 by omega),
    field?_padded (show t.second < 100 by omega), fraction?_fractionText hnanosecond, hparts]
  rfl

end SqlTree.Calendar
