import SqlTree.Proofs.Codec.Calendar
import SqlTree.Proofs.Codec.Records

/-!
# Values read back as themselves

Main statement, `Value.reads`: a value whose floats are all finite is read back from its document,
the members of objects in any order.

The hyphens of an identifier are taken out where they were put in, whatever the groups are, as long
as there are enough characters to fill all of them but the last (`withoutHyphens?_hyphenated`).
-/

namespace SqlTree.Uuid

open Text.Hex (digitChar digit? digit?_digitChar)

/-- The number of characters in front of the last group. -/
def reach : List Nat → Nat
  | [] | [_] => 0
  | n :: m :: rest => n + reach (m :: rest)

/-- Hyphens between groups of digits are taken out again, if there are digits for all groups. -/
theorem withoutHyphens?_hyphenated {groups : List Nat} {cs : List Char}
    (h : reach groups ≤ cs.length) : withoutHyphens? groups (hyphenated groups cs) = some cs := by
  -- On the groups; the last one has no hyphen behind it.
  induction groups generalizing cs with
  | nil => rfl
  | cons n rest ih =>
    cases rest with
    | nil => rfl
    | cons m rest =>
      rw [reach] at h
      have htake : (cs.take n).length = n := by
        rw [List.length_take]
        omega
      have hrest : withoutHyphens? (m :: rest) (hyphenated (m :: rest) (cs.drop n)) =
          some (cs.drop n) := by
        refine ih ?_
        rw [List.length_drop]
        omega
      rw [hyphenated, withoutHyphens?, List.drop_left' htake, List.take_left' htake]
      · show (withoutHyphens? (m :: rest) _).map _ = _
        rw [hrest, Option.map_some, List.take_append_drop]
      all_goals simp

/-- Each hyphen is one character more. -/
theorem length_hyphenated {groups : List Nat} {cs : List Char} (h : reach groups ≤ cs.length) :
    (hyphenated groups cs).length = cs.length + (groups.length - 1) := by
  induction groups generalizing cs with
  | nil => rfl
  | cons n rest ih =>
    cases rest with
    | nil => rfl
    | cons m rest =>
      rw [reach] at h
      have hdrop : (cs.drop n).length = cs.length - n := List.length_drop
      have hrest : (hyphenated (m :: rest) (cs.drop n)).length = cs.length - n + rest.length :=
        (ih (by omega)).trans (by rw [hdrop, List.length_cons, Nat.add_sub_cancel])
      rw [hyphenated, List.length_append, List.length_take, List.length_cons, hrest,
        List.length_cons, List.length_cons]
      · omega
      · simp

/-- The digits are read back one by one, and there are as many as an identifier has. -/
theorem ofDigits?_digits (u : Uuid) : ofDigits? (u.digits.map digitChar) = some u := by
  rw [ofDigits?, mapM_map_eq_some fun d _ => digit?_digitChar d]
  exact dif_pos u.length_digits

/-- **An identifier reads back as itself.** -/
theorem ofText?_text (u : Uuid) : ofText? u.text = some u := by
  have hreach : reach groups ≤ (u.digits.map digitChar).length := by
    rw [List.length_map, u.length_digits]
    decide
  -- The length tells the form with hyphens from the others.
  have hlength : u.text.length = 36 := by
    rw [text, length_hyphenated hreach, List.length_map, u.length_digits]
    rfl
  have hread : ofHyphenated? u.text = some u := by
    rw [ofHyphenated?, text, withoutHyphens?_hyphenated hreach]
    exact ofDigits?_digits u
  rw [ofText?, hlength]
  exact hread

end SqlTree.Uuid

namespace SqlTree

open Json (Reads Reorders)

namespace Value

/-- All floats of a value are finite. -/
inductive Finite : Value → Prop
  | null : Finite .null
  | bool (b : Bool) : Finite (.bool b)
  | int (n : Int64) : Finite (.int n)
  | float {x : Float} (h : x.isFinite = true) : Finite (.float x)
  | string (s : String) : Finite (.string s)
  | bytes (content : List UInt8) : Finite (.bytes content)
  | date (d : Calendar.Date) : Finite (.date d)
  | dateTime (t : Calendar.DateTime) : Finite (.dateTime t)
  | uuid (u : Uuid) : Finite (.uuid u)
  | list {items : List Value} (h : ∀ v ∈ items, Finite v) : Finite (.list items)

/-- Items are written one by one. -/
theorem toJsonItems_eq_map (items : List Value) : toJsonItems items = items.map toJson := by
  induction items with
  | nil => rfl
  | cons v items ih => rw [toJsonItems, ih, List.map_cons]

/-- **A value with finite floats is read back from its document.** -/
theorem reads {c : Json → Json} (hc : Reorders c) {v : Value} (hv : v.Finite) :
    Reads c ofJson? v.toJson v := by
  -- A value stands under the name of its kind, and the name leads to its own reader.
  induction hv with
  | null =>
    intro levels _
    rw [toJson, hc.string]
    cases levels <;> rfl
  | bool b => exact hc.alternative_map (fun _ _ => by rw [ofJson?]) fun _ _ => hc.read_bool b
  | int m => exact hc.alternative_map (fun _ _ => by rw [ofJson?]) fun _ _ => hc.read_int64 m
  | @float x h =>
    rw [toJson, Json.ofFloat, if_pos h]
    refine hc.alternative fun n _ => ?_
    rw [hc.float]
    rfl
  | string s => exact hc.alternative_map (fun _ _ => by rw [ofJson?]) fun _ _ => hc.read_string s
  | bytes content =>
    have hcontent : Reads c (fun n => Json.list? n fun _ => Json.byte?)
        (.array (content.map fun b => .int b.toNat)) content :=
      hc.list (fun _ _ => rfl) fun b _ _ _ => hc.read_byte b
    exact hc.alternative_map (fun _ _ => by rw [ofJson?]) hcontent
  | date d =>
    refine hc.alternative fun n _ => ?_
    rw [hc.string, ofJson?, String.toList_ofList, d.ofText?_text, Option.map_some]
  | dateTime t =>
    refine hc.alternative fun n _ => ?_
    rw [hc.string, ofJson?, String.toList_ofList, t.ofText?_text, Option.map_some]
  | uuid u =>
    refine hc.alternative fun n _ => ?_
    rw [hc.string, ofJson?, String.toList_ofList, u.ofText?_text, Option.map_some]
  | @list items _ ih =>
    rw [toJson, toJsonItems_eq_map]
    refine hc.alternative fun n hn => ?_
    rw [hc.array] at hn ⊢
    obtain ⟨n, rfl, hdepth⟩ := Json.exists_levels_of_array hn
    rw [ofJson?, List.map_map, mapM_map_eq_some, Option.map_some]
    intro v hv
    exact ih v hv n (hdepth _ (List.mem_map_of_mem (List.mem_map_of_mem hv)))

end Value

end SqlTree
