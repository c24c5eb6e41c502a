import SqlTree.Proofs.Text.Unmarked

/-!
# Reading a limiting text

A `RowSelection` is what a limiting text says: to skip rows and return so many of the next, or to
return the rows with numbers in a range.  `RowSelection.read` reads the text as a backend does,
without a look at the query that it comes from, and `RowSelection.keep` returns the rows.

The page of a query is given by numbers, too: `rowWindow offset count` are the rows with a number
above `offset` that is at most `offset + count`, if `count` is not zero.  Skipping and counting
return just these (`rowWindow_eq_drop`, `rowWindow_eq_take`).
-/

namespace SqlTree

/-! ### Selections -/

/-- What a limiting text says. -/
inductive RowSelection where
  /-- Skip rows and return the next ones, at most so many. -/
  | slice (skipped : Nat) (most : Option Nat)
  /-- Return the rows with numbers above one and up to another. -/
  | numbers (above : Nat) (upTo : Option Nat)
  deriving DecidableEq, Repr

section Rows

variable {α : Type}

/-- The rows with a number, counted from one, that satisfies a condition. -/
def rowsWithNumber (p : Nat → Bool) (rows : List α) : List α :=
  ((rows.zipIdx 1).filter fun x => p x.2).map Prod.fst

/-- The rows that a selection returns. -/
def RowSelection.keep (rows : List α) : RowSelection → List α
  | .slice skipped none => rows.drop skipped
  | .slice skipped (some most) => (rows.drop skipped).take most
  | .numbers above none => rowsWithNumber (fun r => above < r) rows
  | .numbers above (some upTo) => rowsWithNumber (fun r => above < r ∧ r ≤ upTo) rows

/-- The page of the rows after the first `offset`: `count` rows, or all of them if it is zero. -/
def rowWindow (offset count : Nat) (rows : List α) : List α :=
  rowsWithNumber (fun r => offset < r ∧ (count = 0 ∨ r ≤ offset + count)) rows

/-- Rows whose number is above `a`, when counting starts at `k`, are what is left behind the first
ones. -/
theorem drop_eq_filter_zipIdx (a k : Nat) (rows : List α) :
    ((rows.zipIdx k).filter fun x => decide (a < x.2)).map Prod.fst = rows.drop (a + 1 - k) := by
  induction rows generalizing k with
  | nil => rw [List.drop_nil]; rfl
  | cons row rest ih =>
    rw [List.zipIdx_cons, List.filter_cons]
    -- Rows up to number `a` are dropped one by one; from there on nothing is dropped.
    by_cases h : a < k
    · rw [if_pos (decide_eq_true h), List.map_cons, ih, show a + 1 - k = 0 by omega,
        show a + 1 - (k + 1) = 0 by omega]
      rfl
    · rw [if_neg (by simpa using h), ih, show a + 1 - k = a + 1 - (k + 1) + 1 by omega,
        List.drop_succ_cons]

/-- Two bounds on the numbers leave a stretch of the rows. -/
theorem take_drop_eq_filter_zipIdx (a b k : Nat) (rows : List α) :
    ((rows.zipIdx k).filter fun x => decide (a < x.2 ∧ x.2 ≤ b)).map Prod.fst =
      (rows.drop (a + 1 - k)).take (b + 1 - max (a + 1) k) := by
  induction rows generalizing k with
  | nil => rw [List.drop_nil, List.take_nil]; rfl
  | cons row rest ih =>
    rw [List.zipIdx_cons, List.filter_cons]
    -- The number of rows still to take goes down only once they have reached `a`.
    by_cases hlower : a < k
    · by_cases hupper : k ≤ b
      · rw [if_pos (decide_eq_true ⟨hlower, hupper⟩), List.map_cons, ih,
          show a + 1 - k = 0 by omega, show a + 1 - (k + 1) = 0 by omega,
          show b + 1 - max (a + 1) k = b + 1 - max (a + 1) (k + 1) + 1 by omega]
        rfl
      · rw [if_neg (by simp [hupper]), ih, show b + 1 - max (a + 1) k = 0 by omega,
          show b + 1 - max (a + 1) (k + 1) = 0 by omega, List.take_zero, List.take_zero]
    · rw [if_neg (by simp [hlower]), ih, show a + 1 - k = a + 1 - (k + 1) + 1 by omega,
        List.drop_succ_cons, show max (a + 1) (k + 1) = max (a + 1) k by omega]

/-- A count of zero is no limit. -/
theorem rowWindow_zero (offset : Nat) (rows : List α) :
    rowWindow offset 0 rows = rowsWithNumber (fun r => offset < r) rows := by
  refine congrArg (rowsWithNumber · rows) (funext fun r => decide_eq_decide.mpr ?_)
  exact ⟨And.left, fun h => ⟨h, Or.inl rfl⟩⟩

/-- Otherwise the last number is that of the offset and the count. -/
theorem rowWindow_of_ne_zero (offset : Nat) {count : Nat} (hcount : count ≠ 0) (rows : List α) :
    rowWindow offset count rows =
      rowsWithNumber (fun r => offset < r ∧ r ≤ offset + count) rows := by
  refine congrArg (rowsWithNumber · rows) (funext fun r => decide_eq_decide.mpr ?_)
  exact and_congr_right fun _ => or_iff_right hcount

/-- Without a limit the page is what an offset leaves. -/
theorem rowWindow_eq_drop (offset : Nat) (rows : List α) :
    rowWindow offset 0 rows = rows.drop offset := by
  have h := drop_eq_filter_zipIdx offset 1 rows
  rw [Nat.add_sub_cancel] at h
  rw [rowWindow_zero]
  exact h

/-- A page is the first rows behind the offset. -/
theorem rowWindow_eq_take (offset : Nat) {count : Nat} (hcount : count ≠ 0) (rows : List α) :
    rowWindow offset count rows = (rows.drop offset).take count := by
  have h := take_drop_eq_filter_zipIdx offset (offset + count) 1 rows
  rw [Nat.add_sub_cancel, show offset + count + 1 - max (offset + 1) 1 = count by omega] at h
  rw [rowWindow_of_ne_zero offset hcount]
  exact h

/-- A page without a count is empty only if there are no rows behind the offset. -/
theorem rowWindow_zero_eq_nil (offset : Nat) (rows : List α) :
    rowWindow offset 0 rows = [] ↔ rows.length ≤ offset := by
  rw [rowWindow_eq_drop, List.drop_eq_nil_iff]

end Rows

/-! ### Reading -/

/-- What stands behind a word. -/
def skipWord (word : String) (cs : List Char) : Option (List Char) :=
  if word.toList.isPrefixOf cs then some (cs.drop word.toList.length) else none

/-- A number and what stands behind it. -/
def readNumber (cs : List Char) : Option (Nat × List Char) :=
  let digits := cs.takeWhile Char.isDigit
  if digits.isEmpty then none
  else some (Nat.ofDigitChars 10 digits 0, cs.dropWhile Char.isDigit)

/-- A selection made from a number that ends the text. -/
def readLast (make : Nat → RowSelection) (cs : List Char) : Option RowSelection :=
  (readNumber cs).bind fun (n, rest) => if rest.isEmpty then some (make n) else none

namespace RowSelection

/-- Reads what stands behind `LIMIT`. -/
def readLimit (cs : List Char) : Option RowSelection :=
  (readNumber cs).bind fun (n, rest) =>
    if rest.isEmpty then some (.slice 0 (some n))
    else
      match skipWord "," rest with
      | some rest => readLast (fun count => .slice n (some count)) rest
      | none => (skipWord " OFFSET " rest).bind (readLast fun offset => .slice offset (some n))

/-- Reads the bounds on the number of a row. -/
def readBounds (cs : List Char) : Option RowSelection :=
  (readNumber cs).bind fun (n, rest) =>
    if rest.isEmpty then some (.numbers n none)
    else (skipWord " AND __row_num <= " rest).bind (readLast fun upTo => .numbers n (some upTo))

/-- Reads a limiting text. -/
def read (cs : List Char) : Option RowSelection :=
  match skipWord "LIMIT " cs with
  | some rest => readLimit rest
  | none =>
    match skipWord "OFFSET " cs with
    | some rest => readLast (fun offset => .slice offset none) rest
    | none => (skipWord "WHERE __row_num > " cs).bind readBounds

end RowSelection

theorem skipWord_append (word : String) (cs : List Char) :
    skipWord word (word.toList ++ cs) = some cs := by
  rw [skipWord, if_pos (List.isPrefixOf_iff_prefix.mpr (List.prefix_append _ _)), List.drop_left]

theorem takeWhile_append_of_stop {p : Char → Bool} {word cs : List Char}
    (hword : ∀ c ∈ word, p c = true) (hcs : ∀ c ∈ cs.head?, p c = false) :
    (word ++ cs).takeWhile p = word ∧ (word ++ cs).dropWhile p = cs := by
  rw [List.takeWhile_append_of_pos hword, List.dropWhile_append_of_pos hword]
  cases cs with
  | nil => exact ⟨List.append_nil word, rfl⟩
  | cons c rest =>
    have hc : p c = false := hcs c rfl
    simp [hc]

/-- A text that does not go on with a digit. -/
def NoDigitHead (cs : List Char) : Prop := ∀ c ∈ cs.head?, c.isDigit = false

/-- A number is read back in front of anything but a digit. -/
theorem readNumber_toString (n : Nat) {cs : List Char} (hcs : NoDigitHead cs) :
    readNumber ((toString n).toList ++ cs) = some (n, cs) := by
  have hdigits : ∀ c ∈ (toString n).toList, c.isDigit = true :=
    fun c hc => Text.isDigit_of_mem_toString hc
  have hne : (toString n).toList.isEmpty = false := by
    rw [Nat.toString_eq_repr, Nat.toList_repr, List.isEmpty_eq_false_iff]
    exact Nat.toDigits_ne_nil
  obtain ⟨htake, hdrop⟩ := takeWhile_append_of_stop hdigits hcs
  have hvalue : Nat.ofDigitChars 10 (toString n).toList 0 = n := by
    rw [Nat.toString_eq_repr, Nat.toList_repr]
    exact Nat.ofDigitChars_ten_toDigits
  simp only [readNumber, htake, hdrop, hne, hvalue, Bool.false_eq_true, if_false]

/-- The number that ends a text. -/
theorem readNumber_last (n : Nat) : readNumber (toString n).toList = some (n, []) := by
  have h : readNumber ((toString n).toList ++ []) = some (n, []) := readNumber_toString n nofun
  rwa [List.append_nil] at h

theorem readLast_toString (make : Nat → RowSelection) (n : Nat) :
    readLast make (toString n).toList = some (make n) := by
  rw [readLast, readNumber_last]
  rfl

theorem noDigitHead_append {word : String} {c : Char} (hhead : word.toList.head? = some c)
    (hc : c.isDigit = false) (cs : List Char) : NoDigitHead (word.toList ++ cs) := by
  intro c' hc'
  rw [List.head?_append, hhead, Option.some_or] at hc'
  obtain rfl := Option.some.inj hc'
  exact hc

namespace RowSelection

theorem read_limit (cs : List Char) : read ("LIMIT ".toList ++ cs) = readLimit cs := by
  rw [read, skipWord_append]

/-- Two numbers with a comma between them are the offset and the count. -/
theorem read_limit_pair (skipped most : Nat) :
    read ("LIMIT " ++ toString skipped ++ "," ++ toString most).toList =
      some (.slice skipped (some most)) := by
  have hword : NoDigitHead (",".toList ++ (toString most).toList) :=
    noDigitHead_append (c := ',') rfl rfl _
  have hmore : (",".toList ++ (toString most).toList).isEmpty = false := rfl
  simp only [String.toList_append, List.append_assoc, read_limit, readLimit,
    readNumber_toString skipped hword, Option.bind_some, hmore, Bool.false_eq_true, if_false,
    skipWord_append, readLast_toString]

theorem read_limit_one (most : Nat) :
    read ("LIMIT " ++ toString most).toList = some (.slice 0 (some most)) := by
  rw [String.toList_append, read_limit, readLimit, readNumber_last]
  rfl

/-- With `OFFSET` the count comes first. -/
theorem read_limit_offset (most skipped : Nat) :
    read ("LIMIT " ++ toString most ++ " OFFSET " ++ toString skipped).toList =
      some (.slice skipped (some most)) := by
  have hword : NoDigitHead (" OFFSET ".toList ++ (toString skipped).toList) :=
    noDigitHead_append (c := ' ') rfl rfl _
  have hmore : (" OFFSET ".toList ++ (toString skipped).toList).isEmpty = false := rfl
  -- A comma is looked for before the word, and not found.
  have hcomma : skipWord "," (" OFFSET ".toList ++ (toString skipped).toList) = none := rfl
  simp only [String.toList_append, List.append_assoc, read_limit, readLimit,
    readNumber_toString most hword, Option.bind_some, hmore, Bool.false_eq_true, if_false, hcomma,
    skipWord_append, readLast_toString]

theorem read_offset (skipped : Nat) :
    read ("OFFSET " ++ toString skipped).toList = some (.slice skipped none) := by
  have hlimit : skipWord "LIMIT " ("OFFSET ".toList ++ (toString skipped).toList) = none := rfl
  rw [String.toList_append, read, hlimit]
  simp only [skipWord_append, readLast_toString]

theorem read_bounds (cs : List Char) :
    read ("WHERE __row_num > ".toList ++ cs) = readBounds cs := by
  have hlimit : skipWord "LIMIT " ("WHERE __row_num > ".toList ++ cs) = none := rfl
  have hoffset : skipWord "OFFSET " ("WHERE __row_num > ".toList ++ cs) = none := rfl
  rw [read, hlimit]
  simp only [hoffset, skipWord_append, Option.bind_some]

theorem read_lower (above : Nat) :
    read ("WHERE __row_num > " ++ toString above).toList = some (.numbers above none) := by
  rw [String.toList_append, read_bounds, readBounds, readNumber_last]
  rfl

/-- Two bounds are read as those on the numbers of the rows. -/
theorem read_both (above upTo : Nat) :
    read ("WHERE __row_num > " ++ toString above ++ " AND __row_num <= " ++ toString upTo).toList =
      some (.numbers above (some upTo)) := by
  have hword : NoDigitHead (" AND __row_num <= ".toList ++ (toString upTo).toList) :=
    noDigitHead_append (c := ' ') rfl rfl _
  have hmore : (" AND __row_num <= ".toList ++ (toString upTo).toList).isEmpty = false := rfl
  simp only [String.toList_append, List.append_assoc, read_bounds, readBounds,
    readNumber_toString above hword, Option.bind_some, hmore, Bool.false_eq_true, if_false,
    skipWord_append, readLast_toString]

end RowSelection

end SqlTree
