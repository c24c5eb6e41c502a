import SqlTree.Dialect.Basic
import Mathlib.Logic.Function.Basic

/-!
# Quoted identifiers

`Text.readQuoted` reads an identifier between quotes off the front of a text: from the opening quote
up to the first quote that is not followed by another one, a doubled quote standing for one.
What `quoteWith` writes is read back, whatever follows it, as long as that does not start with the
quote (`Text.readQuoted_quoteWith`); so two identifiers are never quoted alike.
-/

namespace SqlTree

namespace Text

/-! ### Reading -/

/-- Reads up to a closing mark, and says what is left behind it. -/
def readInside (mark : Char) : List Char → Option (List Char × List Char)
  | [] => none
  | [c] => if c = mark then some ([], []) else none
  | c :: next :: rest =>
    if c = mark then
      if next = mark then (readInside mark rest).map fun (inside, left) => (mark :: inside, left)
      else some ([], next :: rest)
    else (readInside mark (next :: rest)).map fun (inside, left) => (c :: inside, left)

/-- Reads an identifier between marks, and says what is left behind it. -/
def readQuoted (mark : Char) : List Char → Option (String × List Char)
  | [] => none
  | c :: rest =>
    if c = mark then
      (readInside mark rest).map fun (inside, left) => (String.ofList inside, left)
    else none

/-- An identifier with its marks doubled. -/
def doubled (mark : Char) (cs : List Char) : List Char :=
  cs.flatMap fun c => if c = mark then [mark, mark] else [c]

theorem toList_quoteWith (mark : Char) (s : String) :
    (quoteWith mark s).toList = mark :: (doubled mark s.toList ++ [mark]) := by
  rw [quoteWith, String.toList_ofList]
  rfl

variable {mark : Char}

/-- A mark that is not followed by another one ends what is read. -/
theorem readInside_mark {rest : List Char} (hrest : rest.head? ≠ some mark) :
    readInside mark (mark :: rest) = some ([], rest) := by
  cases rest with
  | nil => exact if_pos rfl
  | cons c rest =>
    have hc : c ≠ mark := fun h => hrest (congrArg some h)
    rw [readInside, if_pos rfl, if_neg hc]

theorem readInside_of_ne {c : Char} (hc : c ≠ mark) {cs : List Char} (hcs : cs ≠ []) :
    readInside mark (c :: cs) =
      (readInside mark cs).map fun (inside, left) => (c :: inside, left) := by
  obtain ⟨next, rest, rfl⟩ := List.exists_cons_of_ne_nil hcs
  rw [readInside, if_neg hc]

/-- A doubled mark is read as one, and a single one ends the quotes. -/
theorem readInside_doubled (cs : List Char) {rest : List Char} (hrest : rest.head? ≠ some mark) :
    readInside mark (doubled mark cs ++ mark :: rest) = some (cs, rest) := by
  induction cs with
  | nil => exact readInside_mark hrest
  | cons c cs ih =>
    -- A mark inside the quotes was doubled, so that another one follows.
    by_cases hc : c = mark
    · -- The scanner takes a doubled mark in one step and goes on behind it.
      have hsplit : doubled mark (c :: cs) ++ mark :: rest =
          mark :: mark :: (doubled mark cs ++ mark :: rest) := by
        rw [doubled, List.flatMap_cons, if_pos hc]
        rfl
      rw [hsplit, readInside, if_pos rfl, if_pos rfl, ih, Option.map_some, hc]
    · have hsplit : doubled mark (c :: cs) ++ mark :: rest =
          c :: (doubled mark cs ++ mark :: rest) := by
        rw [doubled, List.flatMap_cons, if_neg hc]
        rfl
      have hne : doubled mark cs ++ mark :: rest ≠ [] := by simp
      rw [hsplit, readInside_of_ne hc hne, ih, Option.map_some]

/-- What is quoted is read back, and nothing behind it is read. -/
theorem readQuoted_quoteWith (s : String) {rest : List Char} (hrest : rest.head? ≠ some mark) :
    readQuoted mark ((quoteWith mark s).toList ++ rest) = some (s, rest) := by
  have hsplit : (quoteWith mark s).toList ++ rest =
      mark :: (doubled mark s.toList ++ mark :: rest) := by
    rw [toList_quoteWith, List.cons_append, List.append_assoc, List.singleton_append]
  rw [hsplit, readQuoted, if_pos rfl, readInside_doubled _ hrest, Option.map_some]
  exact congrArg (fun s => some (s, rest)) String.ofList_toList

/-- Quotes that read back tell texts apart. -/
theorem quoteWith_injective (mark : Char) : Function.Injective (quoteWith mark) := by
  intro s t h
  have hread (s : String) : readQuoted mark ((quoteWith mark s).toList ++ []) = some (s, []) :=
    readQuoted_quoteWith s (by simp)
  have hs := hread s
  rw [h, hread t] at hs
  exact (congrArg Prod.fst (Option.some.inj hs)).symm

end Text

end SqlTree
