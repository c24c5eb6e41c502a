import SqlTree.Dialect.Basic
import SqlTree.Proofs.Page.Selection
import SqlTree.Proofs.Text.Trim

/-!
# Reading a condition

`readCondition` reads the text of a condition as a backend does, without a look at the tree that it
comes from.  First `lexemes` cuts the text up: parentheses, the words `NOT`, `AND` and `OR`, and
comparisons, which are a column, a sign and the placeholder of the next value.  Blank characters
count only where they end a word.  Then `readOperand` and `readConnective` put the formula together:
`NOT` takes the operand behind it, `AND` binds more tightly than `OR`, and what stands in
parentheses is one operand.
-/

namespace SqlTree

/-! ### Formulas -/

/-- A column compared with a value. -/
structure Comparison where
  /-- The column. -/
  column : String
  /-- The sign. -/
  op : Operator
  /-- The value. -/
  value : Value

/-- Whether an operator is a sign between the two sides of a comparison. -/
def Operator.isSign : Operator → Bool
  | eq | ne | gt | gte | lt | lte => true
  | _ => false

/-- The words that join formulas. -/
inductive Connective where
  | and | or
  deriving DecidableEq, Repr

namespace Connective

/-- The operator of a connective. -/
def operator : Connective → Operator
  | and => .and
  | or => .or

/-- The truth value of two formulas that are joined. -/
def combine : Connective → Bool → Bool → Bool
  | and => Bool.and
  | or => Bool.or

end Connective

/-- What a condition says. -/
inductive Formula where
  /-- A comparison. -/
  | comparison (c : Comparison)
  /-- The opposite of a formula. -/
  | not (f : Formula)
  /-- Two formulas. -/
  | joined (left : Formula) (op : Connective) (right : Formula)

namespace Formula

/-- The truth value of a formula, given those of the comparisons. -/
def holds (σ : Comparison → Bool) : Formula → Bool
  | comparison c => σ c
  | not f => !f.holds σ
  | joined left op right => op.combine (left.holds σ) (right.holds σ)

/-- A formula behind several `NOT`s. -/
def negate : (times : Nat) → Formula → Formula
  | 0, f => f
  | times + 1, f => negate times (.not f)

end Formula

/-! ### Precedence -/

/-- Formulas joined so far. -/
structure Joined where
  /-- What stands in front of the last `OR`. -/
  before : Option Formula := none
  /-- What stands behind it. -/
  last : Formula

namespace Joined

/-- All of it. -/
def formula (j : Joined) : Formula :=
  match j.before with
  | none => j.last
  | some f => .joined f .or j.last

/-- Joins one formula more: `AND` binds it to what stands behind the last `OR`. -/
def connect (j : Joined) : Connective → Formula → Joined
  | .and, f => ⟨j.before, .joined j.last .and f⟩
  | .or, f => ⟨some j.formula, f⟩

end Joined

/-- A place where an operand is due. -/
structure Place where
  /-- What the operand is joined to, inside the same parentheses. -/
  left : Option (Joined × Connective) := none
  /-- The number of `NOT`s in front of it. -/
  negations : Nat := 0

/-- Puts an operand in its place. -/
def Place.operand (p : Place) (f : Formula) : Joined :=
  match p.left with
  | none => { last := f.negate p.negations }
  | some (j, op) => j.connect op (f.negate p.negations)

/-- A word of a condition. -/
inductive Lexeme where
  /-- An opening parenthesis. -/
  | opening
  /-- A closing parenthesis. -/
  | closing
  /-- The word `NOT`. -/
  | not
  /-- The word `AND` or `OR`. -/
  | connective (op : Connective)
  /-- A comparison. -/
  | comparison (c : Comparison)

/-- The value that a word is bound to. -/
def Lexeme.value? : Lexeme → Option Value
  | comparison c => some c.value
  | _ => none

mutual

/-- Reads an operand at a place, and what follows; `outer` are the places of the open parentheses,
the innermost first. -/
def readOperand (p : Place) (outer : List Place) : List Lexeme → Option Formula
  | .not :: rest => readOperand { p with negations := p.negations + 1 } outer rest
  | .opening :: rest => readOperand {} (p :: outer) rest
  | .comparison c :: rest => readConnective (p.operand (.comparison c)) outer rest
  | _ => none

/-- Reads what follows an operand: a connective, a closing parenthesis or the end. -/
def readConnective (j : Joined) (outer : List Place) : List Lexeme → Option Formula
  | [] => if outer.isEmpty then some j.formula else none
  | .connective op :: rest => readOperand { left := some (j, op) } outer rest
  | .closing :: rest =>
    match outer with
    | [] => none
    | p :: outer => readConnective (p.operand j.formula) outer rest
  | _ => none

end

/-! ### Words -/

/-- The characters of a name or a keyword. -/
def isWordChar (c : Char) : Bool := c.isAlphanum || c == '_'

/-- The characters of a sign. -/
def isSignChar (c : Char) : Bool := c == '=' || c == '<' || c == '>'

/-- The keyword that a word is, in capitals or not. -/
def keyword? (word : List Char) : Option Lexeme :=
  match word.map Char.toUpper with
  | ['N', 'O', 'T'] => some .not
  | ['A', 'N', 'D'] => some (.connective .and)
  | ['O', 'R'] => some (.connective .or)
  | _ => none

/-- The comparing operator of a sign. -/
def sign? (sign : List Char) : Option Operator :=
  Operator.all.find? fun op => op.isSign && op.sql.toList == sign

/-- What the placeholders to come stand for. -/
structure Supply where
  /-- The number of placeholders so far that carry a name or a number. -/
  index : Nat
  /-- The values to come. -/
  values : List Value

/-- Reads what follows the column of a comparison: a sign and the placeholder of the next value,
whose own blank ends do not count. -/
def readComparison (d : Dialect) (s : Supply) (column : String) (cs : List Char) :
    Option (Lexeme × Supply × List Char) :=
  let cs := Text.trimStart cs
  let rest := Text.trimStart (cs.dropWhile isSignChar)
  match sign? (cs.takeWhile isSignChar), s.values with
  | some op, v :: values =>
    let (placeholder, index) := d.placeholder s.index none
    (skipWord (Text.trimmed placeholder) rest).map fun rest =>
      (.comparison ⟨column, op, v⟩, ⟨index, values⟩, rest)
  | _, _ => none

/-- Reads the first word of a text, which starts with a given character. -/
def nextLexeme (d : Dialect) (s : Supply) (c : Char) (cs : List Char) :
    Option (Lexeme × Supply × List Char) :=
  if c = '(' then some (.opening, s, cs)
  else if c = ')' then some (.closing, s, cs)
  else
    let word := (c :: cs).takeWhile isWordChar
    let rest := (c :: cs).dropWhile isWordChar
    match keyword? word with
    | some l => some (l, s, rest)
    | none => if word.isEmpty then none else readComparison d s (String.ofList word) rest

attribute [local irreducible] Text.isBlank in
/-- The words of a text, which have to use up the values. -/
def lexemes (d : Dialect) (s : Supply) : List Char → Option (List Lexeme)
  | [] => if s.values.isEmpty then some [] else none
  | c :: cs =>
    if Text.isBlank c then lexemes d s cs
    else
      (nextLexeme d s c cs).bind fun (l, s, rest) =>
        -- A word takes at least one character.
        if rest.length ≤ cs.length then (lexemes d s rest).map (l :: ·) else none
termination_by cs => cs.length
decreasing_by
  · exact Nat.lt_succ_self cs.length
  · exact Nat.lt_succ_of_le ‹_›

/-- Reads the text of a condition that is bound to the given values, when there are `index`
placeholders in front of it. -/
def readCondition (d : Dialect) (index : Nat) (values : List Value) (cs : List Char) :
    Option Formula :=
  (lexemes d ⟨index, values⟩ cs).bind (readOperand {} [])

/-! ### Reading word by word -/

/-- A text that does not go on with a name, a keyword or a sign. -/
def WordEnds (cs : List Char) : Prop := ∀ c ∈ cs.head?, isWordChar c = false ∧ isSignChar c = false

/-- Whether a string is a plain identifier: letters, digits and underscores, but no keyword. -/
def isPlainName (s : String) : Bool :=
  !s.toList.isEmpty && s.toList.all isWordChar && (keyword? s.toList).isNone

/-- Words hold letters, digits and underscores, none of which are blank. -/
theorem isBlank_eq_false_of_isWordChar {c : Char} (h : isWordChar c = true) :
    Text.isBlank c = false := by
  have hletter : c.isAlpha = (decide ('A'.val ≤ c.val ∧ c.val ≤ 'Z'.val) ||
      (decide ('a'.val ≤ c.val) && decide (c.val ≤ 'z'.val))) := rfl
  simp only [isWordChar, Char.isAlphanum, hletter, Char.isDigit, Bool.or_eq_true, Bool.and_eq_true,
    decide_eq_true_eq, beq_iff_eq, ge_iff_le, UInt32.le_iff_toNat_le] at h
  rcases h with h | rfl
  · have hcode : (65 ≤ c.toNat ∧ c.toNat ≤ 90) ∨ (97 ≤ c.toNat ∧ c.toNat ≤ 122) ∨
        (48 ≤ c.toNat ∧ c.toNat ≤ 57) := by
      rcases h with (h | h) | h
      · exact Or.inl h
      · exact Or.inr (Or.inl h)
      · exact Or.inr (Or.inr h)
    simp only [Text.isBlank, Bool.or_eq_false_iff, Bool.and_eq_false_iff, decide_eq_false_iff_not,
      beq_eq_false_iff_ne]
    omega
  · decide

section Lexemes

variable {d : Dialect} {s : Supply}

theorem lexemes_nil (index : Nat) : lexemes d ⟨index, []⟩ [] = some [] := by
  rw [lexemes]
  rfl

theorem lexemes_blank {c : Char} (hc : Text.isBlank c = true) (cs : List Char) :
    lexemes d s (c :: cs) = lexemes d s cs := by
  rw [lexemes, if_pos hc]

/-- Blank characters in front of a text do not count. -/
theorem lexemes_gap {gap : List Char} (hgap : ∀ c ∈ gap, Text.isBlank c = true) (cs : List Char) :
    lexemes d s (gap ++ cs) = lexemes d s cs := by
  induction gap with
  | nil => rfl
  | cons c rest ih =>
    rw [List.cons_append, lexemes_blank (hgap c List.mem_cons_self)]
    exact ih fun x hx => hgap x (List.mem_cons_of_mem c hx)

theorem lexemes_trimStart (cs : List Char) : lexemes d s (Text.trimStart cs) = lexemes d s cs := by
  have hgap : ∀ c ∈ cs.takeWhile Text.isBlank, Text.isBlank c = true :=
    fun c hc => List.all_eq_true.mp List.all_takeWhile c hc
  have h := lexemes_gap (d := d) (s := s) hgap (Text.trimStart cs)
  rw [Text.trimStart, List.takeWhile_append_dropWhile] at h
  exact h.symm

/-- Reading goes on behind a word that has been read, which is shorter. -/
theorem lexemes_next {c : Char} {cs rest : List Char} {l : Lexeme} {s' : Supply}
    (hc : Text.isBlank c = false) (hnext : nextLexeme d s c cs = some (l, s', rest))
    (hlength : rest.length ≤ cs.length) :
    lexemes d s (c :: cs) = (lexemes d s' rest).map (l :: ·) := by
  rw [lexemes, if_neg (by simp [hc]), hnext]
  exact if_pos hlength

theorem lexemes_opening (cs : List Char) :
    lexemes d s ('(' :: cs) = (lexemes d s cs).map (.opening :: ·) :=
  lexemes_next (by decide) rfl (Nat.le_refl _)

theorem lexemes_closing (cs : List Char) :
    lexemes d s (')' :: cs) = (lexemes d s cs).map (.closing :: ·) :=
  lexemes_next (by decide) rfl (Nat.le_refl _)

/-- A word is read up to its end. -/
theorem nextLexeme_word {c : Char} {word cs : List Char}
    (hword : ∀ x ∈ c :: word, isWordChar x = true) (hcs : WordEnds cs) :
    nextLexeme d s c (word ++ cs) =
      match keyword? (c :: word) with
      | some l => some (l, s, cs)
      | none => readComparison d s (String.ofList (c :: word)) cs := by
  have hc := hword c List.mem_cons_self
  have hopening : c ≠ '(' := by
    rintro rfl
    exact absurd hc (by decide)
  have hclosing : c ≠ ')' := by
    rintro rfl
    exact absurd hc (by decide)
  -- A word goes as far as there are characters of words.
  obtain ⟨htake, hdrop⟩ := takeWhile_append_of_stop hword fun x hx => (hcs x hx).1
  rw [List.cons_append] at htake hdrop
  rw [nextLexeme, if_neg hopening, if_neg hclosing, htake, hdrop]
  rfl

/-- A keyword is read as itself if the word ends there. -/
theorem lexemes_keyword {word cs : List Char} {l : Lexeme}
    (hword : ∀ c ∈ word, isWordChar c = true) (hkeyword : keyword? word = some l)
    (hcs : WordEnds cs) : lexemes d s (word ++ cs) = (lexemes d s cs).map (l :: ·) := by
  cases word with
  | nil => cases hkeyword
  | cons c rest =>
    have hnext := nextLexeme_word (d := d) (s := s) hword hcs
    rw [hkeyword] at hnext
    rw [List.cons_append]
    refine lexemes_next (isBlank_eq_false_of_isWordChar (hword c List.mem_cons_self)) hnext ?_
    rw [List.length_append]
    exact Nat.le_add_left cs.length rest.length

/-! ### Reading a comparison -/

theorem sign?_sql {op : Operator} (h : op.isSign = true) : sign? op.sql.toList = some op := by
  revert h
  cases op <;> decide

theorem isSignChar_of_mem_sql {op : Operator} (h : op.isSign = true) :
    ∀ c ∈ op.sql.toList, isSignChar c = true := by
  refine List.all_eq_true.mp ?_
  revert h
  cases op <;> decide

/-- A comparison takes the next value from the supply, and the placeholder that stands for it. -/
theorem readComparison_eq {op : Operator} (hop : op.isSign = true) {index : Nat} {v : Value}
    {values : List Value} (column : String) {tail rest : List Char}
    (htail : ∀ c ∈ tail.head?, isSignChar c = false)
    (hrest : Text.trimStart tail =
      (Text.trimmed (d.placeholder index none).1).toList ++ rest) :
    readComparison d ⟨index, v :: values⟩ column (' ' :: (op.sql.toList ++ tail)) =
      some (.comparison ⟨column, op, v⟩, ⟨(d.placeholder index none).2, values⟩, rest) := by
  have hstart : Text.trimStart (' ' :: (op.sql.toList ++ tail)) = op.sql.toList ++ tail := by
    show Text.trimStart (op.sql.toList ++ tail) = _
    refine Text.trimStart_of_head ?_
    cases op <;> intro c hc <;> cases hc <;> rfl
  obtain ⟨htake, hdrop⟩ := takeWhile_append_of_stop (isSignChar_of_mem_sql hop) htail
  unfold readComparison
  simp only [hstart, htake, hdrop, sign?_sql hop, hrest, skipWord_append, Option.map_some]

/-- A comparison is read up to the end of its placeholder. -/
theorem lexemes_comparison {c : Comparison} (hcolumn : isPlainName c.column = true)
    (hop : c.op.isSign = true) {index : Nat} {values : List Value} {tail rest : List Char}
    (htail : ∀ c ∈ tail.head?, isSignChar c = false)
    (hrest : Text.trimStart tail =
      (Text.trimmed (d.placeholder index none).1).toList ++ rest) :
    lexemes d ⟨index, c.value :: values⟩ (c.column.toList ++ ' ' :: (c.op.sql.toList ++ tail)) =
      (lexemes d ⟨(d.placeholder index none).2, values⟩ rest).map (.comparison c :: ·) := by
  simp only [isPlainName, Bool.and_eq_true, Bool.not_eq_true', List.isEmpty_eq_false_iff,
    List.all_eq_true, Option.isNone_iff_eq_none] at hcolumn
  obtain ⟨⟨hne, hword⟩, hkeyword⟩ := hcolumn
  have hread : readComparison d ⟨index, c.value :: values⟩ (String.ofList c.column.toList)
      (' ' :: (c.op.sql.toList ++ tail)) =
        some (.comparison c, ⟨(d.placeholder index none).2, values⟩, rest) := by
    rw [String.ofList_toList]
    exact readComparison_eq hop c.column htail hrest
  have hlength : rest.length ≤ tail.length := by
    have hdrop : (Text.trimStart tail).length ≤ tail.length :=
      (List.dropWhile_sublist Text.isBlank).length_le
    rw [hrest, List.length_append] at hdrop
    omega
  -- The column is a word of its own, and the blank behind it ends it.
  generalize c.column.toList = word at hne hword hkeyword hread ⊢
  obtain ⟨x, more, rfl⟩ := List.exists_cons_of_ne_nil hne
  have hend : WordEnds (' ' :: (c.op.sql.toList ++ tail)) := by
    rintro y ⟨⟩
    decide
  have hnext := nextLexeme_word (d := d) (s := ⟨index, c.value :: values⟩) hword hend
  rw [hkeyword] at hnext
  rw [List.cons_append]
  refine lexemes_next (isBlank_eq_false_of_isWordChar (hword x List.mem_cons_self))
    (hnext.trans hread) ?_
  simp only [List.length_append, List.length_cons]
  omega

end Lexemes

end SqlTree
