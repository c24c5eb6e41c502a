import SqlTree.Draft

/-!
# Changing the values of a draft

`Draft.mapValues f` changes the value of every placeholder.  It commutes with every way of putting
drafts together, and assembling a changed draft gives the same text, the same fault and the changed
arguments (`Draft.assemble_mapValues`): the writer never reads a value.
-/

namespace SqlTree

/-- Changes the value of a placeholder. -/
def Piece.mapValue (f : Value → Value) : Piece → Piece
  | .layout s => .layout s
  | .argument name value => .argument name (f value)

/-- Changes the bound values of a statement. -/
def Compiled.mapArguments (f : Value → Value) (c : Compiled) : Compiled :=
  { c with arguments := c.arguments.map f }

namespace Draft

variable (f : Value → Value)

/-- Changes the value of every placeholder. -/
def mapValues : Draft → Draft
  | .pieces l => .pieces (l.map (Piece.mapValue f))
  | .fault e => .fault e

/-! ### Drafts put together -/

@[simp] theorem mapValues_fault (e : Error) : (Draft.fault e).mapValues f = .fault e := rfl

@[simp] theorem mapValues_empty : empty.mapValues f = empty := rfl

@[simp] theorem mapValues_step (s : Writer.Step) : (step s).mapValues f = step s := rfl

@[simp] theorem mapValues_text (s : String) : (text s).mapValues f = text s := rfl

@[simp] theorem mapValues_blank : blank.mapValues f = blank := rfl

@[simp] theorem mapValues_lineBreak : lineBreak.mapValues f = lineBreak := rfl

@[simp] theorem mapValues_argument (name : Option String) (v : Value) :
    (argument name v).mapValues f = argument name (f v) := rfl

/-- Values are exchanged draft by draft. -/
@[simp] theorem mapValues_append (a b : Draft) :
    (a ++ b).mapValues f = a.mapValues f ++ b.mapValues f := by
  cases a with
  | fault e => rfl
  | pieces a =>
    cases b with
    | fault e => rfl
    | pieces b => exact congrArg Draft.pieces List.map_append

@[simp] theorem mapValues_ite (c : Prop) [Decidable c] (a b : Draft) :
    (if c then a else b).mapValues f = if c then a.mapValues f else b.mapValues f :=
  apply_ite (mapValues f) c a b

@[simp] theorem mapValues_keyword (s : String) : (keyword s).mapValues f = keyword s := rfl

@[simp] theorem mapValues_ensure (c : Bool) (fault : ArgumentFault) :
    (ensure c fault).mapValues f = ensure c fault := by
  rw [ensure, mapValues_ite, mapValues_empty, mapValues_fault]

@[simp] theorem mapValues_parenthesized (a : Draft) :
    (parenthesized a).mapValues f = parenthesized (a.mapValues f) := by
  simp only [parenthesized, mapValues_append, mapValues_step]

@[simp] theorem mapValues_concat (l : List Draft) :
    (concat l).mapValues f = concat (l.map (mapValues f)) := by
  induction l with
  | nil => rfl
  | cons a rest ih => rw [concat, mapValues_append, ih, List.map_cons, concat]

@[simp] theorem mapValues_joined (between : Draft) (l : List Draft) :
    (joined between l).mapValues f = joined (between.mapValues f) (l.map (mapValues f)) := by
  induction l with
  | nil => rfl
  | cons a rest ih =>
    cases rest with
    | nil => rfl
    | cons b rest =>
      rw [joined, mapValues_append, mapValues_append, ih]
      · rfl
      · simp

@[simp] theorem mapValues_commaSeparated (l : List Draft) :
    (commaSeparated l).mapValues f = commaSeparated (l.map (mapValues f)) := by
  rw [commaSeparated, mapValues_joined, mapValues_step]

end Draft

/-! ### Assembly -/

/-- Changes the values bound so far. -/
def Assembly.mapArguments (f : Value → Value) (a : Assembly) : Assembly :=
  { a with arguments := a.arguments.map f }

/-- The text does not depend on the values that are bound, so they may as well be exchanged
afterwards. -/
theorem Assembly.add_mapValue (f : Value → Value) (d : Dialect) (a : Assembly) (p : Piece) :
    (a.mapArguments f).add d (p.mapValue f) = (a.add d p).mapArguments f := by
  cases p with
  | layout s => rfl
  | argument name v =>
    show Assembly.mk _ (a.arguments.map f ++ [f v]) _ = Assembly.mk _ ((a.arguments ++ [v]).map f) _
    rw [List.map_append, List.map_singleton]
    rfl

theorem Assembly.addAll_mapValue (f : Value → Value) (d : Dialect) (a : Assembly)
    (l : List Piece) :
    (a.mapArguments f).addAll d (l.map (Piece.mapValue f)) = (a.addAll d l).mapArguments f := by
  induction l generalizing a with
  | nil => rfl
  | cons p rest ih =>
    show ((a.mapArguments f).add d (p.mapValue f)).addAll d (rest.map (Piece.mapValue f)) =
      ((a.add d p).addAll d rest).mapArguments f
    rw [Assembly.add_mapValue, ih]

/-- A changed draft has the same text, the same fault and the changed arguments. -/
theorem Draft.assemble_mapValues (f : Value → Value) (d : Dialect) (layout : Layout) (a : Draft) :
    (a.mapValues f).assemble d layout = (a.assemble d layout).map (Compiled.mapArguments f) := by
  cases a with
  | fault e => rfl
  | pieces l =>
    have h := Assembly.addAll_mapValue f d (Assembly.start layout) l
    show Except.ok ((Assembly.start layout).addAll d (l.map (Piece.mapValue f))).compiled = _
    rw [show Assembly.start layout = (Assembly.start layout).mapArguments f from rfl, h]
    rfl

end SqlTree
