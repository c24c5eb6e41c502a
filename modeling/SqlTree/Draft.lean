import SqlTree.Dialect.Basic
import SqlTree.Error
import SqlTree.Writer

/-!
# Drafts

A `Draft` is the outcome of rendering a part of a statement before layout and placeholders are
chosen: the pieces that it consists of, or the first fault in it.  Drafts are joined by `++`, which
keeps the fault that comes first (`fault_append`, `pieces_append_fault`); it is associative with
`Draft.empty` as its unit.  `assemble` lays the pieces out and hands out the placeholders, one for
each bound value.
-/

namespace SqlTree

/-- A piece of a statement. -/
inductive Piece where
  /-- A call to the writer. -/
  | layout (step : Writer.Step)
  /-- A placeholder for a value, with the name that it may carry. -/
  | argument (name : Option String) (value : Value)

/-- A part of a statement before layout and placeholders are chosen. -/
inductive Draft where
  /-- The pieces that it consists of. -/
  | pieces (l : List Piece)
  /-- The first fault in it. -/
  | fault (e : Error)

namespace Draft

/-- No pieces. -/
def empty : Draft := .pieces []

/-- One call to the writer. -/
def step (s : Writer.Step) : Draft := .pieces [.layout s]

/-- A text as it is. -/
def text (s : String) : Draft := step (.write s)

/-- A space where one is due. -/
def blank : Draft := step .blank

/-- A new line. -/
def lineBreak : Draft := step .lineBreak

/-- A placeholder for a value. -/
def argument (name : Option String) (value : Value) : Draft := .pieces [.argument name value]

/-- One draft after another; the first fault counts. -/
def append : Draft → Draft → Draft
  | .pieces a, .pieces b => .pieces (a ++ b)
  | .pieces _, .fault e => .fault e
  | .fault e, _ => .fault e

instance : Append Draft := ⟨append⟩

/-- Drafts one after another. -/
def concat : List Draft → Draft
  | [] => empty
  | d :: rest => d ++ concat rest

/-- Drafts with something between each two. -/
def joined (between : Draft) : List Draft → Draft
  | [] => empty
  | [d] => d
  | d :: rest => d ++ between ++ joined between rest

/-- Drafts separated by commas. -/
def commaSeparated : List Draft → Draft := joined (step .comma)

/-- A draft in parentheses. -/
def parenthesized (d : Draft) : Draft := step .openParenthesis ++ d ++ step .closeParenthesis

/-- Nothing if a condition holds, else a fault. -/
def ensure (condition : Bool) (fault : ArgumentFault) : Draft :=
  if condition then empty else .fault (.invalidArgument fault)

/-- A keyword and a space. -/
def keyword (s : String) : Draft := text s ++ blank

/-! ### Laws -/

@[simp] theorem pieces_append_pieces (a b : List Piece) :
    Draft.pieces a ++ Draft.pieces b = .pieces (a ++ b) := rfl

/-- A fault ends a draft, whatever comes behind it. -/
@[simp] theorem fault_append (e : Error) (d : Draft) : Draft.fault e ++ d = .fault e := rfl

@[simp] theorem pieces_append_fault (a : List Piece) (e : Error) :
    Draft.pieces a ++ Draft.fault e = .fault e := rfl

@[simp] theorem empty_append (d : Draft) : empty ++ d = d := by
  cases d <;> rfl

@[simp] theorem append_empty (d : Draft) : d ++ empty = d := by
  cases d with
  | fault e => rfl
  | pieces a => exact congrArg Draft.pieces (List.append_nil a)

/-- The first fault of three drafts is the same either way. -/
theorem append_assoc (a b c : Draft) : a ++ b ++ c = a ++ (b ++ c) := by
  cases a with
  | fault e => rfl
  | pieces a =>
    cases b with
    | fault e => rfl
    | pieces b =>
      cases c with
      | fault e => rfl
      | pieces c => exact congrArg Draft.pieces (List.append_assoc a b c)

end Draft

/-! ### Assembly -/

/-- A statement while its pieces are laid out. -/
structure Assembly where
  /-- The text so far. -/
  writer : Writer
  /-- The values bound so far. -/
  arguments : List Value := []
  /-- The number of placeholders so far that carry a name or a number. -/
  index : Nat := 0

namespace Assembly

/-- The start of a statement. -/
def start (layout : Layout) : Assembly := { writer := { layout := layout } }

/-- Adds a piece. -/
def add (d : Dialect) (a : Assembly) : Piece → Assembly
  | .layout step => { a with writer := a.writer.apply step }
  | .argument name value =>
    let (text, index) := d.placeholder a.index name
    ⟨a.writer.write text, a.arguments ++ [value], index⟩

/-- Adds pieces in order. -/
def addAll (d : Dialect) (a : Assembly) (pieces : List Piece) : Assembly := pieces.foldl (add d) a

/-- The statement as it stands. -/
def compiled (a : Assembly) : Compiled := ⟨String.ofList a.writer.text, a.arguments⟩

end Assembly

/-- The statement that a draft becomes in a dialect and a layout. -/
def Draft.assemble (d : Dialect) (layout : Layout) : Draft → Except Error Compiled
  | .pieces l => .ok ((Assembly.start layout).addAll d l).compiled
  | .fault e => .error e

end SqlTree
