import Mathlib.Data.List.Forall2
import SqlTree.Proofs.Draft.Binds
import SqlTree.Proofs.Draft.Written
import SqlTree.Proofs.Text.Typeset

/-!
# The words of a draft

Layout aside, a draft is a list of words and placeholders: `x.Gives l` says that `x` has no fault
and that these are `l`.  Drafts are put together as their words are (`Draft.Gives.append` and its
siblings).  In every dialect and layout the text of an assembled draft is typeset from its words,
with a placeholder for each argument (`Draft.Gives.assemble`), and so is what a draft adds to a
statement (`Draft.Gives.typeset`).
-/

namespace SqlTree

open Text (Typeset)

/-! ### Words -/

namespace Piece

/-- A text as it is. -/
def word (s : String) : Piece := .layout (.write s)

/-- The words of a piece, or the placeholder that it is. -/
def words : Piece → List Piece
  | .layout s => s.parts.map word
  | .argument name value => [.argument name value]

/-- The name and the value of a placeholder. -/
def argument? : Piece → Option (Option String × Value)
  | .layout _ => none
  | .argument name value => some (name, value)

theorem filterMap_value? (l : List Piece) :
    l.filterMap value? = (l.filterMap argument?).map (·.2) := by
  rw [List.map_filterMap]
  congr 1
  funext p
  cases p <;> rfl

/-- A list of items between words has the placeholders of its items. -/
theorem filterMap_argument?_intercalate {α : Type} (separator : String) (item : α → Piece)
    (l : List α) :
    ([word separator].intercalate (l.map fun a => [item a])).filterMap argument? =
      l.filterMap fun a => argument? (item a) := by
  induction l with
  | nil => rfl
  | cons a rest ih =>
    -- A separator, which holds no argument, stands in front of every item but the first.
    cases rest with
    | nil => exact congrArg (List.filterMap argument?) List.intercalate_singleton
    | cons b rest =>
      have hcons : [word separator].intercalate ((a :: b :: rest).map fun a => [item a]) =
          [item a] ++ [word separator] ++
            [word separator].intercalate ((b :: rest).map fun a => [item a]) :=
        List.intercalate_cons_cons
      rw [hcons, List.filterMap_append, List.filterMap_append, ih,
        List.filterMap_cons (l := b :: rest)]
      cases item a <;> rfl

/-- Cutting texts into words loses no value. -/
theorem value?_words (l : List Piece) :
    (l.flatMap words).filterMap value? = l.filterMap value? := by
  induction l with
  | nil => rfl
  | cons p rest ih =>
    rw [List.flatMap_cons, List.filterMap_append, ih]
    -- Of the pieces only arguments have a value.
    cases p with
    | layout s =>
      have hnone : (words (.layout s)).filterMap value? = [] := by
        rw [List.filterMap_eq_nil_iff]
        intro p hp
        obtain ⟨t, -, rfl⟩ := List.mem_map.mp hp
        rfl
      rw [hnone]
      rfl
    | argument name v => rfl

end Piece

namespace Dialect

/-- The texts of pieces, with a placeholder for each argument, behind `index` placeholders that
carry a name or a number. -/
def texts (d : Dialect) : (index : Nat) → List Piece → List String
  | _, [] => []
  | index, .layout s :: rest => s.parts ++ d.texts index rest
  | index, .argument name _ :: rest =>
    (d.placeholder index name).1 :: d.texts (d.placeholder index name).2 rest

/-- The placeholders among the texts of pieces. -/
def marks (d : Dialect) : (index : Nat) → List Piece → List String
  | _, [] => []
  | index, .layout _ :: rest => d.marks index rest
  | index, .argument name _ :: rest =>
    (d.placeholder index name).1 :: d.marks (d.placeholder index name).2 rest

variable (d : Dialect)

theorem texts_word_append (index : Nat) (parts : List String) (l : List Piece) :
    d.texts index (parts.map Piece.word ++ l) = parts ++ d.texts index l := by
  induction parts with
  | nil => rfl
  | cons s rest ih => exact congrArg (s :: ·) ih

/-- Layout has no text. -/
theorem texts_words (index : Nat) (l : List Piece) :
    d.texts index (l.flatMap Piece.words) = d.texts index l := by
  induction l generalizing index with
  | nil => rfl
  | cons p rest ih =>
    rw [List.flatMap_cons]
    cases p with
    | layout s =>
      rw [texts, ← ih index]
      exact d.texts_word_append index s.parts _
    | argument name v => exact congrArg (_ :: ·) (ih _)

/-- Where placeholders carry names, one without a name gets its number for a name. -/
theorem marks_named (hd : d.mode = .named) (index : Nat) (l : List Piece) :
    d.marks index l = ((l.filterMap Piece.argument?).zipIdx (index + 1)).map fun a =>
      d.token ++ a.1.1.getD ("p" ++ toString a.2) := by
  induction l generalizing index with
  | nil => rfl
  | cons p rest ih =>
    -- Only an argument moves the number on, and only one without a name shows it.
    cases p with
    | layout s => exact ih index
    | argument name v =>
      have hplaceholder : d.placeholder index name =
          (d.token ++ name.getD ("p" ++ toString (index + 1)), index + 1) := by
        rw [placeholder, hd]
      rw [marks, hplaceholder, ih]
      rfl

end Dialect

/-- Pieces are typeset behind the text of a statement. -/
theorem Assembly.typeset_addAll {d : Dialect} {a : Assembly} {parts : List String}
    (h : Typeset parts a.writer.text) (l : List Piece) :
    Typeset (parts ++ d.texts a.index l) (a.addAll d l).writer.text := by
  induction l generalizing a parts with
  | nil => rwa [Dialect.texts, List.append_nil]
  | cons p rest ih =>
    cases p with
    | layout s =>
      have hrest := ih (a := a.add d (.layout s)) (Writer.typeset_apply h s)
      rwa [List.append_assoc] at hrest
    | argument name v =>
      have hrest := ih (a := a.add d (.argument name v)) (Writer.typeset_write h _)
      rwa [List.append_assoc] at hrest

/-! ### Drafts -/

namespace Draft

/-- A draft without a fault that has given words and placeholders. -/
def Gives (x : Draft) (l : List Piece) : Prop := ∃ k, x = .pieces k ∧ k.flatMap Piece.words = l

variable {d : Dialect} {layout : Layout} {x y : Draft} {l m : List Piece}

theorem Sound.exists_gives (h : x.Sound) : ∃ l, x.Gives l := by
  cases x with
  | pieces k => exact ⟨_, k, rfl, rfl⟩
  | fault e => exact h.elim

theorem gives_empty : empty.Gives [] := ⟨[], rfl, rfl⟩

theorem gives_step (s : Writer.Step) : (step s).Gives (s.parts.map Piece.word) :=
  ⟨[.layout s], rfl, List.flatMap_singleton _ _⟩

theorem gives_text (s : String) : (text s).Gives [.word s] := gives_step (.write s)

theorem gives_blank : blank.Gives [] := gives_step .blank

theorem gives_lineBreak : lineBreak.Gives [] := gives_step .lineBreak

theorem gives_argument (name : Option String) (v : Value) :
    (argument name v).Gives [.argument name v] := ⟨[.argument name v], rfl, rfl⟩

theorem Gives.append (hx : x.Gives l) (hy : y.Gives m) : (x ++ y).Gives (l ++ m) := by
  obtain ⟨k, rfl, rfl⟩ := hx
  obtain ⟨k', rfl, rfl⟩ := hy
  exact ⟨k ++ k', rfl, List.flatMap_append⟩

theorem gives_keyword (s : String) : (keyword s).Gives [.word s] :=
  (gives_text s).append gives_blank

theorem Gives.parenthesized (hx : x.Gives l) :
    (parenthesized x).Gives ([.word "("] ++ l ++ [.word ")"]) :=
  ((gives_step .openParenthesis).append hx).append (gives_step .closeParenthesis)

section Lists

variable {drafts : List Draft} {lists : List (List Piece)}

theorem forall₂_gives {α : Type} {part : α → Draft} {words : α → List Piece} {items : List α}
    (h : ∀ a ∈ items, (part a).Gives (words a)) :
    List.Forall₂ Gives (items.map part) (items.map words) :=
  List.forall₂_map_left_iff.mpr (List.forall₂_map_right_iff.mpr (List.forall₂_same.mpr h))

theorem gives_concat (h : List.Forall₂ Gives drafts lists) :
    (concat drafts).Gives lists.flatten := by
  induction h with
  | nil => exact gives_empty
  | cons hx _ ih => exact hx.append ih

theorem gives_joined {between : Draft} {separator : List Piece} (hbetween : between.Gives separator)
    (h : List.Forall₂ Gives drafts lists) :
    (joined between drafts).Gives (separator.intercalate lists) := by
  induction h with
  | nil => exact gives_empty
  | cons hx hrest ih =>
    cases hrest with
    | nil =>
      rw [List.intercalate_singleton]
      exact hx
    | cons hy hrest =>
      rw [List.intercalate_cons_cons]
      exact (hx.append hbetween).append ih

theorem gives_commaSeparated (h : List.Forall₂ Gives drafts lists) :
    (commaSeparated drafts).Gives ([.word ","].intercalate lists) :=
  gives_joined (gives_step .comma) h

end Lists

/-! ### Assembly -/

/-- What a draft adds to a statement is typeset from its words. -/
theorem Gives.typeset (hx : x.Gives l) {a b : Assembly} (hb : x.addTo d a = .ok b)
    {parts : List String} (h : Typeset parts a.writer.text) :
    Typeset (parts ++ d.texts a.index l) b.writer.text := by
  obtain ⟨k, rfl, rfl⟩ := hx
  cases hb
  rw [d.texts_words]
  exact Assembly.typeset_addAll h k

/-- A draft without a fault assembles to a text that is typeset from its words. -/
theorem Gives.assemble (hx : x.Gives l) (d : Dialect) (layout : Layout) :
    ∃ r, x.assemble d layout = .ok r ∧ Typeset (d.texts 0 l) r.sql.toList ∧
      r.arguments = l.filterMap Piece.value? := by
  have htypeset := fun b hb =>
    hx.typeset (d := d) (a := Assembly.start layout) (b := b) hb Text.typeset_nil
  obtain ⟨k, rfl, rfl⟩ := hx
  refine ⟨_, rfl, ?_, ?_⟩
  · show Typeset _ (String.ofList _).toList
    rw [String.toList_ofList]
    exact htypeset _ rfl
  · show ((Assembly.start layout).addAll d k).arguments = _
    rw [Assembly.arguments_addAll, Piece.value?_words]
    rfl

end Draft

end SqlTree
