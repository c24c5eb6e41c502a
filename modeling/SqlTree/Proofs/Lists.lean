/-!
# Partial functions along a list

A partial function along a list undoes a map (`mapM_map_eq_some`), is a map where it finds something
in every element (`mapM_eq_some_of_map_eq`), and what it finds comes from the elements of the list
(`exists_of_mem_mapM`) and stands in their places (`exists_getElem?_mapM`).  What it finds first
does not depend on the order if there is at most one thing to find (`findSome?_perm`).
-/

namespace SqlTree

variable {α β : Type}

/-- A reader that undoes a writer does so along a list. -/
theorem mapM_map_eq_some {read : β → Option α} {write : α → β} {l : List α}
    (h : ∀ a ∈ l, read (write a) = some a) : (l.map write).mapM read = some l := by
  induction l with
  | nil => rfl
  | cons a l ih =>
    rw [List.map_cons, List.mapM_cons, h a List.mem_cons_self,
      ih fun x hx => h x (List.mem_cons_of_mem a hx)]
    rfl

/-- A partial map that finds something in every element finds the list of it. -/
theorem mapM_eq_some_of_map_eq {f : α → Option β} {l : List α} {m : List β}
    (h : l.map f = m.map some) : l.mapM f = some m := by
  have hid : (l.map f).mapM id = l.mapM f := List.mapM_map
  rw [← hid, h]
  exact mapM_map_eq_some fun _ _ => rfl

/-- What a partial map finds comes from the elements of the list. -/
theorem exists_of_mem_mapM {f : α → Option β} {l : List α} {found : List β}
    (h : l.mapM f = some found) : ∀ b ∈ found, ∃ a ∈ l, f a = some b := by
  induction l generalizing found with
  | nil =>
    obtain rfl := Option.some.inj h
    exact fun b hb => absurd hb List.not_mem_nil
  | cons a rest ih =>
    rw [List.mapM_cons] at h
    obtain ⟨b, hb, h⟩ := Option.bind_eq_some_iff.mp h
    obtain ⟨bs, hbs, h⟩ := Option.bind_eq_some_iff.mp h
    obtain rfl := Option.some.inj h
    intro c hc
    rcases List.mem_cons.mp hc with rfl | hc
    · exact ⟨a, List.mem_cons_self, hb⟩
    · obtain ⟨x, hx, hfx⟩ := ih hbs c hc
      exact ⟨x, List.mem_cons_of_mem a hx, hfx⟩

/-- What a partial map finds in an element stands in the place of the element. -/
theorem exists_getElem?_mapM {f : α → Option β} {front behind : List α} {a : α} {found : List β}
    (h : (front ++ a :: behind).mapM f = some found) :
    ∃ b, f a = some b ∧ found[front.length]? = some b := by
  induction front generalizing found with
  | nil =>
    rw [List.nil_append, List.mapM_cons] at h
    obtain ⟨b, hb, h⟩ := Option.bind_eq_some_iff.mp h
    obtain ⟨bs, -, h⟩ := Option.bind_eq_some_iff.mp h
    obtain rfl := Option.some.inj h
    exact ⟨b, hb, rfl⟩
  | cons x front ih =>
    rw [List.cons_append, List.mapM_cons] at h
    obtain ⟨y, -, h⟩ := Option.bind_eq_some_iff.mp h
    obtain ⟨bs, hbs, h⟩ := Option.bind_eq_some_iff.mp h
    obtain rfl := Option.some.inj h
    exact ih hbs

/-- What is found first along a list is the same in any order if no two elements have something to
find. -/
theorem findSome?_perm {f : α → Option β} {l m : List α} (h : l.Perm m)
    (hl : l.Pairwise fun a b => f a = none ∨ f b = none) : l.findSome? f = m.findSome? f := by
  induction h with
  | nil => rfl
  | cons a _ ih =>
    rw [List.findSome?_cons, List.findSome?_cons, ih (List.pairwise_cons.mp hl).2]
  | swap a b l =>
    have hab := (List.pairwise_cons.mp hl).1 a List.mem_cons_self
    simp only [List.findSome?_cons]
    rcases hab with hnone | hnone <;> rw [hnone]
  | trans h _ ih ih' => exact (ih hl).trans (ih' (h.pairwise hl fun hab => hab.symm))

end SqlTree
