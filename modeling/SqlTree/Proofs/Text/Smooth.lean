import SqlTree.Proofs.Statement.Closure
import SqlTree.Proofs.Text.Collapse

/-!
# Texts that collapse to themselves

A smooth text can be written behind another one so that collapsing changes nothing in it
(`Collapsed.finish_read_append`) and nothing clashes.  Names without spacing, parentheses and commas
are smooth behind anything (`Text.Bare.smooth`), and so are the words of the language
(`smooth_words`).
-/

namespace SqlTree

/-! ### Characters -/

/-- A character that neither separates words nor swallows a space in front of it. -/
def isSolid (c : Char) : Bool := !isSpacing c && c != ')' && c != ','

/-- Whether a character can stand behind another one, or at the start, so that collapsing changes
nothing. -/
def fits : Option Char → Char → Bool
  | none, c => isSolid c
  | some a, c => isSolid c || (!isSpacing a && (c == ')' || c == ',' || (c == ' ' && a != '(')))

/-- Whether a text can stand behind a character, or at the start, so that collapsing changes
nothing. -/
def smooth : Option Char → List Char → Bool
  | _, [] => true
  | before, c :: rest => fits before c && smooth (some c) rest

theorem fits_of_isSolid {c : Char} (hc : isSolid c = true) (before : Option Char) :
    fits before c = true := by
  cases before with
  | none => exact hc
  | some a => simp [fits, hc]

/-- A text that is smooth at the start is smooth behind anything. -/
theorem smooth_of_none {cs : List Char} (h : smooth none cs = true) (before : Option Char) :
    smooth before cs = true := by
  cases cs with
  | nil => rfl
  | cons c rest =>
    rw [smooth, Bool.and_eq_true] at h ⊢
    exact ⟨fits_of_isSolid h.1 before, h.2⟩

theorem smooth_append {cs ds : List Char} {before : Option Char} (hcs : smooth before cs = true)
    (hds : ∀ after, smooth after ds = true) : smooth before (cs ++ ds) = true := by
  induction cs generalizing before with
  | nil => exact hds before
  | cons c rest ih =>
    rw [smooth, Bool.and_eq_true] at hcs
    rw [List.cons_append, smooth, Bool.and_eq_true]
    exact ⟨hcs.1, ih hcs.2⟩

/-- Whatever can stand behind a solid character can stand behind a text of them. -/
theorem smooth_append_of_solid {cs ds : List Char} {before : Option Char}
    (hcs : ∀ c ∈ cs, isSolid c = true ∧ c ≠ '(') (hempty : cs = [] → smooth before ds = true)
    (hds : ∀ c, isSpacing c = false → c ≠ '(' → smooth (some c) ds = true) :
    smooth before (cs ++ ds) = true := by
  induction cs generalizing before with
  | nil => exact hempty rfl
  | cons c rest ih =>
    obtain ⟨hc, hopen⟩ := hcs c List.mem_cons_self
    have hspacing : isSpacing c = false := by
      simp only [isSolid, Bool.and_eq_true, Bool.not_eq_true'] at hc
      exact hc.1.1
    rw [List.cons_append, smooth, Bool.and_eq_true]
    refine ⟨fits_of_isSolid hc before, ?_⟩
    exact ih (fun d hd => hcs d (List.mem_cons_of_mem c hd)) fun _ => hds c hspacing hopen

theorem clash_of_fits {a c : Char} (h : fits (some a) c = true) : clash a c = false := by
  simp only [fits, isSolid, Bool.or_eq_true, Bool.and_eq_true, Bool.not_eq_true', bne_iff_ne,
    beq_iff_eq] at h
  -- A solid character fits behind anything, and a space behind what may have one.
  rcases h with ⟨⟨hspacing, hclose⟩, hcomma⟩ | ⟨ha, hc⟩
  · have hspace : c ≠ ' ' := by
      rintro rfl
      exact absurd hspacing (by decide)
    simp [clash, hspace, hclose, hcomma]
  · have hspace : a ≠ ' ' := by
      rintro rfl
      exact absurd ha (by decide)
    rcases hc with (rfl | rfl) | ⟨rfl, hopen⟩ <;> simp_all [clash]

namespace Collapsed

/-- A character that fits is put out at once. -/
theorem finish_read_cons {cs : List Char} {c : Char} (h : fits cs.head? c = true) :
    (read (c :: cs)).finish = c :: (read cs).finish := by
  -- A solid character decides that the run in front of it becomes a space.
  have hsolid (hc : isSolid c = true) : (read (c :: cs)).finish = c :: (read cs).finish := by
    simp only [isSolid, Bool.and_eq_true, Bool.not_eq_true'] at hc
    rw [finish_read_solid hc.1.1, read_solid hc.1.1, finish]
    simp [hc.1.2, hc.2]
  cases cs with
  | nil => exact hsolid h
  | cons a rest =>
    simp only [List.head?_cons, fits, Bool.or_eq_true, Bool.and_eq_true, Bool.not_eq_true'] at h
    rcases h with hc | ⟨ha, hc⟩
    · exact hsolid hc
    · -- There is no run in front of the character.
      have hout : (read (a :: rest)).finish = (read (a :: rest)).out := finish_read_solid ha rest
      have hgap : (read (a :: rest)).gap = false := by rw [read_solid ha]; rfl
      simp only [beq_iff_eq, bne_iff_ne] at hc
      rw [hout]
      rcases hc with (rfl | rfl) | ⟨rfl, hopen⟩
      · rw [finish_read_solid (by decide), read_solid (by decide), hgap]
        rfl
      · rw [finish_read_solid (by decide), read_solid (by decide), hgap]
        rfl
      · have hhead : ((read (a :: rest)).out.head? != some '(') = true := by
          rw [read_solid ha]
          exact bne_iff_ne.mpr fun h => hopen (Option.some.inj h)
        rw [finish, gap_read_spacing (by decide), hhead, if_pos rfl, out_read_spacing (by decide)]

/-- A smooth text is collapsed to itself. -/
theorem finish_read_append {cs u : List Char} (h : smooth cs.head? u = true) :
    (read (u.reverse ++ cs)).finish = u.reverse ++ (read cs).finish := by
  induction u generalizing cs with
  | nil => rfl
  | cons c rest ih =>
    rw [smooth, Bool.and_eq_true] at h
    rw [List.reverse_cons, List.append_assoc, List.append_assoc]
    show (read (rest.reverse ++ c :: cs)).finish = _
    have hrest : smooth (c :: cs).head? rest = true := h.2
    rw [ih hrest, finish_read_cons h.1]
    rfl

end Collapsed

/-- A smooth text may be written behind a tidy one. -/
theorem TidyReversed.append_smooth {cs u : List Char} (hcs : TidyReversed cs)
    (h : smooth cs.head? u = true) : TidyReversed (u.reverse ++ cs) := by
  induction u generalizing cs with
  | nil => exact hcs
  | cons c rest ih =>
    rw [smooth, Bool.and_eq_true] at h
    rw [List.reverse_cons, List.append_assoc]
    have hrest : smooth (c :: cs).head? rest = true := h.2
    refine ih ⟨fun a ha => clash_of_fits ?_, hcs⟩ hrest
    rw [← ha]
    exact h.1

/-- Behind anything but spacing and an opening parenthesis there may be a space. -/
theorem smooth_space {c : Char} (hspacing : isSpacing c = false) (hopen : c ≠ '(') {cs : List Char}
    (hcs : smooth (some ' ') cs = true) : smooth (some c) (' ' :: cs) = true := by
  rw [smooth, hcs, Bool.and_true]
  simp [fits, hspacing, hopen]

/-- Behind anything but spacing there may be a comma. -/
theorem smooth_comma {c : Char} (hspacing : isSpacing c = false) {cs : List Char}
    (hcs : smooth (some ',') cs = true) : smooth (some c) (',' :: cs) = true := by
  rw [smooth, hcs, Bool.and_true]
  simp [fits, hspacing]

/-! ### Strings -/

namespace Text

/-- A string without spacing, parentheses and commas. -/
def Bare (s : String) : Prop := ∀ c ∈ s.toList, isSolid c = true ∧ c ≠ '('

instance (s : String) : Decidable (Bare s) := List.decidableBAll _ s.toList

/-- A string that is smooth at the start of a text, and so behind anything. -/
def Smooth (s : String) : Prop := smooth none s.toList = true

instance (s : String) : Decidable (Smooth s) := inferInstanceAs (Decidable (_ = true))

/-- What is made of characters of a bare string is bare. -/
theorem Bare.of_subset {s : String} (hs : Bare s) {cs : List Char} (h : ∀ c ∈ cs, c ∈ s.toList) :
    Bare (String.ofList cs) := by
  rw [Bare, String.toList_ofList]
  exact fun c hc => hs c (h c hc)

theorem Bare.append {s t : String} (hs : Bare s) (ht : Bare t) : Bare (s ++ t) := by
  rw [Bare, String.toList_append]
  exact fun c hc => (List.mem_append.mp hc).elim (hs c) (ht c)

/-- A text of solid characters is smooth. -/
theorem Bare.smooth {s : String} (hs : Bare s) : Smooth s := by
  have h : SqlTree.smooth none (s.toList ++ []) = true :=
    smooth_append_of_solid hs (fun _ => rfl) fun _ _ _ => rfl
  rwa [List.append_nil] at h

theorem Smooth.append {s t : String} (hs : Smooth s) (ht : Smooth t) : Smooth (s ++ t) := by
  rw [Smooth, String.toList_append]
  exact smooth_append hs (smooth_of_none ht)

/-- Whatever can stand behind a bare character can stand behind a bare name. -/
theorem Bare.smooth_append {s t : String} (hs : Bare s) (hne : s ≠ "")
    (ht : ∀ c, isSpacing c = false → c ≠ '(' → SqlTree.smooth (some c) t.toList = true) :
    Smooth (s ++ t) := by
  have hempty : s.toList ≠ [] := by
    intro h
    apply hne
    rw [← String.ofList_toList (s := s), h]
  rw [Smooth, String.toList_append]
  exact smooth_append_of_solid hs (fun h => absurd h hempty) ht

/-! ### Numerals and names -/

theorem bare_toString (n : Nat) : Bare (toString n) := by
  intro c hc
  have hdigit := isDigit_of_mem_toString hc
  have hne {x : Char} (hx : x.isDigit = false) : c ≠ x := by
    rintro rfl
    rw [hdigit] at hx
    cases hx
  refine ⟨?_, hne (by decide)⟩
  simp only [isSolid, isSpacing, Bool.and_eq_true, Bool.not_eq_true', Bool.or_eq_false_iff,
    beq_eq_false_iff_ne, bne_iff_ne]
  exact ⟨⟨⟨⟨hne (by decide), hne (by decide)⟩, hne (by decide)⟩, hne (by decide)⟩, hne (by decide)⟩

theorem toString_ne_empty (n : Nat) : toString n ≠ "" := by
  intro h
  have htoList : (toString n).toList = [] := by rw [h]; rfl
  rw [Nat.toString_eq_repr, Nat.toList_repr] at htoList
  exact Nat.toDigits_ne_nil htoList

/-- Quotes that are bare leave a bare identifier bare. -/
theorem bare_quoteWith {mark : Char} (hmark : isSolid mark = true ∧ mark ≠ '(') {s : String}
    (hs : Bare s) : Bare (quoteWith mark s) := by
  intro c hc
  rw [quoteWith, String.toList_ofList, List.cons_append, List.mem_cons, List.mem_append,
    List.mem_flatMap, List.mem_singleton] at hc
  rcases hc with rfl | ⟨x, hx, hcx⟩ | rfl
  · exact hmark
  · split at hcx
    · have hcx : c = mark := by simpa using hcx
      exact hcx ▸ hmark
    · rw [List.mem_singleton] at hcx
      exact hcx ▸ hs x hx
  · exact hmark

theorem quoteWith_ne_empty (mark : Char) (s : String) : quoteWith mark s ≠ "" := by
  intro h
  have htoList : (quoteWith mark s).toList = [] := by rw [h]; rfl
  rw [quoteWith, String.toList_ofList] at htoList
  cases htoList

theorem bare_unqualified {s : String} (hs : Bare s) : Bare (unqualified s) := by
  apply hs.of_subset
  intro c hc
  rw [List.mem_reverse] at hc
  exact List.mem_reverse.mp ((List.takeWhile_sublist _).subset hc)

theorem bare_trimmed {s : String} (hs : Bare s) : Bare (trimmed s) := by
  apply hs.of_subset
  intro c hc
  have hstart : c ∈ trimStart s.toList :=
    List.mem_reverse.mp ((List.dropWhile_sublist _).subset (List.mem_reverse.mp hc))
  exact (List.dropWhile_sublist _).subset hstart

/-- The name of a column: it is not empty and does not end in a point. -/
def ColumnName (s : String) : Prop := s ≠ "" ∧ s.toList.getLast? ≠ some '.'

/-- The name of a column does not end in a dot, so that its last part is not empty. -/
theorem unqualified_ne_empty {s : String} (hs : ColumnName s) : unqualified s ≠ "" := by
  obtain ⟨hne, hlast⟩ := hs
  intro h
  have htoList : (unqualified s).toList = [] := by rw [h]; rfl
  rw [unqualified, String.toList_ofList, List.reverse_eq_nil_iff] at htoList
  rw [← List.head?_reverse] at hlast
  cases hreverse : s.toList.reverse with
  | nil =>
    apply hne
    rw [← String.ofList_toList (s := s), List.reverse_eq_nil_iff.mp hreverse]
  | cons c rest =>
    rw [hreverse] at htoList hlast
    have hc : c ≠ '.' := fun hc => hlast (congrArg some hc)
    simp [hc] at htoList

/-- Bare names with commas between them are smooth. -/
theorem smooth_intercalate {l : List String} (hl : ∀ s ∈ l, Bare s ∧ s ≠ "") :
    Smooth (", ".intercalate l) := by
  induction l with
  | nil => rfl
  | cons s rest ih =>
    obtain ⟨hs, hne⟩ := hl s List.mem_cons_self
    have hrest := ih fun t ht => hl t (List.mem_cons_of_mem s ht)
    -- The separator stands behind a name, where a comma and a space fit.
    cases rest with
    | nil =>
      rw [String.intercalate_singleton]
      exact hs.smooth
    | cons t rest =>
      rw [String.intercalate_cons_cons, String.append_assoc]
      refine hs.smooth_append hne fun c hspacing hopen => ?_
      rw [String.toList_append]
      exact smooth_comma hspacing (smooth_space (by decide) (by decide) (smooth_of_none hrest _))

end Text

theorem smooth_words : ∀ s ∈ words, Text.Smooth s := by decide

end SqlTree
