import SqlTree.Proofs.Json.Scalars

/-!
# Documents that are read back

Main statements, `Printable.spells_compact` and `Printable.spells_pretty`: the text that is written
of a document stands for that document, in either layout, if its numbers can be written.

The layouts differ in blanks alone (`Style.Blank`), and blanks are skipped in front of every part.
The induction is on the document: items and members are read back one after the other if each of
them is (`readItems?_writeItems`, `readMembers?_writeMembers`), with two steps of fuel for every
character.
-/

namespace SqlTree.Json

/-! ### Documents with a text -/

/-- A document whose parts all have a text of their own: whole numbers of at most sixty-four bits,
signed or unsigned, and finite floats. -/
inductive Printable : Json → Prop
  | null : Printable .null
  | bool (b : Bool) : Printable (.bool b)
  | int {n : Int} (low : -0x8000000000000000 ≤ n) (high : n < 0x10000000000000000) :
    Printable (.int n)
  | float {x : Float} (h : x.isFinite = true) : Printable (.float x)
  | string (s : String) : Printable (.string s)
  | array {items : List Json} (h : ∀ j ∈ items, Printable j) : Printable (.array items)
  | object {members : List (String × Json)} (h : ∀ m ∈ members, Printable m.2) :
    Printable (.object members)

/-- A layout sets parts apart by blanks, and keys from values by a colon and blanks. -/
structure Style.Blank (style : Style) : Prop where
  gap : ∀ depth, ∀ c ∈ (style.gap depth).toList, isSpace c = true
  colon : ∃ blank, style.colon.toList = ':' :: blank ∧ ∀ c ∈ blank, isSpace c = true

theorem Style.compact_blank : Style.compact.Blank where
  gap := fun _ _ hc => absurd hc List.not_mem_nil
  colon := ⟨[], rfl, fun _ hc => absurd hc List.not_mem_nil⟩

theorem Style.pretty_blank : Style.pretty.Blank where
  gap := by
    intro depth c hc
    rw [Style.pretty, String.toList_append] at hc
    rcases List.mem_append.mp hc with hc | hc
    · obtain rfl := List.mem_singleton.mp hc
      rfl
    · rw [String.toList_ofList] at hc
      rw [List.eq_of_mem_replicate hc]
      rfl
  colon := ⟨[' '], rfl, fun c hc => by rw [List.mem_singleton.mp hc]; rfl⟩

/-! ### One part at a time -/

section Parts

variable {number : Decimal.Numeral → Json} {fuel : Nat} {cs rest blank : List Char}

theorem skipSpace_append (hblank : ∀ c ∈ blank, isSpace c = true) (cs : List Char) :
    skipSpace (blank ++ cs) = skipSpace cs := List.dropWhile_append_of_pos hblank

theorem skipSpace_cons {c : Char} (hc : isSpace c = false) (cs : List Char) :
    skipSpace (c :: cs) = c :: cs := List.dropWhile_cons_of_neg (by rw [hc]; decide)

/-- Blanks in front of a document are skipped. -/
theorem read?_append (hblank : ∀ c ∈ blank, isSpace c = true) (cs : List Char) :
    read? number fuel (blank ++ cs) = read? number fuel cs := by
  cases fuel with
  | zero => rfl
  | succ fuel => rw [read?, read?, skipSpace_append hblank]

/-- A number starts with a digit or with a minus sign. -/
theorem head_of_numeral? {r : Decimal.Numeral × List Char} (h : numeral? cs = some r) :
    ∃ c tail, cs = c :: tail ∧ (c.isDigit = true ∨ c = '-') := by
  -- There is a digit in front of the point, so only a sign can come earlier.
  have hinteger : ∀ {cs : List Char} {p}, integerPart? cs = some p →
      ∃ c tail, cs = c :: tail ∧ c.isDigit = true := by
    intro cs p hp
    cases cs with
    | nil => cases hp
    | cons c tail =>
      refine ⟨c, tail, rfl, ?_⟩
      by_contra hc
      rw [Bool.not_eq_true] at hc
      rw [integerPart?, Decimal.spanDigits, Decimal.digit?_of_not_isDigit hc] at hp
      cases hp
  unfold numeral? at h
  split at h
  next negative tail heq =>
  obtain ⟨p, hp, -⟩ := Option.bind_eq_some_iff.mp h
  obtain ⟨c, rest, rfl, hc⟩ := hinteger hp
  split at heq
  · next tail' => exact ⟨'-', tail', rfl, .inr rfl⟩
  · exact ⟨c, rest, (Prod.mk.inj heq).2, .inl hc⟩

/-- What starts as a numeral starts as no other document, so it is read as a number. -/
theorem read?_of_numeral? {n : Decimal.Numeral} (h : numeral? cs = some (n, rest)) :
    read? number (fuel + 1) cs = some (number n, rest) := by
  obtain ⟨c, tail, rfl, hc⟩ := head_of_numeral? h
  -- The branches of the other documents ask for characters that are no digits.
  have hother : ∀ d : Char, d.isDigit = false → d ≠ '-' → c ≠ d := by
    rintro d hdigit hminus rfl
    exact hc.elim (fun h => Bool.false_ne_true (hdigit.symm.trans h)) hminus
  have hspace : isSpace c = false := by
    simp only [isSpace, Bool.or_eq_false_iff, beq_eq_false_iff_ne]
    exact ⟨⟨⟨hother _ rfl (by decide), hother _ rfl (by decide)⟩, hother _ rfl (by decide)⟩,
      hother _ rfl (by decide)⟩
  rw [read?, skipSpace_cons hspace]
  split
  · next heq => exact absurd (List.cons.inj heq).1 (hother _ rfl (by decide))
  · next heq => exact absurd (List.cons.inj heq).1 (hother _ rfl (by decide))
  · next heq => exact absurd (List.cons.inj heq).1 (hother _ rfl (by decide))
  · next heq => exact absurd (List.cons.inj heq).1 (hother _ rfl (by decide))
  · next heq => exact absurd (List.cons.inj heq).1 (hother _ rfl (by decide))
  · next heq => exact absurd (List.cons.inj heq).1 (hother _ rfl (by decide))
  · rw [h]
    rfl

theorem read?_null (cs : List Char) :
    read? number (fuel + 1) ("null".toList ++ cs) = some (.null, cs) := rfl

theorem read?_bool (b : Bool) (cs : List Char) :
    read? number (fuel + 1) ((scalarText (.bool b)).toList ++ cs) = some (.bool b, cs) := by
  cases b <;> rfl

theorem toList_quoted (s : String) :
    (quoted s).toList = '"' :: (s.toList.flatMap escaped ++ ['"']) := by
  simp only [quoted, String.toList_append, String.toList_ofList]
  rfl

/-- A quoted text is read back character by character, up to the quote that ends it. -/
theorem read?_string (s : String) (cs : List Char) :
    read? number (fuel + 1) ((quoted s).toList ++ cs) = some (.string s, cs) := by
  rw [toList_quoted, List.cons_append, List.append_assoc, List.singleton_append, read?,
    skipSpace_cons (by decide)]
  show (stringUnits? (s.toList.flatMap escaped ++ '"' :: cs)).bind _ = _
  rw [stringUnits?_flatMap_escaped, Option.bind_some]
  dsimp only
  rw [charsOfUnits?_map_toNat]
  show some (Json.string (String.ofList s.toList), cs) = _
  rw [String.ofList_toList]

/-! ### Items and members one by one -/

variable {item : Json} {items : List Json} {members : List (Option String × Json)}
  {mid more : List Char}

/-- A bracket behind an item ends the array. -/
theorem readItems?_last (h : read? number fuel cs = some (item, mid))
    (hmid : skipSpace mid = ']' :: rest) :
    readItems? number (fuel + 1) cs = some ([item], rest) := by
  rw [readItems?, h]
  dsimp only [Option.bind_eq_bind, Option.bind_some]
  rw [hmid]
  rfl

/-- A comma behind an item asks for another one. -/
theorem readItems?_next (h : read? number fuel cs = some (item, mid))
    (hmid : skipSpace mid = ',' :: more)
    (hmore : readItems? number fuel more = some (items, rest)) :
    readItems? number (fuel + 1) cs = some (item :: items, rest) := by
  rw [readItems?, h]
  dsimp only [Option.bind_eq_bind, Option.bind_some]
  rw [hmid]
  show (readItems? number fuel more).bind _ = _
  rw [hmore]
  rfl

/-- A key and its value up to what follows them. -/
theorem readMembers?_key (s : String) (hblank : ∀ c ∈ blank, isSpace c = true)
    (h : read? number fuel cs = some (item, mid)) :
    readMembers? number (fuel + 1) ((quoted s).toList ++ (':' :: blank ++ cs)) =
      match skipSpace mid with
      | ',' :: rest => do
        let (members, tail) ← readMembers? number fuel rest
        return ((some s, item) :: members, tail)
      | '\x7d' :: tail => some ([(some s, item)], tail)
      | _ => none := by
  rw [toList_quoted, List.cons_append, List.append_assoc, List.singleton_append, readMembers?,
    skipSpace_cons (by decide)]
  show (stringUnits? (s.toList.flatMap escaped ++ '"' :: (':' :: blank ++ cs))).bind _ = _
  rw [stringUnits?_flatMap_escaped, Option.bind_some]
  dsimp only
  rw [List.cons_append, skipSpace_cons (by decide)]
  show (read? number fuel (blank ++ cs)).bind _ = _
  rw [read?_append hblank, h, Option.bind_some, charsOfUnits?_map_toNat, Option.map_some,
    String.ofList_toList]
  rfl

/-- A brace behind a member ends the object. -/
theorem readMembers?_last (s : String) (hblank : ∀ c ∈ blank, isSpace c = true)
    (h : read? number fuel cs = some (item, mid)) (hmid : skipSpace mid = '\x7d' :: rest) :
    readMembers? number (fuel + 1) ((quoted s).toList ++ (':' :: blank ++ cs)) =
      some ([(some s, item)], rest) := by
  rw [readMembers?_key s hblank h, hmid]
  rfl

/-- A comma behind a member asks for another one. -/
theorem readMembers?_next (s : String) (hblank : ∀ c ∈ blank, isSpace c = true)
    (h : read? number fuel cs = some (item, mid)) (hmid : skipSpace mid = ',' :: more)
    (hmore : readMembers? number fuel more = some (members, rest)) :
    readMembers? number (fuel + 1) ((quoted s).toList ++ (':' :: blank ++ cs)) =
      some ((some s, item) :: members, rest) := by
  rw [readMembers?_key s hblank h, hmid]
  show (readMembers? number fuel more).bind _ = _
  rw [hmore]
  rfl

/-- Blanks in front of members are skipped. -/
theorem readMembers?_append (hblank : ∀ c ∈ blank, isSpace c = true) (cs : List Char) :
    readMembers? number fuel (blank ++ cs) = readMembers? number fuel cs := by
  cases fuel with
  | zero => rfl
  | succ fuel => rw [readMembers?, readMembers?, skipSpace_append hblank]

/-- An array is what its items are up to its closing bracket, if there are any. -/
theorem read?_array (h : readItems? number fuel more = some (items, rest)) :
    read? number (fuel + 1) ('[' :: more) = some (.array items, rest) := by
  rw [read?, skipSpace_cons (by decide)]
  -- The opening bracket decides which part is read.
  split
  · next heq => exact absurd (List.cons.inj heq).1 (by decide)
  · next behind heq =>
    obtain rfl := (List.cons.inj heq).2
    split
    · next tail hclosed =>
      -- No item starts with a closing bracket.
      obtain ⟨fuel, rfl⟩ : ∃ k, fuel = k + 1 := by
        cases fuel with
        | zero => cases h
        | succ fuel => exact ⟨fuel, rfl⟩
      have hnone : read? number fuel more = none := by
        cases fuel with
        | zero => rfl
        | succ fuel =>
          rw [read?, hclosed]
          rfl
      rw [readItems?, hnone] at h
      cases h
    · rw [h]
      rfl
  · next heq => exact absurd (List.cons.inj heq).1 (by decide)
  · next heq => exact absurd (List.cons.inj heq).1 (by decide)
  · next heq => exact absurd (List.cons.inj heq).1 (by decide)
  · next heq => exact absurd (List.cons.inj heq).1 (by decide)
  · next _ hbracket _ _ _ _ => exact (hbracket more rfl).elim

/-- Keys that were written can all be read, so none of them is missing. -/
theorem mapM_key (members : List (String × Json)) :
    (members.map fun m => (some m.1, m.2)).mapM
      (fun (m : Option String × Json) => m.1.map fun key => (key, m.2)) = some members := by
  induction members with
  | nil => rfl
  | cons m members ih =>
    rw [List.map_cons, List.mapM_cons, ih]
    rfl

/-- An object is what its members are up to its closing brace, if there are any. -/
theorem read?_object {members : List (String × Json)}
    (h : readMembers? number fuel more = some (members.map fun m => (some m.1, m.2), rest)) :
    read? number (fuel + 1) ('\x7b' :: more) = some (.object members, rest) := by
  rw [read?, skipSpace_cons (by decide)]
  split
  · next behind heq =>
    obtain rfl := (List.cons.inj heq).2
    split
    · next tail hclosed =>
      -- A closing brace starts no member, and members have been read.
      cases fuel with
      | zero => cases h
      | succ fuel =>
        rw [readMembers?, hclosed] at h
        cases h
    · rw [h, Option.bind_eq_bind, Option.bind_some]
      dsimp only
      rw [mapM_key]
      rfl
  · next heq => exact absurd (List.cons.inj heq).1 (by decide)
  · next heq => exact absurd (List.cons.inj heq).1 (by decide)
  · next heq => exact absurd (List.cons.inj heq).1 (by decide)
  · next heq => exact absurd (List.cons.inj heq).1 (by decide)
  · next heq => exact absurd (List.cons.inj heq).1 (by decide)
  · next hbrace _ _ _ _ _ => exact (hbrace more rfl).elim

end Parts

/-! ### Layouts -/

/-- A document is read back in front of anything that does not go on with a number. -/
def ReadsBack (style : Style) (j : Json) : Prop :=
  ∀ depth fuel rest, EndsNumber rest → 2 * (writeAt style depth j).toList.length + 1 ≤ fuel →
    read? ofExact fuel ((writeAt style depth j).toList ++ rest) = some (j, rest)

section Layouts

variable {style : Style} (hstyle : style.Blank) {fuel : Nat} {blank rest : List Char}

/-- Neither a comma nor a bracket goes on with a number. -/
theorem endsNumber_cons {c : Char} (hc : c = ',' ∨ c = ']' ∨ c = '\x7d') (cs : List Char) :
    EndsNumber (c :: cs) := by
  intro d hd
  obtain rfl : c = d := Option.some.inj hd
  rcases hc with rfl | rfl | rfl <;> decide

theorem endsNumber_of_isSpace {c : Char} (hc : isSpace c = true) (cs : List Char) :
    EndsNumber (c :: cs) := by
  intro d hd
  obtain rfl : c = d := Option.some.inj hd
  simp only [isSpace, Bool.or_eq_true, beq_iff_eq] at hc
  rcases hc with ((rfl | rfl) | rfl) | rfl <;> decide

/-- Neither white space nor what may stand behind a document continues a number. -/
theorem endsNumber_append {c : Char} (hblank : ∀ c ∈ blank, isSpace c = true)
    (hc : c = ',' ∨ c = ']' ∨ c = '\x7d') (cs : List Char) : EndsNumber (blank ++ c :: cs) := by
  cases blank with
  | nil => exact endsNumber_cons hc cs
  | cons b blank => exact endsNumber_of_isSpace (hblank b List.mem_cons_self) _

theorem toList_writeItems_singleton (style : Style) (depth : Nat) (item : Json) :
    (writeItems style depth [item]).toList =
      (style.gap depth).toList ++ (writeAt style depth item).toList := String.toList_append

/-- Items are set apart by commas, each of them on its own line in the wide style. -/
theorem toList_writeItems_cons (style : Style) (depth : Nat) (item next : Json)
    (more : List Json) :
    (writeItems style depth (item :: next :: more)).toList =
      (style.gap depth).toList ++ ((writeAt style depth item).toList ++
        ',' :: (writeItems style depth (next :: more)).toList) := by
  rw [writeItems]
  · simp only [String.toList_append, List.append_assoc]
    rfl
  · exact List.cons_ne_nil _ _

theorem toList_writeMembers_singleton (style : Style) (depth : Nat) (key : String) (value : Json) :
    (writeMembers style depth [(key, value)]).toList = (style.gap depth).toList ++
      ((quoted key).toList ++ (style.colon.toList ++ (writeAt style depth value).toList)) := by
  rw [writeMembers]
  simp only [String.toList_append, List.append_assoc]

/-- Members are set apart as items are. -/
theorem toList_writeMembers_cons (style : Style) (depth : Nat) (key : String) (value : Json)
    (next : String × Json) (more : List (String × Json)) :
    (writeMembers style depth ((key, value) :: next :: more)).toList =
      (style.gap depth).toList ++ ((quoted key).toList ++ (style.colon.toList ++
        ((writeAt style depth value).toList ++
          ',' :: (writeMembers style depth (next :: more)).toList))) := by
  rw [writeMembers]
  · simp only [String.toList_append, List.append_assoc]
    rfl
  · exact List.cons_ne_nil _ _

include hstyle

/-- Items are read back if each of them is. -/
theorem readItems?_writeItems {items : List Json} (hne : items ≠ [])
    (h : ∀ j ∈ items, ReadsBack style j) (depth : Nat) (hblank : ∀ c ∈ blank, isSpace c = true)
    (hfuel : 2 * (writeItems style depth items).toList.length + 2 ≤ fuel) :
    readItems? ofExact fuel ((writeItems style depth items).toList ++ (blank ++ ']' :: rest)) =
      some (items, rest) := by
  -- The induction follows the items; each of them costs one unit of fuel.
  induction items generalizing fuel with
  | nil => exact absurd rfl hne
  | cons item items ih =>
    obtain ⟨hitem, hitems⟩ := List.forall_mem_cons.mp h
    obtain ⟨fuel, rfl⟩ : ∃ k, fuel = k + 1 := ⟨fuel - 1, by omega⟩
    cases items with
    | nil =>
      rw [toList_writeItems_singleton, List.length_append] at hfuel
      have hread := hitem depth fuel _ (endsNumber_append hblank (.inr (.inl rfl)) rest) (by omega)
      rw [← read?_append (hstyle.gap depth), ← List.append_assoc] at hread
      rw [toList_writeItems_singleton]
      refine readItems?_last hread ?_
      rw [skipSpace_append hblank, skipSpace_cons (by decide)]
    | cons next more =>
      rw [toList_writeItems_cons, List.length_append, List.length_append, List.length_cons] at hfuel
      have hread := hitem depth fuel _ (endsNumber_cons (.inl rfl)
        ((writeItems style depth (next :: more)).toList ++ (blank ++ ']' :: rest))) (by omega)
      rw [← read?_append (hstyle.gap depth)] at hread
      rw [toList_writeItems_cons, List.append_assoc, List.append_assoc, List.cons_append]
      exact readItems?_next hread (skipSpace_cons (by decide) _)
        (ih (List.cons_ne_nil _ _) hitems (by omega))

/-- Members are read back if their values are. -/
theorem readMembers?_writeMembers {members : List (String × Json)} (hne : members ≠ [])
    (h : ∀ m ∈ members, ReadsBack style m.2) (depth : Nat)
    (hblank : ∀ c ∈ blank, isSpace c = true)
    (hfuel : 2 * (writeMembers style depth members).toList.length + 2 ≤ fuel) :
    readMembers? ofExact fuel
        ((writeMembers style depth members).toList ++ (blank ++ '\x7d' :: rest)) =
      some (members.map fun m => (some m.1, m.2), rest) := by
  obtain ⟨space, hcolon, hspace⟩ := hstyle.colon
  -- The induction follows the members, as with items.
  induction members generalizing fuel with
  | nil => exact absurd rfl hne
  | cons member members ih =>
    obtain ⟨key, value⟩ := member
    obtain ⟨hvalue, hmembers⟩ : ReadsBack style value ∧ ∀ m ∈ members, ReadsBack style m.2 :=
      List.forall_mem_cons.mp h
    obtain ⟨fuel, rfl⟩ : ∃ k, fuel = k + 1 := ⟨fuel - 1, by omega⟩
    cases members with
    | nil =>
      rw [toList_writeMembers_singleton] at hfuel
      simp only [List.length_append] at hfuel
      have hread := hvalue depth fuel _ (endsNumber_append hblank (.inr (.inr rfl)) rest) (by omega)
      rw [toList_writeMembers_singleton, hcolon]
      simp only [List.append_assoc]
      rw [readMembers?_append (hstyle.gap depth)]
      refine readMembers?_last key hspace hread ?_
      rw [skipSpace_append hblank, skipSpace_cons (by decide)]
    | cons next more =>
      rw [toList_writeMembers_cons] at hfuel
      simp only [List.length_append, List.length_cons] at hfuel
      have hread := hvalue depth fuel _ (endsNumber_cons (.inl rfl)
        ((writeMembers style depth (next :: more)).toList ++ (blank ++ '\x7d' :: rest))) (by omega)
      rw [toList_writeMembers_cons, hcolon]
      simp only [List.append_assoc]
      rw [readMembers?_append (hstyle.gap depth)]
      exact readMembers?_next key hspace hread (skipSpace_cons (by decide) _)
        (ih (List.cons_ne_nil _ _) hmembers (by omega))

/-- A document that can be written is read back. -/
theorem Printable.readsBack {j : Json} (hj : j.Printable) : ReadsBack style j := by
  -- One case for each kind of document; the items of an array and the members of an object are read
  -- back by induction.
  induction hj with
  | null =>
    intro depth fuel rest _ hfuel
    obtain ⟨fuel, rfl⟩ : ∃ k, fuel = k + 1 := ⟨fuel - 1, by omega⟩
    exact read?_null rest
  | bool b =>
    intro depth fuel rest _ hfuel
    obtain ⟨fuel, rfl⟩ : ∃ k, fuel = k + 1 := ⟨fuel - 1, by omega⟩
    exact read?_bool b rest
  | int low high =>
    intro depth fuel rest hrest hfuel
    obtain ⟨fuel, rfl⟩ : ∃ k, fuel = k + 1 := ⟨fuel - 1, by omega⟩
    obtain ⟨m, hm, hint⟩ := exists_numeral?_int low high hrest
    exact (read?_of_numeral? hm).trans (by rw [hint])
  | float hx =>
    intro depth fuel rest hrest hfuel
    obtain ⟨fuel, rfl⟩ : ∃ k, fuel = k + 1 := ⟨fuel - 1, by omega⟩
    obtain ⟨m, hm, hfloat⟩ := exists_numeral?_float hx hrest
    exact (read?_of_numeral? hm).trans (by rw [hfloat])
  | string s =>
    intro depth fuel rest _ hfuel
    obtain ⟨fuel, rfl⟩ : ∃ k, fuel = k + 1 := ⟨fuel - 1, by omega⟩
    exact read?_string s rest
  | @array items h ih =>
    intro depth fuel rest _ hfuel
    cases items with
    | nil =>
      obtain ⟨fuel, rfl⟩ : ∃ k, fuel = k + 1 := ⟨fuel - 1, by omega⟩
      rw [writeAt]
      rfl
    | cons item items =>
      have htext : (writeAt style depth (.array (item :: items))).toList =
          '[' :: ((writeItems style (depth + 1) (item :: items)).toList ++
            ((style.gap depth).toList ++ [']'])) := by
        rw [writeAt]
        · simp only [String.toList_append, List.append_assoc]
          rfl
        · exact List.cons_ne_nil _ _
      rw [htext] at hfuel ⊢
      simp only [List.length_cons, List.length_append] at hfuel
      obtain ⟨fuel, rfl⟩ : ∃ k, fuel = k + 1 := ⟨fuel - 1, by omega⟩
      rw [List.cons_append, List.append_assoc, List.append_assoc]
      exact read?_array (readItems?_writeItems hstyle (List.cons_ne_nil _ _) ih (depth + 1)
        (hstyle.gap depth) (by omega))
  | @object members h ih =>
    intro depth fuel rest _ hfuel
    cases members with
    | nil =>
      obtain ⟨fuel, rfl⟩ : ∃ k, fuel = k + 1 := ⟨fuel - 1, by omega⟩
      rw [writeAt]
      rfl
    | cons member members =>
      have htext : (writeAt style depth (.object (member :: members))).toList =
          '\x7b' :: ((writeMembers style (depth + 1) (member :: members)).toList ++
            ((style.gap depth).toList ++ ['\x7d'])) := by
        rw [writeAt]
        · simp only [String.toList_append, List.append_assoc]
          rfl
        · exact List.cons_ne_nil _ _
      rw [htext] at hfuel ⊢
      simp only [List.length_cons, List.length_append] at hfuel
      obtain ⟨fuel, rfl⟩ : ∃ k, fuel = k + 1 := ⟨fuel - 1, by omega⟩
      rw [List.cons_append, List.append_assoc, List.append_assoc]
      exact read?_object (readMembers?_writeMembers hstyle (List.cons_ne_nil _ _) ih (depth + 1)
        (hstyle.gap depth) (by omega))

end Layouts

/-! ### Texts -/

/-- A text stands for a document: it is the text of the document in the grammar of JSON, where a
whole number of at most sixty-four bits is itself and any other number is the float nearest to it.
-/
def Spells (text : String) (j : Json) : Prop := textWith? ofExact text = some j

/-- A text stands for one document at most. -/
theorem Spells.unique {text : String} {j k : Json} (hj : Spells text j) (hk : Spells text k) :
    j = k := Option.some.inj (hj.symm.trans hk)

/-- The text of a whole document, followed by white space alone, spells the document. -/
theorem Printable.spells_writeAt {style : Style} (hstyle : style.Blank) {j : Json}
    (hj : j.Printable) {behind : String} (hblank : ∀ c ∈ behind.toList, isSpace c = true) :
    Spells (writeAt style 0 j ++ behind) j := by
  have hends : EndsNumber behind.toList := by
    cases hcs : behind.toList with
    | nil =>
      intro c hc
      cases hc
    | cons c cs => exact endsNumber_of_isSpace (hblank c (hcs ▸ List.mem_cons_self)) cs
  have hread := hj.readsBack hstyle 0 (2 * (writeAt style 0 j ++ behind).toList.length + 2)
    behind.toList hends (by
      rw [String.toList_append, List.length_append]
      omega)
  have hrest : skipSpace behind.toList = [] := List.dropWhile_eq_nil_iff.mpr hblank
  rw [String.toList_append] at hread
  rw [Spells, textWith?, String.toList_append, hread]
  exact if_pos hrest

/-- **A document without blanks is read back.** -/
theorem Printable.spells_compact {j : Json} (hj : j.Printable) : Spells j.compact j := by
  have h : Spells (writeAt .compact 0 j ++ "") j :=
    hj.spells_writeAt Style.compact_blank fun _ hc => absurd hc List.not_mem_nil
  rwa [String.append_empty] at h

/-- **A document in lines is read back**, also with a line break behind it. -/
theorem Printable.spells_pretty {j : Json} (hj : j.Printable) : Spells (j.pretty ++ "\n") j :=
  hj.spells_writeAt Style.pretty_blank fun c hc => by
    rw [List.mem_singleton.mp hc]
    rfl

end SqlTree.Json
