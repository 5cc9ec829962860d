/-
  ImportBinding — values that are written and read back.

  `Spells` is the grammar that both printers keep to, with blanks where they differ.
  Whatever it spells is read as a tree that shows the value, up to the place behind it.

  * `Number.Plain` are the numbers whose text is covered: the whole ones that fit 64 bits;
  * `spells_compact` and `spells_pretty`: both printers keep to the grammar;
  * `readValue_spells` reads a spelled value;
  * `readAll_spells`: a uniform reader reads from a spelled text what it reads from the
    value.
-/
import ImportBinding.Proofs.Json.Numeral

namespace ImportBinding.Json

/-! ## Numbers in a value -/

mutual

/-- Every number in a value has the property `P`. -/
def Numbers (P : Number → Prop) : Json → Prop
  | number n => P n
  | array items => NumbersItems P items
  | object members => NumbersMembers P members
  | _ => True

/-- Every number in the items has the property `P`. -/
def NumbersItems (P : Number → Prop) : List Json → Prop
  | [] => True
  | v :: rest => v.Numbers P ∧ NumbersItems P rest

/-- Every number in the members has the property `P`. -/
def NumbersMembers (P : Number → Prop) : Members → Prop
  | [] => True
  | (_, v) :: rest => v.Numbers P ∧ NumbersMembers P rest

end

def Number.Whole : Number → Prop
  | integer _ => True
  | float _ => False

/-- A number that has the text of a whole one that fits 64 bits. -/
def Number.Plain (n : Number) : Prop :=
  n.Whole ∧ n.Fits

/-! ## The grammar -/

def Blanks (text : List UInt8) : Prop :=
  ∀ b ∈ text, isBlank b = true

/-- What may stand in front of a part: blanks, and a comma among them unless it is the
    first. -/
def Separates (first : Bool) (gap : List UInt8) : Prop :=
  if first then Blanks gap
  else ∃ blanks blanks', gap = blanks ++ 0x2c :: blanks' ∧ Blanks blanks ∧ Blanks blanks'

mutual

/-- Some bytes spell a value. -/
def Spells : Json → List UInt8 → Prop
  | array items, text => ∃ more, text = 0x5b :: more ∧ SpellsItems true items more
  | object members, text => ∃ more, text = 0x7b :: more ∧ SpellsMembers true members more
  | number n, text => n.Plain ∧ text = bytes n.text
  | v, text => text = bytes v.leafText

/-- Some bytes spell the items of an array and its closing bracket. -/
def SpellsItems (first : Bool) : List Json → List UInt8 → Prop
  | [], text => ∃ blanks, text = blanks ++ [0x5d] ∧ Blanks blanks
  | v :: rest, text => ∃ gap item more, text = gap ++ (item ++ more) ∧ Separates first gap ∧
      v.Spells item ∧ SpellsItems false rest more

/-- Some bytes spell the members of an object and its closing brace. -/
def SpellsMembers (first : Bool) : Members → List UInt8 → Prop
  | [], text => ∃ blanks, text = blanks ++ [0x7d] ∧ Blanks blanks
  | (k, v) :: rest, text => ∃ gap blanks item more,
      text = gap ++ (bytes (stringText k) ++ 0x3a :: (blanks ++ (item ++ more))) ∧
      Separates first gap ∧ Blanks blanks ∧ v.Spells item ∧ SpellsMembers false rest more

end

/-! ## Blanks -/

theorem Cursor.skipBlank_blanks {blanks : List UInt8} (hb : Blanks blanks) {b : UInt8}
    (h : isBlank b = false) (offset : Nat) (rest : List UInt8) :
    skipBlank ⟨offset, blanks ++ b :: rest⟩ = ⟨offset + blanks.length, b :: rest⟩ := by
  have htake : (blanks ++ b :: rest).takeWhile isBlank = blanks := by
    rw [List.takeWhile_append_of_pos hb]
    simp [h]
  have hdrop : (blanks ++ b :: rest).dropWhile isBlank = b :: rest := by
    rw [List.dropWhile_append_of_pos hb]
    simp [h]
  rw [skipBlank, skip, htake, hdrop]

theorem Cursor.skipBlank_cons {b : UInt8} (h : isBlank b = false) (offset : Nat)
    (rest : List UInt8) : skipBlank ⟨offset, b :: rest⟩ = ⟨offset, b :: rest⟩ := by
  simp [skipBlank, skip, h]

theorem ends_of_cons {b : UInt8} {rest : List UInt8}
    (h : isDigit b = false ∧ b ≠ 0x2e ∧ b ≠ 0x65 ∧ b ≠ 0x45) : Ends (b :: rest) := by
  intro d hd
  rwa [← Option.some.inj hd]

theorem ends_of_blank : ∀ {b : UInt8} {rest : List UInt8}, isBlank b = true → Ends (b :: rest) := by
  intro b rest h
  refine ends_of_cons ?_
  simp only [isBlank, Bool.or_eq_true, beq_iff_eq] at h
  rcases h with ((rfl | rfl) | rfl) | rfl <;> decide

/-- Blanks and then no number. -/
theorem Ends.blanks {blanks rest : List UInt8} (hb : Blanks blanks) (h : Ends rest) :
    Ends (blanks ++ rest) := by
  cases blanks with
  | nil => exact h
  | cons b blanks => exact ends_of_blank (hb b (by simp))

theorem Separates.ends {gap rest : List UInt8} (h : Separates false gap) : Ends (gap ++ rest) := by
  obtain ⟨blanks, blanks', rfl, hb, -⟩ := h
  rw [List.append_assoc]
  exact Ends.blanks hb (ends_of_cons (by decide))

theorem SpellsItems.ends {items : List Json} {text rest : List UInt8}
    (h : SpellsItems false items text) : Ends (text ++ rest) := by
  cases items with
  | nil =>
    obtain ⟨blanks, rfl, hb⟩ := h
    rw [List.append_assoc]
    exact Ends.blanks hb (ends_of_cons (by decide))
  | cons v items =>
    obtain ⟨gap, item, more, rfl, hgap, -⟩ := h
    rw [List.append_assoc]
    exact hgap.ends

theorem SpellsMembers.ends {members : Members} {text rest : List UInt8}
    (h : SpellsMembers false members text) : Ends (text ++ rest) := by
  cases members with
  | nil =>
    obtain ⟨blanks, rfl, hb⟩ := h
    rw [List.append_assoc]
    exact Ends.blanks hb (ends_of_cons (by decide))
  | cons m members =>
    obtain ⟨gap, blanks, item, more, rfl, hgap, -⟩ := h
    rw [List.append_assoc]
    exact hgap.ends

/-! ## Reading by the first byte -/

/-- Blanks in front of a value are passed. -/
theorem readValue_blanks {blanks : List UInt8} (hb : Blanks blanks) {b : UInt8}
    (h : isBlank b = false) (fuel offset : Nat) (rest : List UInt8) :
    readValue (fuel + 1) ⟨offset, blanks ++ b :: rest⟩ =
      readValue (fuel + 1) ⟨offset + blanks.length, b :: rest⟩ := by
  rw [readValue, readValue, Cursor.skipBlank_blanks hb h, Cursor.skipBlank_cons h]

theorem readValue_array (fuel offset : Nat) (rest : List UInt8) :
    readValue (fuel + 1) ⟨offset, 0x5b :: rest⟩ =
      (.array offset (readElems fuel true ⟨offset + 1, rest⟩).1,
        (readElems fuel true ⟨offset + 1, rest⟩).2) := by
  rw [readValue, Cursor.skipBlank_cons rfl]
  rfl

theorem readValue_object (fuel offset : Nat) (rest : List UInt8) :
    readValue (fuel + 1) ⟨offset, 0x7b :: rest⟩ =
      (.object offset (readEntries fuel true ⟨offset + 1, rest⟩).1,
        (readEntries fuel true ⟨offset + 1, rest⟩).2) := by
  rw [readValue, Cursor.skipBlank_cons rfl]
  rfl

theorem readValue_string (fuel offset : Nat) (rest : List UInt8) :
    readValue (fuel + 1) ⟨offset, 0x22 :: rest⟩ =
      (.string (Literal.string ⟨offset + 1, rest⟩).1, (Literal.string ⟨offset + 1, rest⟩).2) := by
  rw [readValue, Cursor.skipBlank_cons rfl]
  rfl

theorem isBlank_of_isDigit {b : UInt8} (h : b = 0x2d ∨ isDigit b = true) : isBlank b = false := by
  by_contra hb
  simp only [Bool.not_eq_false, isBlank, Bool.or_eq_true, beq_iff_eq] at hb
  rcases hb with ((rfl | rfl) | rfl) | rfl <;> exact absurd h (by decide)

theorem readValue_number {b : UInt8} (h : b = 0x2d ∨ isDigit b = true) (fuel offset : Nat)
    (rest : List UInt8) :
    readValue (fuel + 1) ⟨offset, b :: rest⟩ =
      (.scalar (Literal.number ⟨offset, b :: rest⟩).1,
        (Literal.number ⟨offset, b :: rest⟩).2) := by
  have h₁ : b ≠ 0x5b := by rintro rfl; exact absurd h (by decide)
  have h₂ : b ≠ 0x7b := by rintro rfl; exact absurd h (by decide)
  have h₃ : b ≠ 0x22 := by rintro rfl; exact absurd h (by decide)
  rw [readValue, Cursor.skipBlank_cons (isBlank_of_isDigit h)]
  simp [Cursor.next?, h₁, h₂, h₃, Literal.scalar?, h]

/-! ## Leaves -/

/-- A spelled value starts with a byte that is no blank and closes nothing. -/
theorem Spells.exists_cons {v : Json} {text : List UInt8} (h : v.Spells text) :
    ∃ b more, text = b :: more ∧ isBlank b = false ∧ b ≠ 0x5d := by
  cases v with
  | null =>
    obtain rfl : text = bytes "null" := h
    exact ⟨0x6e, _, rfl, by decide, by decide⟩
  | bool b =>
    cases b with
    | false =>
      obtain rfl : text = bytes "false" := h
      exact ⟨0x66, _, rfl, by decide, by decide⟩
    | true =>
      obtain rfl : text = bytes "true" := h
      exact ⟨0x74, _, rfl, by decide, by decide⟩
  | number n =>
    obtain ⟨hn, rfl⟩ := h
    cases n with
    | integer n =>
      obtain ⟨b, more, he, hb⟩ := exists_bytes_toString n
      refine ⟨b, more, he, isBlank_of_isDigit hb, ?_⟩
      rintro rfl
      exact absurd hb (by decide)
    | float x => exact absurd hn.1 id
  | string s =>
    obtain rfl : text = bytes (stringText s) := h
    exact ⟨0x22, stringBody s ++ [0x22], bytes_stringText s, by decide, by decide⟩
  | array items =>
    obtain ⟨more, rfl, -⟩ := h
    exact ⟨0x5b, more, rfl, by decide, by decide⟩
  | object members =>
    obtain ⟨more, rfl, -⟩ := h
    exact ⟨0x7b, more, rfl, by decide, by decide⟩

theorem Spells.length_pos {v : Json} {text : List UInt8} (h : v.Spells text) : 0 < text.length := by
  obtain ⟨b, more, rfl, -⟩ := h.exists_cons
  simp

theorem SpellsItems.length_pos {first : Bool} {items : List Json} {text : List UInt8}
    (h : SpellsItems first items text) : 0 < text.length := by
  cases items with
  | nil =>
    obtain ⟨blanks, rfl, -⟩ := h
    simp
  | cons v items =>
    obtain ⟨gap, item, more, rfl, -, hitem, -⟩ := h
    have := hitem.length_pos
    simp only [List.length_append]
    omega

theorem readValue_leaf {v : Json} {text : List UInt8} (h : v.Spells text)
    (hitems : ∀ items, v ≠ .array items) (hmembers : ∀ ms, v ≠ .object ms) {fuel : Nat}
    (hfuel : 2 * text.length ≤ fuel) (offset : Nat) {rest : List UInt8} (hrest : Ends rest) :
    ∃ t offset', readValue fuel ⟨offset, text ++ rest⟩ = (t, ⟨offset', rest⟩) ∧ t.Shows v := by
  have hlen := h.length_pos
  obtain ⟨fuel, rfl⟩ : ∃ f, fuel = f + 1 := ⟨fuel - 1, by omega⟩
  clear hfuel hlen
  cases v with
  | null =>
    obtain rfl : text = bytes "null" := h
    have htext : bytes "null" = [0x6e, 0x75, 0x6c, 0x6c] := by decide
    rw [htext]
    exact ⟨.scalar ⟨offset, offset + 4, .ok .null, none⟩, offset + 4,
      by rw [List.cons_append, readValue, Cursor.skipBlank_cons rfl]; rfl, .null, ⟨rfl, rfl⟩, rfl⟩
  | bool b =>
    cases b with
    | false =>
      obtain rfl : text = bytes "false" := h
      have htext : bytes "false" = [0x66, 0x61, 0x6c, 0x73, 0x65] := by decide
      rw [htext]
      exact ⟨.scalar ⟨offset, offset + 5, .ok (.bool false), none⟩, offset + 5,
        by rw [List.cons_append, readValue, Cursor.skipBlank_cons rfl]; rfl,
        .bool false, ⟨rfl, rfl⟩, rfl⟩
    | true =>
      obtain rfl : text = bytes "true" := h
      have htext : bytes "true" = [0x74, 0x72, 0x75, 0x65] := by decide
      rw [htext]
      exact ⟨.scalar ⟨offset, offset + 4, .ok (.bool true), none⟩, offset + 4,
        by rw [List.cons_append, readValue, Cursor.skipBlank_cons rfl]; rfl,
        .bool true, ⟨rfl, rfl⟩, rfl⟩
  | number n =>
    obtain ⟨hn, rfl⟩ := h
    cases n with
    | integer n =>
      obtain ⟨l, offset', hl, hshows⟩ := Literal.number_toString hn.2 offset hrest
      obtain ⟨b, more, he, hb⟩ := exists_bytes_toString n
      refine ⟨.scalar l, offset', ?_, .number (.integer n), hshows, rfl⟩
      rw [he, List.cons_append] at hl
      rw [Number.text, he, List.cons_append, readValue_number hb, hl]
    | float x => exact absurd hn.1 id
  | string s =>
    obtain rfl : text = bytes (stringText s) := h
    obtain ⟨l, offset', hl, hshows⟩ := Literal.string_stringBody s (offset + 1) rest
    refine ⟨.string l, offset', ?_, s, hshows, rfl⟩
    rw [bytes_stringText, List.cons_append, readValue_string, List.append_assoc,
      List.singleton_append, hl]
  | array items => exact absurd rfl (hitems items)
  | object ms => exact absurd rfl (hmembers ms)

/-! ## Lists and objects -/

/-- The gap in front of an item is passed. -/
theorem readElems_gap {first : Bool} {gap : List UInt8} (h : Separates first gap) {b : UInt8}
    (hblank : isBlank b = false) (hclose : b ≠ 0x5d) (fuel offset : Nat) (rest : List UInt8) :
    ∃ offset', readElems (fuel + 1) first ⟨offset, gap ++ b :: rest⟩ =
      readItem fuel ⟨offset', b :: rest⟩ := by
  cases first with
  | true =>
    refine ⟨offset + gap.length, ?_⟩
    rw [readElems, Cursor.skipBlank_blanks h hblank]
    simp [Cursor.next?, hclose]
  | false =>
    obtain ⟨blanks, blanks', rfl, hb, hb'⟩ := h
    refine ⟨offset + blanks.length + 1 + blanks'.length, ?_⟩
    rw [readElems, List.append_assoc, List.cons_append, Cursor.skipBlank_blanks hb (by decide)]
    simp [Cursor.next?, Cursor.step, Cursor.skipBlank_blanks hb' hblank, hclose]

/-- The gap in front of a member is passed. -/
theorem readEntries_gap {first : Bool} {gap : List UInt8} (h : Separates first gap)
    (fuel offset : Nat) (rest : List UInt8) :
    ∃ offset', readEntries (fuel + 1) first ⟨offset, gap ++ 0x22 :: rest⟩ =
      readMember fuel ⟨offset', 0x22 :: rest⟩ := by
  cases first with
  | true =>
    refine ⟨offset + gap.length, ?_⟩
    rw [readEntries, Cursor.skipBlank_blanks h (by decide)]
    rfl
  | false =>
    obtain ⟨blanks, blanks', rfl, hb, hb'⟩ := h
    refine ⟨offset + blanks.length + 1 + blanks'.length, ?_⟩
    have hquote : isBlank 0x22 = false := by decide
    rw [readEntries, List.append_assoc, List.cons_append, Cursor.skipBlank_blanks hb (by decide)]
    simp [Cursor.next?, Cursor.step, Cursor.skipBlank_blanks hb' hquote]

/-- A key, a colon right behind it, a value and what follows. -/
theorem readMember_eq {fuel offset offset' : Nat} {l : Literal String} {text rest : List UInt8}
    {t : Tree} {c : Cursor} (hl : Literal.string ⟨offset + 1, text⟩ = (l, ⟨offset', 0x3a :: rest⟩))
    (ht : readValue fuel ⟨offset' + 1, rest⟩ = (t, c)) :
    readMember (fuel + 1) ⟨offset, 0x22 :: text⟩ =
      (.member l offset' t (readEntries fuel false c).1, (readEntries fuel false c).2) := by
  have hcolon : isBlank 0x3a = false := by decide
  simp [readMember, Cursor.next?, Cursor.step, hl, Cursor.skipBlank_cons hcolon, ht]

mutual

/-- A spelled value is read, up to the place behind it, as a tree that shows it. -/
theorem readValue_spells : (v : Json) → {text : List UInt8} → v.Spells text →
    (fuel offset : Nat) → 2 * text.length ≤ fuel → (rest : List UInt8) → Ends rest →
    ∃ t offset', readValue fuel ⟨offset, text ++ rest⟩ = (t, ⟨offset', rest⟩) ∧ t.Shows v
  | .array items, _, h, fuel, offset, hfuel, rest, hrest => by
    obtain ⟨more, rfl, hmore⟩ := h
    obtain ⟨fuel, rfl⟩ : ∃ f, fuel = f + 1 := ⟨fuel - 1, by simp at hfuel; omega⟩
    obtain ⟨elems, offset', he, hshows⟩ := readElems_spells true items hmore fuel (offset + 1)
      (by simp at hfuel; omega) rest
    exact ⟨.array offset elems, offset', by rw [List.cons_append, readValue_array, he], hshows⟩
  | .object members, _, h, fuel, offset, hfuel, rest, hrest => by
    obtain ⟨more, rfl, hmore⟩ := h
    obtain ⟨fuel, rfl⟩ : ∃ f, fuel = f + 1 := ⟨fuel - 1, by simp at hfuel; omega⟩
    obtain ⟨entries, offset', he, hshows⟩ := readEntries_spells true members hmore fuel (offset + 1)
      (by simp at hfuel; omega) rest
    exact ⟨.object offset entries, offset', by rw [List.cons_append, readValue_object, he], hshows⟩
  | .null, _, h, fuel, offset, hfuel, rest, hrest =>
    readValue_leaf h nofun nofun hfuel offset hrest
  | .bool _, _, h, fuel, offset, hfuel, rest, hrest =>
    readValue_leaf h nofun nofun hfuel offset hrest
  | .number _, _, h, fuel, offset, hfuel, rest, hrest =>
    readValue_leaf h nofun nofun hfuel offset hrest
  | .string _, _, h, fuel, offset, hfuel, rest, hrest =>
    readValue_leaf h nofun nofun hfuel offset hrest

theorem readElems_spells (first : Bool) : (items : List Json) → {text : List UInt8} →
    SpellsItems first items text → (fuel offset : Nat) → 2 * text.length ≤ fuel →
    (rest : List UInt8) →
    ∃ elems offset', readElems fuel first ⟨offset, text ++ rest⟩ = (elems, ⟨offset', rest⟩) ∧
      elems.Shows items
  | [], _, h, fuel, offset, hfuel, rest => by
    obtain ⟨blanks, rfl, hb⟩ := h
    obtain ⟨fuel, rfl⟩ : ∃ f, fuel = f + 1 := ⟨fuel - 1, by simp at hfuel; omega⟩
    refine ⟨.stop false (offset + blanks.length) (some 0x5d), offset + blanks.length + 1, ?_,
      rfl, rfl, rfl⟩
    rw [List.append_assoc, List.singleton_append, readElems,
      Cursor.skipBlank_blanks hb (by decide)]
    rfl
  | v :: items, _, h, fuel, offset, hfuel, rest => by
    obtain ⟨gap, item, more, rfl, hgap, hitem, hmore⟩ := h
    obtain ⟨b, tail, rfl, hblank, hclose⟩ := hitem.exists_cons
    obtain ⟨fuel, rfl⟩ : ∃ f, fuel = f + 2 := ⟨fuel - 2, by simp at hfuel; omega⟩
    have hlen := hmore.length_pos
    obtain ⟨offset₁, hgap⟩ := readElems_gap hgap hblank hclose (fuel + 1) offset (tail ++ more ++ rest)
    obtain ⟨t, offset₂, ht, hshows⟩ := readValue_spells v hitem fuel offset₁
      (by simp at hfuel ⊢; omega) (more ++ rest) hmore.ends
    obtain ⟨elems, offset₃, he, hshows'⟩ := readElems_spells false items hmore fuel offset₂
      (by simp at hfuel ⊢; omega) rest
    refine ⟨.item t elems, offset₃, ?_, hshows, hshows'⟩
    simp only [List.append_assoc, List.cons_append] at hgap ht ⊢
    rw [hgap, readItem, ht]
    simp only [he]

theorem readEntries_spells (first : Bool) : (members : Members) → {text : List UInt8} →
    SpellsMembers first members text → (fuel offset : Nat) → 2 * text.length ≤ fuel →
    (rest : List UInt8) →
    ∃ entries offset', readEntries fuel first ⟨offset, text ++ rest⟩ = (entries, ⟨offset', rest⟩) ∧
      entries.Shows members
  | [], _, h, fuel, offset, hfuel, rest => by
    obtain ⟨blanks, rfl, hb⟩ := h
    obtain ⟨fuel, rfl⟩ : ∃ f, fuel = f + 1 := ⟨fuel - 1, by simp at hfuel; omega⟩
    refine ⟨.stop false (offset + blanks.length) (some 0x7d), offset + blanks.length + 1, ?_,
      rfl, rfl, rfl⟩
    rw [List.append_assoc, List.singleton_append, readEntries,
      Cursor.skipBlank_blanks hb (by decide)]
    rfl
  | (k, v) :: members, _, h, fuel, offset, hfuel, rest => by
    obtain ⟨gap, blanks, item, more, rfl, hgap, hb, hitem, hmore⟩ := h
    obtain ⟨b, tail, rfl, hblank, -⟩ := hitem.exists_cons
    obtain ⟨fuel, rfl⟩ : ∃ f, fuel = f + 3 := ⟨fuel - 3, by simp [bytes_stringText] at hfuel; omega⟩
    obtain ⟨offset₁, hgap⟩ := readEntries_gap hgap (fuel + 2) offset
      (stringBody k ++ 0x22 :: 0x3a :: (blanks ++ b :: (tail ++ (more ++ rest))))
    obtain ⟨l, offset₂, hl, hkey⟩ := Literal.string_stringBody k (offset₁ + 1)
      (0x3a :: (blanks ++ b :: (tail ++ (more ++ rest))))
    obtain ⟨t, offset₃, ht, hshows⟩ := readValue_spells v hitem (fuel + 1)
      (offset₂ + 1 + blanks.length) (by simp [bytes_stringText] at hfuel ⊢; omega)
      (more ++ rest) hmore.ends
    obtain ⟨entries, offset₄, he, hshows'⟩ := readEntries_spells false members hmore (fuel + 1) offset₃
      (by simp [bytes_stringText] at hfuel ⊢; omega) rest
    refine ⟨.member l offset₂ t entries, offset₄, ?_, hkey, hshows, hshows'⟩
    simp only [bytes_stringText, List.append_assoc, List.cons_append, List.nil_append] at hgap ht ⊢
    rw [← readValue_blanks hb hblank] at ht
    rw [hgap, readMember_eq hl ht, he]

end

/-! ## Whole texts -/

/-- From a spelled text, with blanks behind it, a uniform reader reads what it reads from the
    value. -/
theorem readAll_spells {α : Type} {read : Reader α} (hu : Uniform read) {v : Json}
    {text blanks : List UInt8} (h : v.Spells text) (hb : Blanks blanks) :
    (readAll read (text ++ blanks)).toOption = (read (.ofJson v)).toOption := by
  have hnil : Ends [] := by simp [Ends]
  have hends : Ends blanks := List.append_nil blanks ▸ Ends.blanks hb hnil
  obtain ⟨t, offset, ht, hshows⟩ := readValue_spells v h (3 * (text ++ blanks).length + 3) 0
    (by simp only [List.length_append]; omega) blanks hends
  have hend : (Cursor.skipBlank ⟨offset, blanks⟩).next? = none := by
    have hdrop : (blanks ++ []).dropWhile isBlank = [] := by
      rw [List.dropWhile_append_of_pos hb, List.dropWhile_nil]
    rw [List.append_nil] at hdrop
    simp [Cursor.skipBlank, Cursor.skip, Cursor.next?, hdrop]
  rw [← hu hshows, readAll, Tree.read, Cursor.start, ht]
  simp only [hend]
  cases read t <;> rfl

/-! ## The printers -/

/-- An item in front of others. -/
theorem SpellsItems.cons {v : Json} {items : List Json} {gap item more : List UInt8}
    (hgap : Blanks gap) (hv : v.Spells item) (h : SpellsItems true items more)
    (hne : items ≠ []) : SpellsItems true (v :: items) (gap ++ (item ++ 0x2c :: more)) := by
  refine ⟨gap, item, 0x2c :: more, rfl, hgap, hv, ?_⟩
  cases items with
  | nil => exact absurd rfl hne
  | cons w items =>
    obtain ⟨gap', item', more', rfl, hgap', hw, hmore⟩ := h
    exact ⟨0x2c :: gap', item', more', rfl, ⟨[], gap', rfl, by simp [Blanks], hgap'⟩, hw, hmore⟩

/-- A member in front of others. -/
theorem SpellsMembers.cons {k : String} {v : Json} {members : Members}
    {gap blanks item more : List UInt8} (hgap : Blanks gap) (hb : Blanks blanks)
    (hv : v.Spells item) (h : SpellsMembers true members more) (hne : members ≠ []) :
    SpellsMembers true ((k, v) :: members)
      (gap ++ (bytes (stringText k) ++ 0x3a :: (blanks ++ (item ++ 0x2c :: more)))) := by
  refine ⟨gap, blanks, item, 0x2c :: more, rfl, hgap, hb, hv, ?_⟩
  cases members with
  | nil => exact absurd rfl hne
  | cons m members =>
    obtain ⟨gap', blanks', item', more', rfl, hgap', hb', hw, hmore⟩ := h
    exact ⟨0x2c :: gap', blanks', item', more', rfl, ⟨[], gap', rfl, by simp [Blanks], hgap'⟩,
      hb', hw, hmore⟩

theorem bytes_comma : bytes "," = [0x2c] := by decide

theorem bytes_colon : bytes ":" = [0x3a] := by decide

theorem bytes_wide_colon : bytes ": " = [0x3a, 0x20] := by decide

theorem blanks_nil : Blanks [] := by simp [Blanks]

theorem blanks_space : Blanks [0x20] := by simp [Blanks, isBlank]

theorem blanks_newline (level : Nat) : Blanks (bytes (newline level)) := by
  have hbreak : String.utf8EncodeChar '\n' = [0x0a] := by decide
  have hspace : String.utf8EncodeChar ' ' = [0x20] := by decide
  intro b hb
  rw [newline, bytes_ofList, List.flatMap_cons, List.mem_append, hbreak, List.mem_singleton,
    List.mem_flatMap] at hb
  rcases hb with rfl | ⟨c, hc, hb⟩
  · decide
  · rw [List.eq_of_mem_replicate hc, hspace, List.mem_singleton] at hb
    rw [hb]
    decide

mutual

/-- The text without blanks keeps to the grammar. -/
theorem spells_compact : (v : Json) → v.Numbers Number.Plain → v.Spells (bytes v.compact)
  | .null, _ => rfl
  | .bool b, _ => by cases b <;> exact rfl
  | .number n, h => ⟨h, rfl⟩
  | .string s, _ => rfl
  | .array items, h => by
    refine ⟨bytes (compactItems items) ++ [0x5d], ?_, spellsItems_compact items h⟩
    rw [compact, bytes_append, bytes_append]
    rfl
  | .object members, h => by
    refine ⟨bytes (compactMembers members) ++ [0x7d], ?_, spellsMembers_compact members h⟩
    rw [compact, bytes_append, bytes_append]
    rfl

theorem spellsItems_compact : (items : List Json) → NumbersItems Number.Plain items →
    SpellsItems true items (bytes (compactItems items) ++ [0x5d])
  | [], _ => ⟨[], rfl, blanks_nil⟩
  | [v], h => ⟨[], bytes v.compact, [0x5d], rfl, blanks_nil, spells_compact v h.1, [], rfl, blanks_nil⟩
  | v :: w :: items, h => by
    have := SpellsItems.cons blanks_nil (spells_compact v h.1)
      (spellsItems_compact (w :: items) h.2) (by simp)
    simpa [compactItems, bytes_comma] using this

theorem spellsMembers_compact : (members : Members) → NumbersMembers Number.Plain members →
    SpellsMembers true members (bytes (compactMembers members) ++ [0x7d])
  | [], _ => ⟨[], rfl, blanks_nil⟩
  | [(k, v)], h =>
    ⟨[], [], bytes v.compact, [0x7d], by simp [compactMembers, bytes_colon], blanks_nil, blanks_nil,
      spells_compact v h.1, [], rfl, blanks_nil⟩
  | (k, v) :: m :: members, h => by
    have := SpellsMembers.cons (k := k) blanks_nil blanks_nil (spells_compact v h.1)
      (spellsMembers_compact (m :: members) h.2) (by simp)
    simpa [compactMembers, bytes_comma, bytes_colon] using this

end

mutual

/-- The text with a line for each part keeps to the grammar. -/
theorem spells_prettyAt : (v : Json) → v.Numbers Number.Plain → (level : Nat) →
    v.Spells (bytes (v.prettyAt level))
  | .null, _, _ => rfl
  | .bool b, _, _ => by cases b <;> exact rfl
  | .number n, h, _ => ⟨h, rfl⟩
  | .string s, _, _ => rfl
  | .array [], _, _ => ⟨[0x5d], by rw [prettyAt]; decide, [], rfl, blanks_nil⟩
  | .array (v :: items), h, level => by
    refine ⟨_, ?_, spellsItems_pretty (v :: items) h (level + 1) (blanks_newline level)⟩
    simp only [prettyAt, bytes_append, List.append_assoc]
    rfl
  | .object [], _, _ => ⟨[0x7d], by rw [prettyAt]; decide, [], rfl, blanks_nil⟩
  | .object (m :: members), h, level => by
    refine ⟨_, ?_, spellsMembers_pretty (m :: members) h (level + 1) (blanks_newline level)⟩
    simp only [prettyAt, bytes_append, List.append_assoc]
    rfl

theorem spellsItems_pretty : (items : List Json) → NumbersItems Number.Plain items →
    (level : Nat) → {blanks : List UInt8} → Blanks blanks →
    SpellsItems true items (bytes (prettyItems level items) ++ (blanks ++ [0x5d]))
  | [], _, _, blanks, hb => ⟨blanks, rfl, hb⟩
  | [v], h, level, blanks, hb =>
    ⟨bytes (newline level), bytes (v.prettyAt level), blanks ++ [0x5d], by simp [prettyItems],
      blanks_newline level, spells_prettyAt v h.1 level, blanks, rfl, hb⟩
  | v :: w :: items, h, level, blanks, hb => by
    have := SpellsItems.cons (blanks_newline level) (spells_prettyAt v h.1 level)
      (spellsItems_pretty (w :: items) h.2 level hb) (by simp)
    simpa [prettyItems, bytes_comma] using this

theorem spellsMembers_pretty : (members : Members) → NumbersMembers Number.Plain members →
    (level : Nat) → {blanks : List UInt8} → Blanks blanks →
    SpellsMembers true members (bytes (prettyMembers level members) ++ (blanks ++ [0x7d]))
  | [], _, _, blanks, hb => ⟨blanks, rfl, hb⟩
  | [(k, v)], h, level, blanks, hb =>
    ⟨bytes (newline level), [0x20], bytes (v.prettyAt level), blanks ++ [0x7d],
      by simp [prettyMembers, bytes_wide_colon], blanks_newline level, blanks_space,
      spells_prettyAt v h.1 level, blanks, rfl, hb⟩
  | (k, v) :: m :: members, h, level, blanks, hb => by
    have := SpellsMembers.cons (k := k) (blanks_newline level) blanks_space
      (spells_prettyAt v h.1 level) (spellsMembers_pretty (m :: members) h.2 level hb) (by simp)
    simpa [prettyMembers, bytes_comma, bytes_wide_colon] using this

end

theorem spells_pretty {v : Json} (h : v.Numbers Number.Plain) : v.Spells (bytes v.pretty) :=
  spells_prettyAt v h 0

end ImportBinding.Json
