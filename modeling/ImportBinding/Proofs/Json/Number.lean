/-
  ImportBinding — the numbers of a text.

  A reader only gives whole numbers that fit 64 bits.  So every number that is kept from a
  text fits, and it is written as it was read.

  * `Tree.Numbers`: every number in a tree has some property;
  * `fits_readValue`: the numbers of a text fit;
  * `numbers_value`: the numbers of a value are those of its tree.
-/
import ImportBinding.Proofs.Json.Spelling

namespace ImportBinding.Json

/-! ## Numbers in a tree -/

mutual

/-- Every number in a tree has the property `P`. -/
def Tree.Numbers (P : Number → Prop) : Tree → Prop
  | .scalar l => ∀ n, l.kept = .ok (.number n) → P n
  | .array _ elems => elems.Numbers P
  | .object _ entries => entries.Numbers P
  | _ => True

/-- Every number in the elements has the property `P`. -/
def Elems.Numbers (P : Number → Prop) : Elems → Prop
  | .stop .. => True
  | .item value rest => value.Numbers P ∧ rest.Numbers P

/-- Every number in the members has the property `P`. -/
def Entries.Numbers (P : Number → Prop) : Entries → Prop
  | .member _ _ value rest => value.Numbers P ∧ rest.Numbers P
  | _ => True

end

theorem Literal.fits_scalar? {b : UInt8} {c after : Cursor} {l : Literal Scalar}
    (h : Literal.scalar? b c = some (l, after)) : (Tree.scalar l).Numbers Number.Fits := by
  have hword : ∀ letters value, (∀ n, value ≠ .number n) →
      (Tree.scalar (Literal.word letters value c).1).Numbers Number.Fits := by
    intro letters value hvalue n hn
    unfold Literal.word at hn
    split at hn
    · exact absurd (Except.ok.inj hn) (hvalue n)
    · cases hn
  have hnumber : (Tree.scalar (Literal.number c).1).Numbers Number.Fits := by
    intro n hn
    unfold Literal.number at hn
    split at hn
    · next x _ _ =>
      cases hv : x.value with
      | error => rw [hv] at hn; cases hn
      | ok m =>
        rw [hv] at hn
        cases hn
        exact Numeral.fits_of_value hv
    · cases hn
  unfold Literal.scalar? at h
  split at h
  · rw [Option.some.inj h] at hnumber; exact hnumber
  · split at h
    · have := hword [0x6e, 0x75, 0x6c, 0x6c] .null nofun
      rwa [Option.some.inj h] at this
    · split at h
      · have := hword [0x74, 0x72, 0x75, 0x65] (.bool true) nofun
        rwa [Option.some.inj h] at this
      · split at h
        · have := hword [0x66, 0x61, 0x6c, 0x73, 0x65] (.bool false) nofun
          rwa [Option.some.inj h] at this
        · cases h

mutual

/-- The numbers of a text fit. -/
theorem fits_readValue : (fuel : Nat) → (c : Cursor) → (readValue fuel c).1.Numbers Number.Fits
  | 0, c => by simp [readValue, Tree.Numbers]
  | fuel + 1, c => by
    rw [readValue]
    split
    · trivial
    · split
      · exact fits_readElems fuel true c.skipBlank.step
      · split
        · exact fits_readEntries fuel true c.skipBlank.step
        · split
          · trivial
          · split
            · next h => exact Literal.fits_scalar? h
            · trivial

theorem fits_readElems : (fuel : Nat) → (first : Bool) → (c : Cursor) →
    (readElems fuel first c).1.Numbers Number.Fits
  | 0, _, c => by simp [readElems, Elems.Numbers]
  | fuel + 1, first, c => by
    rw [readElems]
    split
    · trivial
    · split
      · trivial
      · split
        · exact fits_readItem fuel c.skipBlank
        · split
          · dsimp only
            split
            · trivial
            · split
              · trivial
              · exact fits_readItem fuel c.skipBlank.step.skipBlank
          · trivial

theorem fits_readItem : (fuel : Nat) → (c : Cursor) → (readItem fuel c).1.Numbers Number.Fits
  | 0, c => by simp [readItem, Elems.Numbers]
  | fuel + 1, c => by
    rw [readItem]
    exact ⟨fits_readValue fuel c, fits_readElems fuel false _⟩

theorem fits_readEntries : (fuel : Nat) → (first : Bool) → (c : Cursor) →
    (readEntries fuel first c).1.Numbers Number.Fits
  | 0, _, c => by simp [readEntries, Entries.Numbers]
  | fuel + 1, first, c => by
    rw [readEntries]
    split
    · trivial
    · split
      · trivial
      · split
        · exact fits_readMember fuel c.skipBlank
        · split
          · dsimp only
            split
            · trivial
            · split
              · trivial
              · exact fits_readMember fuel c.skipBlank.step.skipBlank
          · trivial

theorem fits_readMember : (fuel : Nat) → (c : Cursor) → (readMember fuel c).1.Numbers Number.Fits
  | 0, c => by simp [readMember, Entries.Numbers]
  | fuel + 1, c => by
    rw [readMember]
    split
    · dsimp only
      split
      · exact ⟨fits_readValue fuel _, fits_readEntries fuel false _⟩
      · trivial
    · trivial

end

/-! ## Numbers in a value -/

theorem numbersItems_iff {P : Number → Prop} {items : List Json} :
    NumbersItems P items ↔ ∀ v ∈ items, v.Numbers P := by
  induction items with
  | nil => simp [NumbersItems]
  | cons v rest ih => simp [NumbersItems, ih]

theorem numbersMembers_iff {P : Number → Prop} {ms : Members} :
    NumbersMembers P ms ↔ ∀ m ∈ ms, m.2.Numbers P := by
  induction ms with
  | nil => simp [NumbersMembers]
  | cons m rest ih => simp [NumbersMembers, ih]

mutual

theorem Numbers.and {P Q : Number → Prop} : (v : Json) → v.Numbers P → v.Numbers Q →
    v.Numbers fun n => P n ∧ Q n
  | .null, _, _ | .bool _, _, _ | .string _, _, _ => trivial
  | .number _, h₁, h₂ => ⟨h₁, h₂⟩
  | .array items, h₁, h₂ => NumbersItems.and items h₁ h₂
  | .object members, h₁, h₂ => NumbersMembers.and members h₁ h₂

theorem NumbersItems.and {P Q : Number → Prop} : (vs : List Json) → NumbersItems P vs →
    NumbersItems Q vs → NumbersItems (fun n => P n ∧ Q n) vs
  | [], _, _ => trivial
  | v :: rest, h₁, h₂ => ⟨Numbers.and v h₁.1 h₂.1, NumbersItems.and rest h₁.2 h₂.2⟩

theorem NumbersMembers.and {P Q : Number → Prop} : (ms : Members) → NumbersMembers P ms →
    NumbersMembers Q ms → NumbersMembers (fun n => P n ∧ Q n) ms
  | [], _, _ => trivial
  | (_, v) :: rest, h₁, h₂ => ⟨Numbers.and v h₁.1 h₂.1, NumbersMembers.and rest h₁.2 h₂.2⟩

end

mutual

/-- The canonical form has no other numbers. -/
theorem Numbers.canonical {P : Number → Prop} : (v : Json) → v.Numbers P → v.canonical.Numbers P
  | .null, h | .bool _, h | .number _, h | .string _, h => h
  | .array items, h => Numbers.canonicalItems items h
  | .object members, h => Numbers.canonicalMembers members h trivial

theorem Numbers.canonicalItems {P : Number → Prop} : (vs : List Json) → NumbersItems P vs →
    NumbersItems P (Json.canonicalItems vs)
  | [], _ => trivial
  | v :: rest, h => ⟨Numbers.canonical v h.1, Numbers.canonicalItems rest h.2⟩

theorem Numbers.canonicalMembers {P : Number → Prop} : (ms : Members) → NumbersMembers P ms →
    {acc : Members} → NumbersMembers P acc → NumbersMembers P (Json.canonicalMembers acc ms)
  | [], _, _, hacc => hacc
  | (k, v) :: rest, h, acc, hacc => by
    refine Numbers.canonicalMembers rest h.2 (numbersMembers_iff.2 fun m hm => ?_)
    rcases Members.mem_insert hm with rfl | hm
    · exact Numbers.canonical v h.1
    · exact numbersMembers_iff.1 hacc m hm

end

theorem Elems.numbers_read {P : Number → Prop} {read : Reader Json}
    (hr : ∀ {t v}, t.Numbers P → read t = .ok v → v.Numbers P) : (elems : Elems) →
    {vs : List Json} → elems.Numbers P → elems.read read = .ok vs → NumbersItems P vs
  | .stop .., _, _, h => by
    obtain ⟨-, -, rfl⟩ := Elems.read_stop h
    trivial
  | .item value rest, _, hn, h => by
    obtain ⟨v, vs, hv, hvs, rfl⟩ := Elems.read_item h
    exact ⟨hr hn.1 hv, numbers_read hr rest hn.2 hvs⟩

theorem Entries.Collects.numbers {P : Number → Prop} {read : Reader Json}
    (hr : ∀ {t v}, t.Numbers P → read t = .ok v → v.Numbers P) : {entries : Entries} →
    {ms : Members} → entries.Numbers P → entries.Collects read ms → NumbersMembers P ms
  | .stop .., _, _, h => by
    obtain rfl : _ = [] := h
    trivial
  | .noKey _, _, _, h => absurd h id
  | .noColon .., _, _, h => absurd h id
  | .member .., _, hn, h => by
    obtain ⟨k, v, ms, -, hv, hms, rfl⟩ := h
    exact ⟨hr hn.1 hv, hms.numbers hr hn.2⟩

/-- A value has the numbers of the tree that it is read from. -/
theorem numbers_content {P : Number → Prop} (depth : Nat) : ∀ {t : Tree} {v : Json}, t.Numbers P →
    t.content depth = .ok v → v.Numbers P := by
  induction depth with
  | zero =>
    intro t v hn h
    cases t with
    | absent => rw [Tree.content.eq_def] at h; cases h
    | string => obtain ⟨s, -, rfl⟩ := content_string h; trivial
    | scalar =>
      obtain ⟨s, hs, rfl⟩ := content_scalar h
      cases s with
      | number n => exact hn n hs
      | null | bool => trivial
    | array | object => cases h
  | succ depth ih =>
    intro t v hn h
    cases t with
    | absent => rw [Tree.content.eq_def] at h; cases h
    | string => obtain ⟨s, -, rfl⟩ := content_string h; trivial
    | scalar =>
      obtain ⟨s, hs, rfl⟩ := content_scalar h
      cases s with
      | number n => exact hn n hs
      | null | bool => trivial
    | array start elems =>
      obtain ⟨vs, hvs, rfl⟩ := Except.map_eq_ok_iff.1 h
      exact Elems.numbers_read ih elems hn hvs
    | object start entries =>
      obtain ⟨ms, hms, rfl⟩ := Except.map_eq_ok_iff.1 h
      exact (Entries.collects_of_read hms).numbers ih hn

theorem numbers_value {P : Number → Prop} {depth : Nat} {t : Tree} {v : Json} (hn : t.Numbers P)
    (h : t.value depth = .ok v) : v.Numbers P := by
  obtain ⟨w, hw, rfl⟩ := Except.map_eq_ok_iff.1 h
  exact Numbers.canonical w (numbers_content depth hn hw)

end ImportBinding.Json
