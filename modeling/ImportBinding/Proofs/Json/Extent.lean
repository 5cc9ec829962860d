/-
  ImportBinding — how many items a text can write.

  Every element of a list costs a byte of the text.  So in the value of a text that fits
  the memory of a machine each item has an index that a word of 64 bits holds.

  * `Addressable` values have such indexes, and keys once and in order;
  * `count_readElems_le` bounds the elements by the bytes;
  * `addressable_of_content` is the bound for the value of a text.
-/
import ImportBinding.Proofs.Json.Reading

namespace ImportBinding.Json

/-! ## Bytes -/

namespace Cursor

/-- The number of bytes from a place on. -/
def left (c : Cursor) : Nat :=
  c.rest.length

theorem left_skip_le (p : UInt8 → Bool) (c : Cursor) : (c.skip p).left ≤ c.left :=
  (List.dropWhile_sublist p).length_le

theorem left_skipBlank_le (c : Cursor) : c.skipBlank.left ≤ c.left :=
  left_skip_le isBlank c

theorem left_step_le (c : Cursor) : c.step.left ≤ c.left := by
  unfold step left
  split <;> simp [*]

theorem left_step_lt {c : Cursor} {b : UInt8} (h : c.next? = some b) :
    c.step.left + 1 = c.left := by
  unfold step left
  split
  · next he => simp [next?, he] at h
  · next he => simp [he]

@[simp] theorem left_cut (c : Cursor) : c.cut.left = 0 := rfl

end Cursor

theorem left_passText_le (offset : Nat) (bytes : List UInt8) :
    ∀ {after : Cursor}, passText offset bytes = .ok after → after.left ≤ bytes.length := by
  fun_induction passText offset bytes
  case case2 => intro after h; cases h; simp [Cursor.left]
  case case4 ih | case7 ih | case10 ih =>
    intro after h
    have := ih h
    simp only [List.length_cons]
    omega
  all_goals intro after h; cases h

theorem Literal.left_string_le (c : Cursor) : (Literal.string c).2.left ≤ c.left := by
  unfold Literal.string
  split
  · next h => exact left_passText_le _ _ h
  · simp

theorem Literal.left_expect_le (letters : List UInt8) : ∀ {c after : Cursor},
    Literal.expect letters c = .ok after → after.left ≤ c.left := by
  induction letters with
  | nil => intro c after h; cases h; exact Nat.le_refl _
  | cons w ws ih =>
    intro c after h
    rw [expect] at h
    split at h
    · cases h
    · split at h
      · exact Nat.le_trans (ih h) (Cursor.left_step_le c)
      · cases h

theorem Literal.left_word_le (letters : List UInt8) (value : Scalar) (c : Cursor) :
    (Literal.word letters value c).2.left ≤ c.left := by
  unfold Literal.word
  split
  · next h => exact Literal.left_expect_le letters h
  · simp

theorem Numeral.left_scanWhole_le {c after : Cursor} {ds : List UInt8}
    (h : Numeral.scanWhole c = .ok (ds, after)) : after.left ≤ c.left := by
  simp only [scanWhole, digits] at h
  split at h
  · cases h
  · split at h
    · cases h
    · cases h; exact Cursor.left_skip_le ..

/-- The place behind digits that must be there. -/
theorem Numeral.left_digits_le {α : Type} {c after : Cursor} {a a' : α}
    (h : (if (digits c).1 = [] then .error (missing c) else .ok (a, (digits c).2) :
      Except Broken (α × Cursor)) = .ok (a', after)) : after.left ≤ c.left := by
  split at h
  · cases h
  · cases h; exact Cursor.left_skip_le ..

theorem Numeral.left_scanFraction_le {c after : Cursor} {ds : List UInt8}
    (h : Numeral.scanFraction c = .ok (ds, after)) : after.left ≤ c.left := by
  unfold scanFraction at h
  split at h
  · exact Nat.le_trans (left_digits_le h) (Cursor.left_step_le c)
  · cases h; exact Nat.le_refl _

theorem Numeral.left_scanPower_le {c after : Cursor} {power : Option (Bool × List UInt8)}
    {start : Nat} (h : Numeral.scanPower c = .ok (power, start, after)) : after.left ≤ c.left := by
  have hstep := Cursor.left_step_le c
  have hstep' := Cursor.left_step_le c.step
  unfold scanPower at h
  split at h
  · dsimp only at h
    generalize hd : (if c.step.next? = some 0x2b ∨ c.step.next? = some 0x2d then c.step.step
      else c.step) = d at h
    have hle : d.left ≤ c.left := by
      rw [← hd]
      split <;> omega
    split at h
    · cases h
    · cases h; exact Nat.le_trans (Cursor.left_skip_le ..) hle
  · cases h; exact Nat.le_refl _

theorem Numeral.left_scan_le {c after : Cursor} {x : Numeral}
    (h : Numeral.scan c = .ok (x, after)) : after.left ≤ c.left := by
  obtain ⟨⟨whole, c₁⟩, hw, h⟩ := Except.bind_eq_ok_iff.1 h
  obtain ⟨⟨fraction, c₂⟩, hf, h⟩ := Except.bind_eq_ok_iff.1 h
  obtain ⟨⟨power, start, c₃⟩, hp, h⟩ := Except.bind_eq_ok_iff.1 h
  cases h
  have hsign : (if c.next? == some 0x2d then c.step else c).left ≤ c.left := by
    split
    · exact Cursor.left_step_le c
    · exact Nat.le_refl _
  have h₁ := left_scanWhole_le hw
  have h₂ := left_scanFraction_le hf
  have h₃ := left_scanPower_le hp
  omega

theorem Literal.left_scalar?_le {b : UInt8} {c after : Cursor} {l : Literal Scalar}
    (h : Literal.scalar? b c = some (l, after)) : after.left ≤ c.left := by
  have hnumber : (Literal.number c).2.left ≤ c.left := by
    unfold Literal.number
    split
    · next hs => exact Numeral.left_scan_le hs
    · simp
  unfold Literal.scalar? at h
  split at h
  · rw [Option.some.inj h] at hnumber; exact hnumber
  · have hword := fun letters value => Literal.left_word_le letters value c
    split at h
    · have := hword [0x6e, 0x75, 0x6c, 0x6c] .null
      rwa [Option.some.inj h] at this
    · split at h
      · have := hword [0x74, 0x72, 0x75, 0x65] (.bool true)
        rwa [Option.some.inj h] at this
      · split at h
        · have := hword [0x66, 0x61, 0x6c, 0x73, 0x65] (.bool false)
          rwa [Option.some.inj h] at this
        · cases h

mutual

theorem left_readValue_le : (fuel : Nat) → (c : Cursor) → (readValue fuel c).2.left ≤ c.left
  | 0, c => by simp [readValue]
  | fuel + 1, c => by
    have hb := Cursor.left_skipBlank_le c
    have hs := Cursor.left_step_le c.skipBlank
    rw [readValue]
    split
    · exact hb
    · split
      · have := left_readElems_le fuel true c.skipBlank.step
        dsimp only
        omega
      · split
        · have := left_readEntries_le fuel true c.skipBlank.step
          dsimp only
          omega
        · split
          · have := Literal.left_string_le c.skipBlank.step
            dsimp only
            omega
          · split
            · next h =>
              have := Literal.left_scalar?_le h
              dsimp only
              omega
            · simp

theorem left_readElems_le : (fuel : Nat) → (first : Bool) → (c : Cursor) →
    (readElems fuel first c).2.left ≤ c.left
  | 0, _, c => by simp [readElems]
  | fuel + 1, first, c => by
    have hb := Cursor.left_skipBlank_le c
    have hs := Cursor.left_step_le c.skipBlank
    have hb' := Cursor.left_skipBlank_le c.skipBlank.step
    rw [readElems]
    split
    · exact hb
    · split
      · exact Nat.le_trans hs hb
      · split
        · exact Nat.le_trans (left_readItem_le fuel _) hb
        · split
          · dsimp only
            split
            · dsimp only; omega
            · split
              · simp
              · have := left_readItem_le fuel c.skipBlank.step.skipBlank
                omega
          · simp

theorem left_readItem_le : (fuel : Nat) → (c : Cursor) → (readItem fuel c).2.left ≤ c.left
  | 0, c => by simp [readItem]
  | fuel + 1, c => by
    have hv := left_readValue_le fuel c
    have he := left_readElems_le fuel false (readValue fuel c).2
    rw [readItem]
    exact Nat.le_trans he hv

theorem left_readEntries_le : (fuel : Nat) → (first : Bool) → (c : Cursor) →
    (readEntries fuel first c).2.left ≤ c.left
  | 0, _, c => by simp [readEntries]
  | fuel + 1, first, c => by
    have hb := Cursor.left_skipBlank_le c
    have hs := Cursor.left_step_le c.skipBlank
    have hb' := Cursor.left_skipBlank_le c.skipBlank.step
    rw [readEntries]
    split
    · exact hb
    · split
      · exact Nat.le_trans hs hb
      · split
        · exact Nat.le_trans (left_readMember_le fuel _) hb
        · split
          · dsimp only
            split
            · dsimp only; omega
            · split
              · simp
              · have := left_readMember_le fuel c.skipBlank.step.skipBlank
                omega
          · simp

theorem left_readMember_le : (fuel : Nat) → (c : Cursor) → (readMember fuel c).2.left ≤ c.left
  | 0, c => by simp [readMember]
  | fuel + 1, c => by
    have hs := Cursor.left_step_le c
    have hk := Literal.left_string_le c.step
    have hb := Cursor.left_skipBlank_le (Literal.string c.step).2
    rw [readMember]
    split
    · dsimp only
      split
      · have hc := Cursor.left_step_le (Literal.string c.step).2.skipBlank
        have hv := left_readValue_le fuel (Literal.string c.step).2.skipBlank.step
        have he := left_readEntries_le fuel false
          (readValue fuel (Literal.string c.step).2.skipBlank.step).2
        dsimp only
        omega
      · simp
    · simp

end

/-! ## Elements -/

def Elems.count : Elems → Nat
  | .stop .. => 0
  | .item _ rest => rest.count + 1

mutual

/-- No list in a tree has more than `n` elements. -/
def Tree.Within (n : Nat) : Tree → Prop
  | .array _ elems => elems.count ≤ n ∧ elems.Within n
  | .object _ entries => entries.Within n
  | _ => True

/-- No list in the elements has more than `n` elements. -/
def Elems.Within (n : Nat) : Elems → Prop
  | .stop .. => True
  | .item value rest => value.Within n ∧ rest.Within n

/-- No list in the members has more than `n` elements. -/
def Entries.Within (n : Nat) : Entries → Prop
  | .member _ _ value rest => value.Within n ∧ rest.Within n
  | _ => True

end

mutual

/-- Every element but the first costs the byte of its comma. -/
theorem count_readElems_le : (fuel : Nat) → (first : Bool) → (c : Cursor) →
    (readElems fuel first c).1.count ≤ c.left + first.toNat
  | 0, _, c => by simp [readElems, Elems.count]
  | fuel + 1, first, c => by
    have hb := Cursor.left_skipBlank_le c
    have hb' := Cursor.left_skipBlank_le c.skipBlank.step
    rw [readElems]
    split
    · simp [Elems.count]
    · next hn =>
      have hs := Cursor.left_step_lt hn
      split
      · simp [Elems.count]
      · split
        · next hf =>
          have := count_readItem_le fuel c.skipBlank
          simp only [hf, Bool.toNat_true]
          omega
        · split
          · dsimp only
            split
            · simp [Elems.count]
            · split
              · simp [Elems.count]
              · have := count_readItem_le fuel c.skipBlank.step.skipBlank
                omega
          · simp [Elems.count]

theorem count_readItem_le : (fuel : Nat) → (c : Cursor) →
    (readItem fuel c).1.count ≤ c.left + 1
  | 0, c => by simp [readItem, Elems.count]
  | fuel + 1, c => by
    have hv := left_readValue_le fuel c
    have he := count_readElems_le fuel false (readValue fuel c).2
    rw [readItem]
    simp only [Elems.count, Bool.toNat_false] at he ⊢
    omega

end

mutual

/-- A text has no list with more elements than it has bytes. -/
theorem within_readValue {n : Nat} : (fuel : Nat) → (c : Cursor) → c.left ≤ n →
    (readValue fuel c).1.Within n
  | 0, c, _ => by simp [readValue, Tree.Within]
  | fuel + 1, c, h => by
    have hb := Cursor.left_skipBlank_le c
    rw [readValue]
    split
    · trivial
    · next hn =>
      have hs := Cursor.left_step_lt hn
      split
      · have := count_readElems_le fuel true c.skipBlank.step
        simp only [Bool.toNat_true] at this
        exact ⟨by omega, within_readElems fuel true c.skipBlank.step (by omega)⟩
      · split
        · exact within_readEntries fuel true c.skipBlank.step (by omega)
        · split
          · trivial
          · split <;> trivial

theorem within_readElems {n : Nat} : (fuel : Nat) → (first : Bool) → (c : Cursor) →
    c.left ≤ n → (readElems fuel first c).1.Within n
  | 0, _, c, _ => by simp [readElems, Elems.Within]
  | fuel + 1, first, c, h => by
    have hb := Cursor.left_skipBlank_le c
    have hs := Cursor.left_step_le c.skipBlank
    have hb' := Cursor.left_skipBlank_le c.skipBlank.step
    rw [readElems]
    split
    · trivial
    · split
      · trivial
      · split
        · exact within_readItem fuel c.skipBlank (by omega)
        · split
          · dsimp only
            split
            · trivial
            · split
              · trivial
              · exact within_readItem fuel c.skipBlank.step.skipBlank (by omega)
          · trivial

theorem within_readItem {n : Nat} : (fuel : Nat) → (c : Cursor) → c.left ≤ n →
    (readItem fuel c).1.Within n
  | 0, c, _ => by simp [readItem, Elems.Within]
  | fuel + 1, c, h => by
    have hv := left_readValue_le fuel c
    rw [readItem]
    exact ⟨within_readValue fuel c h, within_readElems fuel false _ (by omega)⟩

theorem within_readEntries {n : Nat} : (fuel : Nat) → (first : Bool) → (c : Cursor) →
    c.left ≤ n → (readEntries fuel first c).1.Within n
  | 0, _, c, _ => by simp [readEntries, Entries.Within]
  | fuel + 1, first, c, h => by
    have hb := Cursor.left_skipBlank_le c
    have hs := Cursor.left_step_le c.skipBlank
    have hb' := Cursor.left_skipBlank_le c.skipBlank.step
    rw [readEntries]
    split
    · trivial
    · split
      · trivial
      · split
        · exact within_readMember fuel c.skipBlank (by omega)
        · split
          · dsimp only
            split
            · trivial
            · split
              · trivial
              · exact within_readMember fuel c.skipBlank.step.skipBlank (by omega)
          · trivial

theorem within_readMember {n : Nat} : (fuel : Nat) → (c : Cursor) → c.left ≤ n →
    (readMember fuel c).1.Within n
  | 0, c, _ => by simp [readMember, Entries.Within]
  | fuel + 1, c, h => by
    have hs := Cursor.left_step_le c
    have hk := Literal.left_string_le c.step
    have hb := Cursor.left_skipBlank_le (Literal.string c.step).2
    have hc := Cursor.left_step_le (Literal.string c.step).2.skipBlank
    have hv := left_readValue_le fuel (Literal.string c.step).2.skipBlank.step
    rw [readMember]
    split
    · dsimp only
      split
      · exact ⟨within_readValue fuel _ (by omega), within_readEntries fuel false _ (by omega)⟩
      · trivial
    · trivial

end

/-! ## Values -/

mutual

/-- Every item in a value has an index that a word of 64 bits holds, and every object holds
    each key once and in order. -/
def Addressable : Json → Prop
  | array items => items.length < UInt64.size ∧ AddressableItems items
  | object members => Members.Sorted members ∧ AddressableMembers members
  | _ => True

/-- Every item is addressable. -/
def AddressableItems : List Json → Prop
  | [] => True
  | v :: rest => v.Addressable ∧ AddressableItems rest

/-- Every member's value is addressable. -/
def AddressableMembers : Members → Prop
  | [] => True
  | (_, v) :: rest => v.Addressable ∧ AddressableMembers rest

end

theorem addressableItems_iff {items : List Json} :
    AddressableItems items ↔ ∀ v ∈ items, v.Addressable := by
  induction items with
  | nil => simp [AddressableItems]
  | cons v rest ih => simp [AddressableItems, ih]

theorem addressableMembers_iff {ms : Members} :
    AddressableMembers ms ↔ ∀ m ∈ ms, m.2.Addressable := by
  induction ms with
  | nil => simp [AddressableMembers]
  | cons m rest ih => simp [AddressableMembers, ih]

theorem Addressable.insert {ms : Members} (h : (object ms).Addressable) {value : Json}
    (hv : value.Addressable) (key : String) : (object (ms.insert key value)).Addressable := by
  simp only [Addressable, addressableMembers_iff] at h ⊢
  refine ⟨h.1.insert key value, fun m hm => ?_⟩
  rcases Members.mem_insert hm with rfl | hm
  · exact hv
  · exact h.2 m hm

theorem Addressable.erase {ms : Members} (h : (object ms).Addressable) (key : String) :
    (object (ms.erase key)).Addressable := by
  simp only [Addressable, addressableMembers_iff] at h ⊢
  exact ⟨h.1.erase key, fun m hm => h.2 m ((Members.erase_sublist key ms).subset hm)⟩

theorem Addressable.set {items : List Json} (h : (array items).Addressable) {v : Json}
    (hv : v.Addressable) (i : Nat) : (array (items.set i v)).Addressable := by
  simp only [Addressable, addressableItems_iff] at h ⊢
  refine ⟨by simpa using h.1, fun w hw => ?_⟩
  rcases List.mem_or_eq_of_mem_set hw with hw | rfl
  · exact h.2 w hw
  · exact hv

theorem Addressable.sorted {ms : Members} (h : (object ms).Addressable) : ms.Sorted := by
  simp only [Addressable] at h
  exact h.1

theorem Addressable.member {ms : Members} (h : (object ms).Addressable) {key : String} {v : Json}
    (hf : ms.find? key = some v) : v.Addressable := by
  simp only [Addressable, addressableMembers_iff] at h
  exact h.2 _ (Members.mem_of_find? hf)

theorem Addressable.item {items : List Json} (h : (array items).Addressable) {i : Nat} {v : Json}
    (hi : items[i]? = some v) : i < UInt64.size ∧ v.Addressable := by
  simp only [Addressable, addressableItems_iff] at h
  obtain ⟨hlt, -⟩ := List.getElem?_eq_some_iff.1 hi
  exact ⟨by omega, h.2 v (List.mem_of_getElem? hi)⟩

theorem Elems.length_of_read {α : Type} {read : Reader α} : (elems : Elems) → {as : List α} →
    elems.read read = .ok as → as.length = elems.count
  | .stop .., _, h => by
    obtain ⟨-, -, rfl⟩ := Elems.read_stop h
    rfl
  | .item _ rest, _, h => by
    obtain ⟨a, as, -, has, rfl⟩ := Elems.read_item h
    rw [Elems.count, List.length_cons, length_of_read rest has]

theorem Elems.addressable {n d : Nat}
    (hr : ∀ {t v}, t.Within n → Tree.content d t = .ok v → v.canonical.Addressable) :
    (elems : Elems) → {vs : List Json} → elems.Within n → elems.read (Tree.content d) = .ok vs →
    AddressableItems (canonicalItems vs)
  | .stop .., _, _, h => by
    obtain ⟨-, -, rfl⟩ := Elems.read_stop h
    trivial
  | .item value rest, _, hw, h => by
    obtain ⟨v, vs, hv, hvs, rfl⟩ := Elems.read_item h
    exact ⟨hr hw.1 hv, addressable hr rest hw.2 hvs⟩

theorem Entries.addressable {n d : Nat}
    (hr : ∀ {t v}, t.Within n → Tree.content d t = .ok v → v.canonical.Addressable) :
    (entries : Entries) → {ms : Members} → entries.Within n →
    entries.Collects (Tree.content d) ms → ∀ m ∈ ms, m.2.canonical.Addressable
  | .stop .., _, _, h, m, hm => by
    obtain rfl : _ = [] := h
    exact absurd hm (by simp)
  | .noKey _, _, _, h, _, _ => absurd h id
  | .noColon .., _, _, h, _, _ => absurd h id
  | .member _ _ value rest, _, hw, h, m, hm => by
    obtain ⟨k, v, ms, -, hv, hms, rfl⟩ := h
    rcases List.mem_cons.1 hm with rfl | hm
    · exact hr hw.1 hv
    · exact addressable hr rest hw.2 hms m hm

/-- In the value of a tree without long lists every item has an index. -/
theorem addressable_of_content {n : Nat} (hn : n < UInt64.size) (D : Nat) :
    ∀ {t : Tree} {v : Json}, t.Within n → t.content D = .ok v → v.canonical.Addressable := by
  induction D with
  | zero =>
    intro t v hw h
    cases t with
    | absent => rw [Tree.content.eq_def] at h; cases h
    | string => obtain ⟨s, -, rfl⟩ := content_string h; simp [canonical, Addressable]
    | scalar =>
      obtain ⟨s, -, rfl⟩ := content_scalar h
      cases s <;> simp [Scalar.toJson, canonical, Addressable]
    | array | object => cases h
  | succ d ih =>
    intro t v hw h
    cases t with
    | absent => rw [Tree.content.eq_def] at h; cases h
    | string => obtain ⟨s, -, rfl⟩ := content_string h; simp [canonical, Addressable]
    | scalar =>
      obtain ⟨s, -, rfl⟩ := content_scalar h
      cases s <;> simp [Scalar.toJson, canonical, Addressable]
    | array start elems =>
      obtain ⟨vs, hvs, rfl⟩ := Except.map_eq_ok_iff.1 h
      have hlen := Elems.length_of_read elems hvs
      have hcount := hw.1
      simp only [canonical, Addressable]
      refine ⟨?_, Elems.addressable ih elems hw.2 hvs⟩
      rw [canonicalItems_eq_map, List.length_map]
      omega
    | object start entries =>
      obtain ⟨ms, hms, rfl⟩ := Except.map_eq_ok_iff.1 h
      have ha := Entries.addressable ih entries hw (Entries.collects_of_read hms)
      simp only [canonical, Addressable, addressableMembers_iff]
      refine ⟨sorted_canonicalMembers ms List.Pairwise.nil, fun m hm => ?_⟩
      rcases mem_canonicalMembers hm with hm | ⟨w, hw, he⟩
      · exact absurd hm (by simp)
      · rw [he]; exact ha _ hw

/-- In the value of a text that fits the memory of a machine every item has an index. -/
theorem addressable_of_read {text : List UInt8} (hn : text.length < UInt64.size) {D : Nat} {v : Json}
    (h : (Tree.read text).1.content D = .ok v) : v.canonical.Addressable :=
  addressable_of_content hn D (within_readValue _ _ (Nat.le_refl _)) h

end ImportBinding.Json
