/-
  ImportBinding — members of an object in order.

  * `Members.Sorted.insert` and its companions: the operations keep the order;
  * `Members.Sorted.ext`: members in order are known by what is found in them, and so
    `Sorted.insert_erase` and its companions say which operations undo each other;
  * `canonical_canonical`: the canonical form of a value is `Canonical`, and a canonical
    value is its own canonical form.
-/
import ImportBinding.Json.Basic
import Mathlib.Data.List.Sort

namespace ImportBinding.Json

/-- Of two different keys one stands before the other. -/
theorem key_lt_of_not_lt {k l : String} (hne : k ≠ l) (h : ¬ k < l) : l < k := by
  rcases Std.lt_trichotomy k l with hlt | heq | hgt
  · exact absurd hlt h
  · exact absurd heq hne
  · exact hgt

namespace Members

/-! ## Keys -/

/-- The keys of an object, in its order. -/
def keys (ms : Members) : List String :=
  ms.map Prod.fst

theorem find?_eq_none_iff {k : String} {ms : Members} : find? k ms = none ↔ k ∉ ms.keys := by
  induction ms with
  | nil => simp [find?, keys]
  | cons m rest ih =>
    obtain ⟨l, v⟩ := m
    by_cases h : k = l
    · simp [find?, keys, h]
    · simp only [find?, h, if_false, ih, keys, List.map_cons, List.mem_cons, false_or]

theorem mem_of_find? {k : String} {v : Json} {ms : Members} (h : find? k ms = some v) :
    (k, v) ∈ ms := by
  induction ms with
  | nil => exact absurd h (by simp [find?])
  | cons m rest ih =>
    obtain ⟨l, w⟩ := m
    rw [find?] at h
    split at h
    · next hk =>
      obtain rfl := Option.some.inj h
      rw [hk]; exact List.mem_cons_self
    · exact List.mem_cons_of_mem _ (ih h)

theorem keys_insert {key : String} {value : Json} {ms : Members} {k : String}
    (h : k ∈ (insert key value ms).keys) : k = key ∨ k ∈ ms.keys := by
  have hm : find? k (insert key value ms) ≠ none := fun hn => find?_eq_none_iff.1 hn h
  by_cases hk : k = key
  · exact Or.inl hk
  · rw [find?_insert_of_ne hk] at hm
    exact Or.inr (Classical.not_not.1 fun hn => hm (find?_eq_none_iff.2 hn))

/-! ## Order -/

/-- In members in order the keys behind a member are greater. -/
theorem Sorted.lt_of_mem {k l : String} {v : Json} {ms : Members} (h : Sorted ((k, v) :: ms))
    (hl : l ∈ ms.keys) : k < l := by
  obtain ⟨m, hm, rfl⟩ := List.mem_map.1 hl
  exact (List.pairwise_cons.1 h).1 m hm

theorem Sorted.tail {ms : Members} {m : String × Json} (h : Sorted (m :: ms)) : Sorted ms :=
  (List.pairwise_cons.1 h).2

theorem sorted_cons {k : String} {v : Json} {ms : Members} (hlt : ∀ l ∈ ms.keys, k < l)
    (h : Sorted ms) : Sorted ((k, v) :: ms) :=
  List.pairwise_cons.2 ⟨fun _ hm => hlt _ (List.mem_map_of_mem hm), h⟩

/-- No key of members in order comes twice. -/
theorem Sorted.nodup_keys {ms : Members} (h : Sorted ms) : ms.keys.Nodup := by
  rw [keys, List.Nodup, List.pairwise_map]
  refine List.Pairwise.imp (fun hlt he => ?_) h
  rw [he] at hlt
  exact String.lt_irrefl _ hlt

theorem Sorted.find?_tail {k : String} {v : Json} {ms : Members} (h : Sorted ((k, v) :: ms)) :
    find? k ms = none :=
  find?_eq_none_iff.2 (List.nodup_cons.1 h.nodup_keys).1

theorem find?_of_mem {k : String} {v : Json} {ms : Members} (h : ms.keys.Nodup)
    (hm : (k, v) ∈ ms) : find? k ms = some v := by
  induction ms with
  | nil => exact absurd hm (by simp)
  | cons m rest ih =>
    obtain ⟨l, w⟩ := m
    obtain ⟨hl, hrest⟩ := List.nodup_cons.1 h
    rcases List.mem_cons.1 hm with heq | hr
    · obtain ⟨rfl, rfl⟩ := Prod.mk.inj heq; simp [find?]
    · have hne : k ≠ l := by
        rintro rfl
        exact hl (List.mem_map.2 ⟨_, hr, rfl⟩)
      simpa [find?, hne] using ih hrest hr

theorem Sorted.insert {ms : Members} (h : Sorted ms) (key : String) (value : Json) :
    Sorted (Members.insert key value ms) := by
  induction ms with
  | nil => exact sorted_cons (by simp [keys]) List.Pairwise.nil
  | cons m rest ih =>
    obtain ⟨k, v⟩ := m
    rw [Members.insert]
    split
    · next hk => subst hk; exact sorted_cons (fun l hl => h.lt_of_mem hl) h.tail
    · split
      · next _ hlt =>
        refine sorted_cons (fun l hl => ?_) h
        rcases List.mem_cons.1 hl with rfl | hl
        · exact hlt
        · exact String.lt_trans hlt (h.lt_of_mem hl)
      · next hne hnlt =>
        refine sorted_cons (fun l hl => ?_) (ih h.tail)
        rcases keys_insert hl with rfl | hl
        · exact key_lt_of_not_lt hne hnlt
        · exact h.lt_of_mem hl

theorem erase_sublist (key : String) (ms : Members) : (erase key ms).Sublist ms := by
  induction ms with
  | nil => exact List.Sublist.slnil
  | cons m rest ih =>
    obtain ⟨k, v⟩ := m
    rw [erase]
    split
    · exact List.sublist_cons_self _ _
    · exact ih.cons_cons _

theorem Sorted.erase {ms : Members} (h : Sorted ms) (key : String) :
    Sorted (Members.erase key ms) :=
  List.Pairwise.sublist (erase_sublist key ms) h

theorem Sorted.find?_erase_self {ms : Members} (h : Sorted ms) (key : String) :
    find? key (Members.erase key ms) = none := by
  induction ms with
  | nil => rfl
  | cons m rest ih =>
    obtain ⟨k, v⟩ := m
    rw [Members.erase]
    split
    · next hk => subst hk; exact h.find?_tail
    · next hk => simpa [find?, hk] using ih h.tail

/-! ## Members by what is found in them -/

variable {ms ns : Members} {k : String} {v w : Json}

theorem Sorted.mem_iff (h : ms.Sorted) {m : String × Json} :
    m ∈ ms ↔ ms.find? m.1 = some m.2 :=
  ⟨fun hm => find?_of_mem h.nodup_keys hm, fun hm => mem_of_find? hm⟩

/-- Members in order are known by what is found in them. -/
theorem Sorted.ext (hs : ms.Sorted) (ht : ns.Sorted) (h : ∀ k, ms.find? k = ns.find? k) :
    ms = ns := by
  have hperm : ms.Perm ns := (List.perm_ext_iff_of_nodup hs.nodup ht.nodup).2 fun m => by
    rw [hs.mem_iff, ht.mem_iff, h]
  exact hperm.eq_of_pairwise (fun a b _ _ hab hba => absurd hab (String.lt_asymm hba)) hs ht

theorem insert_insert : (ms.insert k v).insert k w = ms.insert k w := by
  induction ms with
  | nil => simp [insert]
  | cons m rest ih => grind [insert]

/-- Removing what was added under a new key leaves the members as they were. -/
theorem erase_insert (h : ms.find? k = none) : (ms.insert k v).erase k = ms := by
  induction ms with
  | nil => simp [insert, erase]
  | cons m rest ih => grind [insert, erase, find?]

theorem erase_of_find?_eq_none (h : ms.find? k = none) : ms.erase k = ms := by
  induction ms with
  | nil => rfl
  | cons m rest ih => grind [erase, find?]

/-- Setting a member to what it is changes nothing. -/
theorem Sorted.insert_of_find? (hs : ms.Sorted) (h : ms.find? k = some v) :
    ms.insert k v = ms := by
  refine (hs.insert k v).ext hs fun l => ?_
  by_cases hl : l = k
  · rw [hl, find?_insert_self, h]
  · exact find?_insert_of_ne hl v ms

/-- Adding what was removed restores the members. -/
theorem Sorted.insert_erase (hs : ms.Sorted) (h : ms.find? k = some v) :
    (ms.erase k).insert k v = ms := by
  refine ((hs.erase k).insert k v).ext hs fun l => ?_
  by_cases hl : l = k
  · rw [hl, find?_insert_self, h]
  · rw [find?_insert_of_ne hl, find?_erase_of_ne hl]

end Members

/-! ## Canonical values -/

theorem canonicalItems_eq_map (items : List Json) :
    canonicalItems items = items.map canonical := by
  induction items with
  | nil => rfl
  | cons v rest ih => rw [canonicalItems, ih]; rfl

theorem sorted_canonicalMembers (ms : Members) :
    ∀ {acc : Members}, Members.Sorted acc → Members.Sorted (canonicalMembers acc ms) := by
  induction ms with
  | nil => intro acc h; exact h
  | cons m rest ih => intro acc h; exact ih (h.insert ..)

theorem canonicalItems_iff {items : List Json} :
    CanonicalItems items ↔ ∀ v ∈ items, v.Canonical := by
  induction items with
  | nil => simp [CanonicalItems]
  | cons v rest ih => simp [CanonicalItems, ih]

theorem canonicalMembers_iff {ms : Members} : CanonicalMembers ms ↔ ∀ m ∈ ms, m.2.Canonical := by
  induction ms with
  | nil => simp [CanonicalMembers]
  | cons m rest ih => simp [CanonicalMembers, ih]

theorem Members.mem_insert {key : String} {value : Json} {ms : Members} {m : String × Json}
    (h : m ∈ Members.insert key value ms) : m = (key, value) ∨ m ∈ ms := by
  induction ms with
  | nil => exact Or.inl (List.mem_singleton.1 h)
  | cons n rest ih =>
    obtain ⟨k, v⟩ := n
    rw [Members.insert] at h
    split at h
    · exact (List.mem_cons.1 h).imp id (List.mem_cons_of_mem _)
    · split at h
      · exact List.mem_cons.1 h
      · rcases List.mem_cons.1 h with h | h
        · exact Or.inr (h ▸ List.mem_cons_self)
        · exact (ih h).imp id (List.mem_cons_of_mem _)

/-- What canonical members hold comes from the members put over each other. -/
theorem mem_canonicalMembers {ms acc : Members} {m : String × Json}
    (h : m ∈ canonicalMembers acc ms) :
    m ∈ acc ∨ ∃ v, (m.1, v) ∈ ms ∧ m.2 = v.canonical := by
  induction ms generalizing acc with
  | nil => exact Or.inl h
  | cons n rest ih =>
    obtain ⟨k, v⟩ := n
    rcases ih h with h | ⟨w, hw, he⟩
    · rcases Members.mem_insert h with rfl | h
      · exact Or.inr ⟨v, List.mem_cons_self, rfl⟩
      · exact Or.inl h
    · exact Or.inr ⟨w, List.mem_cons_of_mem _ hw, he⟩

mutual

/-- The canonical form is canonical. -/
theorem canonical_canonical : (v : Json) → v.canonical.Canonical
  | .null | .bool _ | .number _ | .string _ => by simp [canonical, Canonical]
  | .array items => by
    simp only [canonical, Canonical]
    exact canonicalItems_canonical items
  | .object members => by
    simp only [canonical, Canonical]
    exact ⟨sorted_canonicalMembers members List.Pairwise.nil,
      canonicalMembers_canonical members trivial⟩

theorem canonicalItems_canonical : (vs : List Json) → CanonicalItems (canonicalItems vs)
  | [] => trivial
  | v :: rest => ⟨canonical_canonical v, canonicalItems_canonical rest⟩

theorem canonicalMembers_canonical : (ms : Members) → {acc : Members} → CanonicalMembers acc →
    CanonicalMembers (canonicalMembers acc ms)
  | [], _, h => h
  | (k, v) :: rest, acc, h => by
    refine canonicalMembers_canonical rest (canonicalMembers_iff.2 fun m hm => ?_)
    rcases Members.mem_insert hm with rfl | hm
    · exact canonical_canonical v
    · exact canonicalMembers_iff.1 h m hm

end

/-- The members put over others that all have smaller keys follow them. -/
theorem canonicalMembers_eq_append {ms : Members} (hc : ∀ m ∈ ms, m.2.canonical = m.2) :
    ∀ {acc : Members}, Members.Sorted (acc ++ ms) → canonicalMembers acc ms = acc ++ ms := by
  induction ms with
  | nil => intro acc _; simp [canonicalMembers]
  | cons m rest ih =>
    obtain ⟨k, v⟩ := m
    intro acc h
    have hins : Members.insert k v acc = acc ++ [(k, v)] := by
      have hlt : ∀ m ∈ acc, m.1 < k := fun m hm =>
        (List.pairwise_append.1 h).2.2 m hm (k, v) List.mem_cons_self
      clear ih h
      induction acc with
      | nil => rfl
      | cons n acc ih =>
        have hn := hlt n List.mem_cons_self
        rw [Members.insert, if_neg (fun he => String.lt_irrefl _ (he ▸ hn)),
          if_neg (String.lt_asymm hn), ih fun m hm => hlt m (List.mem_cons_of_mem _ hm)]
        rfl
    have hv : v.canonical = v := hc (k, v) List.mem_cons_self
    rw [canonicalMembers, hv, hins, ih (fun m hm => hc m (List.mem_cons_of_mem _ hm))
      (by simpa using h)]
    simp

mutual

/-- A canonical value is its own canonical form. -/
theorem canonical_eq_self : {v : Json} → v.Canonical → v.canonical = v
  | .null, _ | .bool _, _ | .number _, _ | .string _, _ => rfl
  | .array items, h => by
    simp only [Canonical] at h
    rw [canonical, canonicalItems_eq_self h]
  | .object members, h => by
    simp only [Canonical] at h
    rw [canonical, canonicalMembers_eq_append (canonicalMembers_eq_self h.2) (by simpa using h.1)]
    rfl

theorem canonicalItems_eq_self : {vs : List Json} → CanonicalItems vs → canonicalItems vs = vs
  | [], _ => rfl
  | v :: rest, h => by rw [canonicalItems, canonical_eq_self h.1, canonicalItems_eq_self h.2]

theorem canonicalMembers_eq_self : {ms : Members} → CanonicalMembers ms →
    ∀ m ∈ ms, m.2.canonical = m.2
  | [], _, _, hm => absurd hm (by simp)
  | (_, v) :: rest, h, m, hm => by
    rcases List.mem_cons.1 hm with rfl | hm
    · exact canonical_eq_self h.1
    · exact canonicalMembers_eq_self h.2 m hm

end

end ImportBinding.Json
