/-
  ImportBinding — quickfixes keep values that can be printed.

  A value of a text has its keys in order and opens no more brackets than a text may.  The
  operations of quickfixes set marks and remove bodies, so they keep both, and bring in no
  numbers: what they leave can be printed and read again.

  * `Regular` is the property, by the structure of a value;
  * `Kept.regular`: the values of texts have it, and `Regular.content`: such a value is
    read again from itself;
  * `Quickfix.regular_applyAll`: quickfixes keep it, also those that fail on the way.
-/
import ImportBinding.Proofs.Conformance
import ImportBinding.Proofs.Patch.Put
import ImportBinding.Proofs.Patch.Restoring
import Mathlib.Data.List.InsertIdx

namespace ImportBinding

open Json (Members Pointer Tree)

variable {P : Json.Number → Prop}

namespace Json

/-- No more than `depth` brackets around each other, with the keys of objects in order and
    numbers of the property `P`. -/
inductive Regular (P : Number → Prop) : Nat → Json → Prop where
  | null {depth : Nat} : Regular P depth .null
  | bool {depth : Nat} {b : Bool} : Regular P depth (.bool b)
  | number {depth : Nat} {n : Number} (h : P n) : Regular P depth (.number n)
  | string {depth : Nat} {s : String} : Regular P depth (.string s)
  | array {depth : Nat} {items : List Json} (h : ∀ v ∈ items, Regular P depth v) :
      Regular P (depth + 1) (.array items)
  | object {depth : Nat} {ms : Members} (hs : ms.Sorted) (h : ∀ m ∈ ms, Regular P depth m.2) :
      Regular P (depth + 1) (.object ms)

/-! ## Values of texts -/

theorem content_eq_array {depth : Nat} {t : Tree} {items : List Json}
    (h : t.content depth = .ok (.array items)) :
    ∃ d elems, depth = d + 1 ∧ Elems.read (Tree.content d) elems = .ok items := by
  cases t with
  | absent => rw [Tree.content.eq_def] at h; cases h
  | string => obtain ⟨s, -, he⟩ := content_string h; cases he
  | scalar => obtain ⟨s, -, he⟩ := content_scalar h; cases s <;> cases he
  | array start elems =>
    cases depth with
    | zero => cases h
    | succ d =>
      obtain ⟨vs, hvs, he⟩ := Except.map_eq_ok_iff.1 h
      cases he
      exact ⟨d, elems, rfl, hvs⟩
  | object start entries =>
    obtain ⟨d, ms, -, he⟩ := content_object h
    cases he

theorem content_eq_object {depth : Nat} {t : Tree} {ms : Members}
    (h : t.content depth = .ok (.object ms)) :
    ∃ d entries, depth = d + 1 ∧ Entries.Collects (Tree.content d) entries ms := by
  cases t with
  | absent => rw [Tree.content.eq_def] at h; cases h
  | string => obtain ⟨s, -, he⟩ := content_string h; cases he
  | scalar => obtain ⟨s, -, he⟩ := content_scalar h; cases s <;> cases he
  | array start elems =>
    obtain ⟨d, vs, -, he⟩ := content_array h
    cases he
  | object start entries =>
    cases depth with
    | zero => cases h
    | succ d =>
      obtain ⟨ns, hns, he⟩ := Except.map_eq_ok_iff.1 h
      cases he
      exact ⟨d, entries, rfl, Entries.collects_of_read hns⟩

theorem Elems.of_mem_read {α : Type} {read : Reader α} {a : α} : {elems : Elems} → {as : List α} →
    elems.read read = .ok as → a ∈ as → ∃ t, read t = .ok a
  | .stop .., _, h, ha => by
    obtain ⟨-, -, rfl⟩ := Elems.read_stop h
    exact absurd ha (by simp)
  | .item value rest, _, h, ha => by
    obtain ⟨b, bs, hb, hbs, rfl⟩ := Elems.read_item h
    rcases List.mem_cons.1 ha with rfl | ha
    · exact ⟨value, hb⟩
    · exact of_mem_read hbs ha

/-- A canonical value of a text is regular. -/
theorem Kept.regular (depth : Nat) : ∀ {v : Json}, Kept P depth v → v.Canonical →
    Regular P depth v := by
  induction depth using Nat.strongRecOn with
  | ind depth ih =>
    rintro v ⟨hnumbers, t, ht⟩ hcanonical
    cases v with
    | null => exact .null
    | bool b => exact .bool
    | number n => exact .number hnumbers
    | string s => exact .string
    | array items =>
      obtain ⟨d, elems, rfl, hread⟩ := content_eq_array ht
      refine .array fun v hv => ih d (Nat.lt_succ_self d) ⟨?_, Elems.of_mem_read hread hv⟩ ?_
      · exact numbersItems_iff.1 hnumbers v hv
      · exact canonicalItems_iff.1 hcanonical v hv
    | object ms =>
      obtain ⟨d, entries, rfl, hread⟩ := content_eq_object ht
      refine .object hcanonical.1 fun m hm =>
        ih d (Nat.lt_succ_self d) ⟨?_, hread.of_mem hm⟩ ?_
      · exact numbersMembers_iff.1 hnumbers m hm
      · exact canonicalMembers_iff.1 hcanonical.2 m hm

namespace Regular

variable {depth : Nat}

theorem numbers {v : Json} (h : Regular P depth v) : v.Numbers P := by
  induction h with
  | null | bool | string => trivial
  | number h => exact h
  | array _ ih => exact numbersItems_iff.2 ih
  | object _ _ ih => exact numbersMembers_iff.2 ih

theorem canonical {v : Json} (h : Regular P depth v) : v.Canonical := by
  induction h with
  | null | bool | string | number => trivial
  | array _ ih => exact canonicalItems_iff.2 ih
  | object hs _ ih => exact ⟨hs, canonicalMembers_iff.2 ih⟩

theorem content {v : Json} (h : Regular P depth v) : (Tree.ofJson v).content depth = .ok v := by
  induction h with
  | @null depth | @bool depth | @number depth | @string depth => cases depth <;> rfl
  | array _ ih =>
    exact Except.map_eq_ok_iff.2
      ⟨_, Elems.read_ofItems_iff.2 (List.forall₂_same.2 ih), rfl⟩
  | object _ _ ih =>
    exact Except.map_eq_ok_iff.2 ⟨_, Entries.read_ofMembers (g := id) ih, by simp⟩

/-- A regular value is read again from itself. -/
theorem value {v : Json} (h : Regular P depth v) : (Tree.ofJson v).value depth = .ok v :=
  Except.map_eq_ok_iff.2 ⟨v, h.content, canonical_eq_self h.canonical⟩

/-! ## Parts -/

theorem insert {ms : Members} (h : Regular P (depth + 1) (.object ms)) {v : Json}
    (hv : Regular P depth v) (key : String) :
    Regular P (depth + 1) (.object (ms.insert key v)) := by
  cases h with
  | object hs h =>
    refine .object (hs.insert key v) fun m hm => ?_
    rcases Members.mem_insert hm with rfl | hm
    · exact hv
    · exact h m hm

theorem erase {ms : Members} (h : Regular P (depth + 1) (.object ms)) (key : String) :
    Regular P (depth + 1) (.object (ms.erase key)) := by
  cases h with
  | object hs h =>
    exact .object (hs.erase key) fun m hm => h m ((Members.erase_sublist key ms).subset hm)

/-- What a token leads to has a bracket less around it. -/
theorem child {u v : Json} {token : String} (h : Regular P depth u)
    (hc : Patch.child token u = .ok v) : ∃ d, depth = d + 1 ∧ Regular P d v := by
  obtain ⟨ms, rfl, hm⟩ | ⟨items, i, rfl, -, hi⟩ := Patch.child_eq_ok_iff.1 hc
  · cases h with
    | object hs h => exact ⟨_, rfl, h _ (Members.mem_of_find? hm)⟩
  · cases h with
    | array h => exact ⟨_, rfl, h _ (List.mem_of_getElem? hi)⟩

theorem setChild {u v : Json} (h : Regular P (depth + 1) u) (hv : Regular P depth v)
    (token : String) : Regular P (depth + 1) (Patch.setChild token v u) := by
  cases h with
  | null => exact .null
  | bool => exact .bool
  | number h => exact .number h
  | string => exact .string
  | @array _ items h =>
    rw [Patch.setChild]
    split
    · refine .array fun w hw => ?_
      rcases List.mem_or_eq_of_mem_set hw with hw | rfl
      · exact h w hw
      · exact hv
    · exact .array h
  | object hs h => exact (Regular.object hs h).insert hv token

/-- A change of a part keeps what it keeps of the part. -/
theorem modify {ε : Type} {miss : Patch.Miss → ε} {f : Json → Except ε Json}
    (hf : ∀ {d u w}, Regular P d u → f u = .ok w → Regular P d w) : ∀ {p : Pointer} {depth : Nat}
    {u w : Json}, Regular P depth u → Patch.modify miss f p u = .ok w → Regular P depth w
  | [], _, _, _, h, hw => hf h hw
  | token :: p, depth, u, w, h, hw => by
    rw [Patch.modify] at hw
    split at hw
    · cases hw
    · next v hv =>
      obtain ⟨w', hw', rfl⟩ := Except.map_eq_ok_iff.1 hw
      obtain ⟨d, rfl, hv⟩ := h.child hv
      exact h.setChild (modify hf hv hw') token

end Regular

end Json

/-! ## Operations -/

namespace Patch

open Json (Regular)

variable {depth : Nat} {u w : Json}

theorem regular_addChild {path token : String} {b : Bool} (h : Regular P depth u)
    (hw : addChild path (.bool b) token u = .ok w) : Regular P depth w := by
  obtain ⟨ms, rfl, rfl⟩ | ⟨items, i, rfl, rfl, -⟩ := addChild_eq_ok_iff.1 hw
  · cases h with
    | object hs h => exact (Regular.object hs h).insert .bool token
  · cases h with
    | array h =>
      refine .array fun v hv => ?_
      rcases List.eq_or_mem_of_mem_insertIdx hv with rfl | hv
      · exact .bool
      · exact h v hv

theorem regular_removeChild {path token : String} (h : Regular P depth u)
    (hw : removeChild path token u = .ok w) : Regular P depth w := by
  obtain ⟨ms, rfl, rfl, -⟩ | ⟨items, i, rfl, rfl, -⟩ := removeChild_eq_ok_iff.1 hw
  · cases h with
    | object hs h => exact (Regular.object hs h).erase token
  · cases h with
    | array h => exact .array fun v hv => h v (List.mem_of_mem_eraseIdx hv)

/-- An operation that mends keeps regular values. -/
theorem regular_mending {T : Pointer} (h : Regular P depth u)
    (hw : (Op.mending T).apply u = .ok w) : Regular P depth w := by
  unfold Op.mending at hw
  split at hw
  · obtain ⟨p, -, hw⟩ := Except.bind_eq_ok_iff.1 hw
    split at hw
    · cases hw
    · exact h.modify regular_removeChild hw
  · obtain ⟨p, -, hw⟩ := Except.bind_eq_ok_iff.1 hw
    split at hw
    · cases hw; exact .bool
    · exact h.modify regular_addChild hw

theorem regular_apply : ∀ {ts : List Pointer} {u : Json}, Regular P depth u →
    Regular P depth (apply (ts.map Op.mending) u).1
  | [], _, h => h
  | T :: ts, u, h => by
    rw [List.map_cons, apply]
    cases hT : (Op.mending T).apply u with
    | error fault => exact h
    | ok w => exact regular_apply (regular_mending h hT)

end Patch

/-- Quickfixes that mend keep regular values. -/
theorem Quickfix.regular_applyAll {depth : Nat} : ∀ {qs : List Quickfix} {u : Json},
    (∀ q ∈ qs, q.Mends) → Json.Regular P depth u → Json.Regular P depth (applyAll qs u).1
  | [], _, _, h => h
  | q :: qs, u, hq, h => by
    have hpatch : Json.Regular P depth (Patch.apply q.patch u).1 := by
      rw [show q.patch = _ from hq q List.mem_cons_self]
      exact Patch.regular_apply h
    rw [applyAll]
    split
    · next w hw =>
      rw [hw] at hpatch
      exact regular_applyAll (fun q h => hq q (List.mem_cons_of_mem _ h)) hpatch
    · next hw =>
      rw [hw] at hpatch
      exact hpatch

end ImportBinding
