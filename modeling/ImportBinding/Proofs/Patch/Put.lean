/-
  ImportBinding — putting values at pointers.

  An edit takes the value that its path leads to and puts what becomes of it in the same place.
  Whatever the edit does there, taking and putting obey the same few laws.

  * `child_eq_ok_iff` is where a token leads, and `setChild_child` and its companions are the
    laws of one step;
  * `put` puts a value at a pointer; `at?_put`, `put_put` and `put_at?` are the laws of the
    whole way;
  * `modify_eq`: a change at a pointer is a look and a put;
  * `addChild_eq_ok_iff` and its companions are what the operations do to the value that holds
    their target;
  * `atParent_eq_ok_iff` takes an edit apart into the value that holds its target, what becomes
    of that value, and the put.
-/
import ImportBinding.Proofs.Json.Members
import ImportBinding.Proofs.Outcome
import ImportBinding.Proofs.Patch.Edit

namespace ImportBinding

namespace Patch

open Json (Members Pointer)

variable {ε : Type} {token path : String} {p : Pointer} {u u' v v' w : Json}

/-! ## One step -/

theorem index_eq_ok_iff {i : Nat} : index token = .ok i ↔ Json.index? token = some i := by
  unfold index
  cases Json.index? token <;> simp

/-- A token leads to the member of an object with that key, and to the item of an array with the
    index that it spells. -/
theorem child_eq_ok_iff : child token u = .ok v ↔
    (∃ ms : Members, u = .object ms ∧ ms.find? token = some v) ∨
      ∃ items i, u = .array items ∧ Json.index? token = some i ∧ items[i]? = some v := by
  cases u with
  | object ms =>
    rw [child]
    cases hm : Members.find? token ms <;> simp [hm]
  | array items =>
    simp only [child, Except.bind_eq_ok_iff, index_eq_ok_iff]
    constructor
    · rintro ⟨i, hi, h⟩
      refine Or.inr ⟨items, i, rfl, hi, ?_⟩
      split at h
      · next hv => rw [hv, Except.ok.inj h]
      · cases h
    · rintro (⟨ms, h, -⟩ | ⟨items', i, h, hi, hv⟩)
      · cases h
      · cases h
        exact ⟨i, hi, by rw [hv]; rfl⟩
  | _ => simp [child]

theorem child_setChild (h : child token u = .ok v) : child token (setChild token w u) = .ok w := by
  obtain ⟨ms, rfl, hm⟩ | ⟨items, i, rfl, hi, hv⟩ := child_eq_ok_iff.1 h
  · exact child_eq_ok_iff.2 (Or.inl ⟨_, rfl, Members.find?_insert_self ..⟩)
  · obtain ⟨hlt, -⟩ := List.getElem?_eq_some_iff.1 hv
    rw [setChild, hi]
    exact child_eq_ok_iff.2 (Or.inr ⟨_, i, rfl, hi, List.getElem?_set_self hlt⟩)

theorem setChild_setChild : setChild token w (setChild token v u) = setChild token w u := by
  cases u with
  | object ms => rw [setChild, setChild, setChild, Members.insert_insert]
  | array items =>
    cases hi : Json.index? token with
    | none => simp only [setChild, hi]
    | some i => simp only [setChild, hi, List.set_set]
  | _ => rfl

/-- Putting back what a token leads to changes nothing. -/
theorem setChild_child (hu : u.Canonical) (h : child token u = .ok v) : setChild token v u = u := by
  obtain ⟨ms, rfl, hm⟩ | ⟨items, i, rfl, hi, hv⟩ := child_eq_ok_iff.1 h
  · rw [setChild, hu.1.insert_of_find? hm]
  · obtain ⟨hlt, rfl⟩ := List.getElem?_eq_some_iff.1 hv
    simp only [setChild, hi, List.set_getElem_self]

theorem canonical_child (hu : u.Canonical) (h : child token u = .ok v) : v.Canonical := by
  obtain ⟨ms, rfl, hm⟩ | ⟨items, i, rfl, hi, hv⟩ := child_eq_ok_iff.1 h
  · exact Json.canonicalMembers_iff.1 hu.2 _ (Members.mem_of_find? hm)
  · exact Json.canonicalItems_iff.1 hu v (List.mem_of_getElem? hv)

/-! ## Pointers -/

/-- The value with `w` in place of what a pointer leads to, if it leads anywhere. -/
def put : Pointer → Json → Json → Json
  | [], w, _ => w
  | token :: rest, w, u =>
    match child token u with
    | .ok v => setChild token (put rest w v) u
    | .error _ => u

theorem at?_cons_eq_ok_iff : at? (token :: p) u = .ok w ↔
    ∃ v, child token u = .ok v ∧ at? p v = .ok w :=
  Except.bind_eq_ok_iff

theorem put_cons (h : child token u = .ok v) :
    put (token :: p) w u = setChild token (put p w v) u := by
  rw [put, h]

/-- What was put somewhere is there. -/
theorem at?_put (h : at? p u = .ok v) : at? p (put p w u) = .ok w := by
  induction p generalizing u with
  | nil => rfl
  | cons token p ih =>
    obtain ⟨x, hx, hp⟩ := at?_cons_eq_ok_iff.1 h
    rw [put_cons hx]
    exact at?_cons_eq_ok_iff.2 ⟨_, child_setChild hx, ih hp⟩

/-- What is put last is what counts. -/
theorem put_put (h : at? p u = .ok v) : put p w (put p v' u) = put p w u := by
  induction p generalizing u with
  | nil => rfl
  | cons token p ih =>
    obtain ⟨x, hx, hp⟩ := at?_cons_eq_ok_iff.1 h
    rw [put_cons hx, put_cons (child_setChild hx), put_cons hx, setChild_setChild, ih hp]

/-- Putting back what is there changes nothing. -/
theorem put_at? (hu : u.Canonical) (h : at? p u = .ok v) : put p v u = u := by
  induction p generalizing u with
  | nil => exact (Except.ok.inj h).symm
  | cons token p ih =>
    obtain ⟨x, hx, hp⟩ := at?_cons_eq_ok_iff.1 h
    rw [put_cons hx, ih (canonical_child hu hx) hp, setChild_child hu hx]

theorem canonical_at? {p : Pointer} (hu : u.Canonical) (h : at? p u = .ok v) : v.Canonical := by
  induction p generalizing u with
  | nil =>
    obtain rfl := Except.ok.inj h
    exact hu
  | cons token p ih =>
    obtain ⟨x, hx, hp⟩ := at?_cons_eq_ok_iff.1 h
    exact ih (canonical_child hu hx) hp

/-- A change at a pointer takes what is there and puts what becomes of it. -/
theorem modify_eq (miss : Miss → ε) (f : Json → Except ε Json) (p : Pointer) (u : Json) :
    modify miss f p u = (at? p u).mapError miss >>= fun v => (put p · u) <$> f v := by
  induction p generalizing u with
  | nil => exact (id_map (f u)).symm
  | cons token p ih =>
    rw [modify, at?]
    cases hx : child token u with
    | error m => rfl
    | ok x =>
      dsimp only
      rw [ih, map_bind]
      change _ = (at? p x).mapError miss >>= fun v => (put (token :: p) · u) <$> f v
      refine bind_congr fun v => ?_
      simp only [put_cons hx, Functor.map_map]

theorem modify_eq_ok_iff {miss : Miss → ε} {f : Json → Except ε Json} :
    modify miss f p u = .ok u' ↔ ∃ v v', at? p u = .ok v ∧ f v = .ok v' ∧ u' = put p v' u := by
  simp only [modify_eq, Except.bind_eq_ok_iff, Except.mapError_eq_ok_iff, Except.map_eq_ok_iff]
  constructor
  · rintro ⟨v, hv, v', hv', rfl⟩
    exact ⟨v, v', hv, hv', rfl⟩
  · rintro ⟨v, v', hv, hv', rfl⟩
    exact ⟨v, hv, v', hv', rfl⟩

/-! ## Operations on the value that holds the target -/

theorem index?_dash : Json.index? "-" = none := by decide

/-- The token of an index is not the one that appends. -/
theorem ne_dash_of_index? {i : Nat} (h : Json.index? token = some i) : token ≠ "-" := by
  rintro rfl
  cases index?_dash.symm.trans h

/-- An object takes any key, and an array an index up to its length, which `-` stands for. -/
theorem addChild_eq_ok_iff : addChild path v token u = .ok u' ↔
    (∃ ms : Members, u = .object ms ∧ u' = .object (ms.insert token v)) ∨
    ∃ items i, u = .array items ∧ u' = .array (items.insertIdx i v) ∧
      (token = "-" ∧ i = items.length ∨ Json.index? token = some i ∧ i ≤ items.length) := by
  cases u with
  | object ms => simp [addChild, eq_comm (a := u')]
  | array items =>
    rw [addChild]
    split
    · next h => simp [h, index?_dash, List.insertIdx_length_self, eq_comm (a := u')]
    · next h =>
      cases hi : Json.index? token with
      | none => simp [h]
      | some i => by_cases hle : i ≤ items.length <;> simp [h, hle, eq_comm (a := u')]
  | _ => simp [addChild]

/-- What is removed is there, as a member or as an item. -/
theorem removeChild_eq_ok_iff : removeChild path token u = .ok u' ↔
    (∃ ms : Members, u = .object ms ∧ u' = .object (ms.erase token) ∧
      (ms.find? token).isSome) ∨
    ∃ items i, u = .array items ∧ u' = .array (items.eraseIdx i) ∧
      Json.index? token = some i ∧ i < items.length := by
  cases u with
  | object ms =>
    rw [removeChild]
    by_cases h : (Members.find? token ms).isSome <;> simp [h, eq_comm (a := u')]
  | array items =>
    rw [removeChild]
    cases hi : Json.index? token with
    | none => simp
    | some i => by_cases h : i < items.length <;> simp [h, eq_comm (a := u')]
  | _ => simp [removeChild]

theorem replaceChild_eq_ok_iff : replaceChild path v token u = .ok u' ↔
    ∃ old, child token u = .ok old ∧ u' = setChild token v u := by
  rw [replaceChild]
  cases child token u with
  | error m => simp
  | ok old => simp [eq_comm (a := u')]

/-! ## Paths -/

theorem splitLast_eq_none_iff : splitLast p = none ↔ p = [] := by
  rcases List.eq_nil_or_concat p with rfl | ⟨front, last, rfl⟩
  · simp [splitLast]
  · simp [splitLast_append_singleton]

theorem splitLast_eq_some_iff {front : Pointer} {last : String} :
    splitLast p = some (front, last) ↔ p = front ++ [last] := by
  rcases List.eq_nil_or_concat p with rfl | ⟨front', last', rfl⟩
  · simp [splitLast]
  · simp [splitLast_append_singleton]

/-- Work on the value that holds the target of a path: the root has none, and any other target
    is under the last token of the path in what the tokens before it lead to. -/
theorem atParent_eq_ok_iff {root : Except Fault Json} {f : String → Json → Except Fault Json} :
    atParent path root f u = .ok u' ↔ tokens path = .ok [] ∧ root = .ok u' ∨
      ∃ front last v v', tokens path = .ok (front ++ [last]) ∧ at? front u = .ok v ∧
        f last v = .ok v' ∧ u' = put front v' u := by
  rw [atParent, Except.bind_eq_ok_iff]
  constructor
  · rintro ⟨p, hp, h⟩
    split at h
    · next hnone =>
      obtain rfl := splitLast_eq_none_iff.1 hnone
      exact Or.inl ⟨hp, h⟩
    · next front last hsome =>
      obtain rfl := splitLast_eq_some_iff.1 hsome
      obtain ⟨v, v', hv, hv', rfl⟩ := modify_eq_ok_iff.1 h
      exact Or.inr ⟨front, last, v, v', hp, hv, hv', rfl⟩
  · rintro (⟨hp, h⟩ | ⟨front, last, v, v', hp, hv, hv', rfl⟩)
    · exact ⟨[], hp, h⟩
    · refine ⟨_, hp, ?_⟩
      rw [splitLast_append_singleton]
      exact modify_eq_ok_iff.2 ⟨v, v', hv, hv', rfl⟩

theorem atParent_eq_ok_iff_of_tokens {root : Except Fault Json}
    {f : String → Json → Except Fault Json} {front : Pointer} {last : String}
    (ht : tokens path = .ok (front ++ [last])) (hw : at? front u = .ok w) :
    atParent path root f u = .ok u' ↔ ∃ w', f last w = .ok w' ∧ u' = put front w' u := by
  rw [atParent_eq_ok_iff]
  constructor
  · rintro (⟨hroot, -⟩ | ⟨front', last', v, v', ht', hv, hf, rfl⟩)
    · exact absurd (Except.ok.inj (ht.symm.trans hroot)) (by simp)
    · obtain ⟨rfl, hlast⟩ := List.append_inj' (Except.ok.inj (ht.symm.trans ht')) rfl
      obtain rfl := List.singleton_inj.1 hlast
      obtain rfl := Except.ok.inj (hw.symm.trans hv)
      exact ⟨v', hf, rfl⟩
  · rintro ⟨w', hf, rfl⟩
    exact Or.inr ⟨front, last, w, w', ht, hw, hf, rfl⟩

end Patch

end ImportBinding
