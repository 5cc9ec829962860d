/-
  ImportBinding — operations that undo each other.

  What is added can be removed again, what is removed can be added, and what is replaced can be
  put back, each by one operation at the same path, and the document is what it was.

  * `Json.Vacant`: nothing has to give way for what is added under a token;
  * `removeChild_addChild` and its companions undo an operation in the value that holds its
    target, and `undo_atParent` carries that to the document;
  * `operation_undone` is the three laws for whole documents.
-/
import ImportBinding.Proofs.Patch.Lookup
import ImportBinding.Proofs.Patch.Put
import Mathlib.Data.List.InsertIdx

namespace ImportBinding

/-- Nothing has to give way for what is added under a token: an object has no such key, or in an
    array the items from that index on move up. -/
def Json.Vacant (token : String) : Json → Prop
  | .object members => Members.find? token members = none
  | .array items => ∃ i, index? token = some i ∧ i ≤ items.length
  | _ => False

namespace Patch

open Json (Members Pointer)

variable {path token last : String} {front : Pointer} {u u' v w w' : Json}

/-! ## Inside the value that holds the target -/

theorem removeChild_addChild (h : u.Vacant token) :
    ∃ u', addChild path v token u = .ok u' ∧ removeChild path token u' = .ok u := by
  cases u with
  | object ms =>
    refine ⟨_, rfl, removeChild_eq_ok_iff.2 (Or.inl ⟨_, rfl, ?_, ?_⟩)⟩
    · rw [Members.erase_insert h]
    · rw [Members.find?_insert_self]
      rfl
  | array items =>
    obtain ⟨i, hi, hle⟩ := h
    have hlt : i < (items.insertIdx i v).length := by
      rw [List.length_insertIdx_of_le_length hle]
      exact Nat.lt_succ_of_le hle
    refine ⟨_, addChild_eq_ok_iff.2 (Or.inr ⟨items, i, rfl, rfl, Or.inr ⟨hi, hle⟩⟩), ?_⟩
    refine removeChild_eq_ok_iff.2 (Or.inr ⟨_, i, rfl, ?_, hi, hlt⟩)
    rw [List.eraseIdx_insertIdx_self]
  | _ => exact h.elim

theorem addChild_removeChild (hu : u.Canonical) (h : removeChild path token u = .ok u') :
    ∃ old, child token u = .ok old ∧ addChild path old token u' = .ok u := by
  obtain ⟨ms, rfl, rfl, hm⟩ | ⟨items, i, rfl, rfl, hi, hlt⟩ := removeChild_eq_ok_iff.1 h
  · obtain ⟨old, hold⟩ := Option.isSome_iff_exists.1 hm
    refine ⟨old, child_eq_ok_iff.2 (Or.inl ⟨ms, rfl, hold⟩), ?_⟩
    rw [addChild, hu.1.insert_erase hold]
  · refine ⟨items[i], child_eq_ok_iff.2 (Or.inr ⟨items, i, rfl, hi, ?_⟩), ?_⟩
    · exact List.getElem?_eq_getElem hlt
    · have hle : i ≤ (items.eraseIdx i).length := by
        rw [List.length_eraseIdx_of_lt hlt]
        omega
      refine addChild_eq_ok_iff.2 (Or.inr ⟨_, i, rfl, ?_, Or.inr ⟨hi, hle⟩⟩)
      rw [List.insertIdx_eraseIdx_getElem hlt]

theorem replaceChild_replaceChild (hu : u.Canonical) (h : replaceChild path v token u = .ok u') :
    ∃ old, child token u = .ok old ∧ replaceChild path old token u' = .ok u := by
  obtain ⟨old, hold, rfl⟩ := replaceChild_eq_ok_iff.1 h
  refine ⟨old, hold, replaceChild_eq_ok_iff.2 ⟨v, child_setChild hold, ?_⟩⟩
  rw [setChild_setChild, setChild_child hu hold]

/-! ## Inside the document -/

/-- What is undone in the value that holds the target is undone in the document. -/
theorem undo_atParent {root : Except Fault Json} {f : String → Json → Except Fault Json}
    (hu : u.Canonical) (ht : tokens path = .ok (front ++ [last])) (hw : at? front u = .ok w)
    (hf : f last w' = .ok w) : atParent path root f (put front w' u) = .ok u := by
  refine atParent_eq_ok_iff.2 (Or.inr ⟨front, last, w', w, ht, at?_put hw, hf, ?_⟩)
  rw [put_put hw, put_at? hu hw]

/-- An operation can be undone at its path.  What was added where nothing had to give way is
    removed again; what was removed is added, as the value that the path led to; and what was
    replaced is put back.  Each time the document is what it was. -/
theorem operation_undone (hu : u.Canonical) (path : String) :
    (∀ front last parent v, tokens path = .ok (front ++ [last]) → at? front u = .ok parent →
      parent.Vacant last →
      ∃ u', (Op.add path v).apply u = .ok u' ∧ (Op.remove path).apply u' = .ok u) ∧
    (∀ u', (Op.remove path).apply u = .ok u' →
      ∃ old, lookup path u = .ok old ∧ (Op.add path old).apply u' = .ok u) ∧
    ∀ v u', (Op.replace path v).apply u = .ok u' →
      ∃ old, lookup path u = .ok old ∧ (Op.replace path old).apply u' = .ok u := by
  refine ⟨fun front last parent v ht hparent hvacant => ?_, fun u' h => ?_, fun v u' h => ?_⟩
  · obtain ⟨w, hadd, hremove⟩ :
        ∃ w, addChild path v last parent = .ok w ∧ removeChild path last w = .ok parent :=
      removeChild_addChild hvacant
    refine ⟨put front w u, ?_, undo_atParent hu ht hparent hremove⟩
    exact atParent_eq_ok_iff.2 (Or.inr ⟨front, last, parent, w, ht, hparent, hadd, rfl⟩)
  · obtain ⟨-, hroot⟩ | ⟨front, last, parent, w, ht, hparent, hremove, rfl⟩ :=
      atParent_eq_ok_iff.1 h
    · cases hroot
    · obtain ⟨old, hold, hadd⟩ := addChild_removeChild (canonical_at? hu hparent) hremove
      exact ⟨old, lookup_eq_ok_iff.2 (Or.inr ⟨front, last, parent, ht, hparent, hold⟩),
        undo_atParent hu ht hparent hadd⟩
  · obtain ⟨ht, hroot⟩ | ⟨front, last, parent, w, ht, hparent, hreplace, rfl⟩ :=
      atParent_eq_ok_iff.1 h
    · exact ⟨u, lookup_eq_ok_iff.2 (Or.inl ⟨ht, rfl⟩), atParent_eq_ok_iff.2 (Or.inl ⟨ht, rfl⟩)⟩
    · obtain ⟨old, hold, hback⟩ := replaceChild_replaceChild (canonical_at? hu hparent) hreplace
      exact ⟨old, lookup_eq_ok_iff.2 (Or.inr ⟨front, last, parent, ht, hparent, hold⟩),
        undo_atParent hu ht hparent hback⟩

/-- A document with an array of two items. -/
def shelf : Json :=
  .object [("items", .array [.number (.integer 1), .number (.integer 3)]), ("name", .string "a")]

theorem operation_undone_item : shelf.Canonical ∧
    (∃ u', (Op.add "/items/1" (.bool true)).apply shelf = .ok u' ∧
      (Op.remove "/items/1").apply u' = .ok shelf) ∧
    (∃ u', (Op.remove "/items/1").apply shelf = .ok u' ∧
      ∃ old, lookup "/items/1" shelf = .ok old ∧ (Op.add "/items/1" old).apply u' = .ok shelf) ∧
    ∃ u', (Op.replace "/items/1" .null).apply shelf = .ok u' ∧
      ∃ old, lookup "/items/1" shelf = .ok old ∧
        (Op.replace "/items/1" old).apply u' = .ok shelf := by
  have hshelf : shelf.Canonical := by
    refine ⟨List.pairwise_pair.2 ?_, ⟨⟨trivial, trivial, trivial⟩, trivial, trivial⟩⟩
    decide
  obtain ⟨hadd, hremove, hreplace⟩ := operation_undone hshelf "/items/1"
  have ht : tokens "/items/1" = .ok (["items"] ++ ["1"]) := by rfl
  have hitems : at? ["items"] shelf =
      .ok (.array [.number (.integer 1), .number (.integer 3)]) := by rfl
  refine ⟨hshelf, hadd _ _ _ _ ht hitems ⟨1, by decide, by decide⟩, ?_, ?_⟩
  · exact ⟨_, rfl, hremove _ rfl⟩
  · exact ⟨_, rfl, hreplace _ _ rfl⟩

end Patch

end ImportBinding
