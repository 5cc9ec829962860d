/-
  ImportBinding — looking up the value at a pointer.

  * `lookup` is the value that the text of a pointer leads to, and `Op.apply_test` says that a
    test compares it;
  * `at?_append`: a pointer is followed part by part, and `at?_item` is the step from one record
    to the next;
  * `Json.Located`: a value stands at a location in another, and `Located.at?_eq`: the pointer
    with the tokens of the location leads to it.
-/
import ImportBinding.Proofs.Outcome
import ImportBinding.Proofs.Patch.Edit

namespace ImportBinding

namespace Patch

open Json (Members Pointer)

/-- The value that the text of a pointer leads to. -/
def lookup (path : String) (u : Json) : Except Fault Json := do
  (at? (← tokens path) u).mapError (Miss.fault path)

/-- A test compares the value that is looked up, and changes nothing. -/
theorem Op.apply_test (path : String) (v u : Json) : (Op.test path v).apply u =
    lookup path u >>= fun found =>
      if found.same v then .ok u else .error (.differs path v found) := by
  rw [Op.apply, lookup, bind_assoc]
  rfl

/-- The text of a pointer leads where its tokens lead. -/
theorem lookup_text_eq_ok_iff {p : Pointer} {u v : Json} :
    lookup p.text u = .ok v ↔ at? p u = .ok v := by
  have ht : tokens p.text = .ok p := by rw [tokens, Pointer.tokens?_text]
  rw [lookup, ht]
  exact Except.mapError_eq_ok_iff

theorem at?_append (p q : Pointer) : ∀ u : Json, at? (p ++ q) u = at? p u >>= at? q := by
  induction p with
  | nil => intro u; rfl
  | cons token rest ih =>
    intro u
    rw [List.cons_append, at?, at?, bind_assoc]
    exact bind_congr ih

theorem at?_append_singleton_eq_ok_iff {p : Pointer} {token : String} {u v : Json} :
    at? (p ++ [token]) u = .ok v ↔ ∃ w, at? p u = .ok w ∧ child token w = .ok v := by
  rw [at?_append, Except.bind_eq_ok_iff]
  refine exists_congr fun w => and_congr_right fun _ => Except.bind_eq_ok_iff.trans ?_
  constructor
  · rintro ⟨x, hx, hv⟩
    exact hx.trans hv
  · exact fun hv => ⟨v, hv, rfl⟩

/-- A path leads to the document itself, or to what is under its last token in what the tokens
    before it lead to. -/
theorem lookup_eq_ok_iff {path : String} {u v : Json} : lookup path u = .ok v ↔
    tokens path = .ok [] ∧ u = v ∨
      ∃ front last w, tokens path = .ok (front ++ [last]) ∧ at? front u = .ok w ∧
        child last w = .ok v := by
  simp only [lookup, Except.bind_eq_ok_iff, Except.mapError_eq_ok_iff]
  constructor
  · rintro ⟨p, ht, hv⟩
    obtain rfl | ⟨front, last, rfl⟩ := p.eq_nil_or_concat'
    · exact Or.inl ⟨ht, Except.ok.inj hv⟩
    · obtain ⟨w, hw, hv⟩ := at?_append_singleton_eq_ok_iff.1 hv
      exact Or.inr ⟨front, last, w, ht, hw, hv⟩
  · rintro (⟨ht, rfl⟩ | ⟨front, last, w, ht, hw, hv⟩)
    · exact ⟨[], ht, rfl⟩
    · exact ⟨_, ht, at?_append_singleton_eq_ok_iff.2 ⟨w, hw, hv⟩⟩

/-- What is in an item of a list that is a member of an object. -/
theorem at?_item {ms : Members} {key : String} {us : List Json} {i : Nat} {u : Json}
    (hm : ms.find? key = some (.array us)) (hi : us[i]? = some u) (hlt : i < UInt64.size)
    (p : Pointer) : at? (key :: Nat.repr i :: p) (.object ms) = at? p u := by
  have hlist : child key (.object ms) = .ok (.array us) := by rw [child, hm]
  rw [at?, hlist]
  change at? (Nat.repr i :: p) (.array us) = at? p u
  rw [at?, child_item hi hlt]
  rfl

end Patch

/-! ## Locations -/

/-- The value `x` stands in another at a location: the keys of objects and the numbers of items
    on the way to it. -/
inductive Json.Located : Json → Json.Pointer → Json → Prop where
  | here {u : Json} : Located u [] u
  | member {ms : Json.Members} {k : String} {u x : Json} {p : Json.Pointer}
      (hm : ms.find? k = some u) (h : Located u p x) : Located (.object ms) (k :: p) x
  | item {us : List Json} {i : Nat} {u x : Json} {p : Json.Pointer} (hi : us[i]? = some u)
      (h : Located u p x) : Located (.array us) (Nat.repr i :: p) x

namespace Json.Located

variable {u x : Json} {p : Pointer}

/-- The pointer of a location leads to the value there. -/
theorem at?_eq (h : u.Located p x) (hu : u.Addressable) : Patch.at? p u = .ok x := by
  induction h with
  | here => rfl
  | @member ms k u x p hm _ ih =>
    have hchild : Patch.child k (.object ms) = .ok u := by rw [Patch.child, hm]
    rw [Patch.at?, hchild]
    exact ih (hu.member hm)
  | item hi _ ih =>
    obtain ⟨hlt, hitem⟩ := hu.item hi
    rw [Patch.at?, Patch.child_item hi hlt]
    exact ih hitem

theorem lookup_eq (h : u.Located p x) (hu : u.Addressable) :
    Patch.lookup p.text u = .ok x :=
  Patch.lookup_text_eq_ok_iff.2 (h.at?_eq hu)

theorem addressable (h : u.Located p x) (hu : u.Addressable) : x.Addressable := by
  induction h with
  | here => exact hu
  | member hm _ ih => exact ih (hu.member hm)
  | item hi _ ih => exact ih (hu.item hi).2

theorem append {y : Json} {q : Pointer} (h : u.Located p x) (hq : x.Located q y) :
    u.Located (p ++ q) y := by
  induction h with
  | here => exact hq
  | member hm _ ih => exact .member hm (ih hq)
  | item hi _ ih => exact .item hi (ih hq)

theorem append_singleton {ms : Members} {k : String} (h : u.Located p (.object ms))
    (hm : ms.find? k = some x) : u.Located (p ++ [k]) x :=
  h.append (.member hm .here)

end Json.Located

namespace Patch

open Json (Members Pointer)

/-- The target of an edit is a member of an object. -/
theorem Edits.exists_located {T : Pointer} {u u' : Json} (h : Edits T u u') :
    ∃ p last ms, T = p ++ [last] ∧ u.Located p (.object ms) := by
  induction h with
  | setPartial => exact ⟨[], _, _, rfl, .here⟩
  | clearBody => exact ⟨[], _, _, rfl, .here⟩
  | item _ hm hi _ _ ih =>
    obtain ⟨p, last, ms, rfl, h⟩ := ih
    exact ⟨_ :: _ :: p, last, ms, rfl, .member hm (.item hi h)⟩

end Patch

end ImportBinding
