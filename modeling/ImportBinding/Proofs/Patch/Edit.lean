/-
  ImportBinding — single edits of records.

  A quickfix sets the mark of a record or clears its body, somewhere below lists of
  records.  Such an edit reads the path key by key, so it needs records that are objects.

  * `Edits` is what an edit does to a value, by the structure of its path;
  * `Edits.apply_eq`: the operation of an edit does it;
  * `MeetsArray` are the paths on which a record is an array, and `apply_meetsArray`: there
    the operation fails;
  * `Edits.meetsArray_iff`: an edit moves no record and changes the form of none.
-/
import ImportBinding.Patch.Basic
import ImportBinding.Proofs.Json.Extent
import ImportBinding.Proofs.Json.Index

namespace ImportBinding

/-- The path of an edit goes through a record in array form, or edits one: the record where
    it starts, or one further on, which is an item of a list of containers or methods. -/
inductive Json.MeetsArray : Json → Json.Pointer → Prop where
  | record {items : List Json} {token : String} {path : Json.Pointer} :
      MeetsArray (.array items) (token :: path)
  | item {ms : Json.Members} {key : String} {us : List Json} {i : Nat} {u : Json}
      {path : Json.Pointer} (hkey : key = "containers" ∨ key = "methods")
      (hm : ms.find? key = some (.array us)) (hi : us[i]? = some u) (h : MeetsArray u path) :
      MeetsArray (.object ms) (key :: Nat.repr i :: path)

namespace Json

/-- A record in array form stays in the way of what is further inside. -/
theorem MeetsArray.append {u : Json} {p : Pointer} (h : u.MeetsArray p) (q : Pointer) :
    u.MeetsArray (p ++ q) := by
  induction h with
  | record => exact .record
  | item hkey hm hi _ ih => exact .item hkey hm hi ih

theorem meetsArray_object_iff {ms : Members} {q : Pointer} : (object ms).MeetsArray q ↔
    ∃ key us i u p, (key = "containers" ∨ key = "methods") ∧ ms.find? key = some (.array us) ∧
      us[i]? = some u ∧ u.MeetsArray p ∧ q = key :: Nat.repr i :: p := by
  constructor
  · rintro ⟨⟩
    exact ⟨_, _, _, _, _, ‹_›, ‹_›, ‹_›, ‹_›, rfl⟩
  · rintro ⟨key, us, i, u, p, hkey, hm, hi, h, rfl⟩
    exact .item hkey hm hi h

/-- Only the lists of containers and methods matter. -/
theorem meetsArray_object_congr {ms ns : Members} {q : Pointer}
    (h : ∀ key, key = "containers" ∨ key = "methods" → ns.find? key = ms.find? key) :
    (object ns).MeetsArray q ↔ (object ms).MeetsArray q := by
  rw [meetsArray_object_iff, meetsArray_object_iff]
  constructor
  · rintro ⟨key, us, i, u, p, hkey, hm, hrest⟩
    exact ⟨key, us, i, u, p, hkey, h key hkey ▸ hm, hrest⟩
  · rintro ⟨key, us, i, u, p, hkey, hm, hrest⟩
    exact ⟨key, us, i, u, p, hkey, (h key hkey).trans hm, hrest⟩

/-- A list in which the items meet arrays where they did. -/
theorem meetsArray_object_insert {ms : Members} {key : String} {us us' : List Json}
    (hm : ms.find? key = some (.array us)) {q : Pointer}
    (h : ∀ (i : Nat) (p : Pointer), (∃ u : Json, us'[i]? = some u ∧ u.MeetsArray p) ↔
      ∃ u : Json, us[i]? = some u ∧ u.MeetsArray p) :
    (object (ms.insert key (.array us'))).MeetsArray q ↔ (object ms).MeetsArray q := by
  rw [meetsArray_object_iff, meetsArray_object_iff]
  constructor
  · rintro ⟨key', vs, i, u, p, hkey, hm', hi, hp, rfl⟩
    by_cases hk : key' = key
    · subst hk
      rw [Members.find?_insert_self] at hm'
      cases hm'
      obtain ⟨w, hw, hwp⟩ := (h i p).1 ⟨u, hi, hp⟩
      exact ⟨key', us, i, w, p, hkey, hm, hw, hwp, rfl⟩
    · rw [Members.find?_insert_of_ne hk] at hm'
      exact ⟨key', vs, i, u, p, hkey, hm', hi, hp, rfl⟩
  · rintro ⟨key', vs, i, u, p, hkey, hm', hi, hp, rfl⟩
    by_cases hk : key' = key
    · subst hk
      obtain rfl : us = vs := by
        rw [hm] at hm'
        cases hm'
        rfl
      obtain ⟨w, hw, hwp⟩ := (h i p).2 ⟨u, hi, hp⟩
      exact ⟨key', us', i, w, p, hkey, Members.find?_insert_self .., hw, hwp, rfl⟩
    · exact ⟨key', vs, i, u, p, hkey, (Members.find?_insert_of_ne hk ..).trans hm', hi, hp, rfl⟩

end Json

namespace Patch

open Json (Addressable Members Pointer)

/-! ## Operations -/

/-- The path of an operation. -/
def Op.path : Op → String
  | add path _ | remove path | replace path _ | test path _ => path

/-- The operation that sets the mark at a pointer, or clears the body there. -/
def Op.mending (T : Pointer) : Op :=
  if T.getLast? = some "body" then .remove T.text else .add T.text (.bool true)

/-- What an operation does to the record that holds its target. -/
def Op.mend (path last : String) : Json → Except Fault Json :=
  if last = "body" then removeChild path last else addChild path (.bool true) last

theorem splitLast_append_singleton (p : Pointer) (token : String) :
    splitLast (p ++ [token]) = some (p, token) := by
  induction p with
  | nil => rfl
  | cons t rest ih =>
    cases rest with
    | nil => rfl
    | cons t' rest =>
      rw [List.cons_append] at ih ⊢
      simp [splitLast, ih]

theorem Op.mending_apply (p : Pointer) (last : String) (u : Json) :
    (Op.mending (p ++ [last])).apply u =
      modify (Miss.fault (Pointer.text (p ++ [last])))
        (Op.mend (Pointer.text (p ++ [last])) last) p u := by
  have ht : tokens (Pointer.text (p ++ [last])) = .ok (p ++ [last]) := by
    rw [tokens, Pointer.tokens?_text]
  unfold mending mend
  by_cases hb : last = "body"
  · rw [if_pos (by simp [hb]), if_pos hb, apply, atParent, ht]
    simp only [bind, Except.bind, splitLast_append_singleton]
  · rw [if_neg (by simp [hb]), if_neg hb, apply, atParent, ht]
    simp only [bind, Except.bind, splitLast_append_singleton]

/-! ## Edits -/

/-- The edit with a target, of a record that is an object. -/
inductive Edits : Pointer → Json → Json → Prop where
  | setPartial {ms : Members} :
      Edits ["partial"] (.object ms) (.object (ms.insert "partial" (.bool true)))
  | clearBody {ms : Members} {b : Json} (hb : ms.find? "body" = some b) :
      Edits ["body"] (.object ms) (.object (ms.erase "body"))
  | item {ms : Members} {key : String} {us : List Json} {i : Nat} {u u' : Json} {p : Pointer}
      (hkey : key = "containers" ∨ key = "methods") (hm : ms.find? key = some (.array us))
      (hi : us[i]? = some u) (hlt : i < UInt64.size) (h : Edits p u u') :
      Edits (key :: Nat.repr i :: p) (.object ms) (.object (ms.insert key (.array (us.set i u'))))

theorem child_item {us : List Json} {i : Nat} {u : Json} (hi : us[i]? = some u)
    (hlt : i < UInt64.size) : child (Nat.repr i) (.array us) = .ok u := by
  simp [child, index, Json.index?_repr hlt, bind, Except.bind, hi, pure, Except.pure]

/-- A change inside an item of a list that is a member of an object. -/
theorem modify_item {ε : Type} {miss : Miss → ε} {f : Json → Except ε Json} {ms : Members}
    {key : String} {us : List Json} {i : Nat} {u : Json} {p : Pointer}
    (hm : ms.find? key = some (.array us)) (hi : us[i]? = some u) (hlt : i < UInt64.size) :
    modify miss f (key :: Nat.repr i :: p) (.object ms) =
      (fun u' => .object (ms.insert key (.array (us.set i u')))) <$> modify miss f p u := by
  have hlist : child key (.object ms) = .ok (.array us) := by rw [child, hm]
  rw [modify, hlist]
  dsimp only
  rw [modify, child_item hi hlt]
  simp only [setChild, Json.index?_repr hlt]
  cases modify miss f p u <;> rfl

/-- An edit as a change of the record that holds its target. -/
theorem Edits.exists_modify {T : Pointer} {u u' : Json} (h : Edits T u u') (path : String) :
    ∃ p last, T = p ++ [last] ∧ modify (Miss.fault path) (Op.mend path last) p u = .ok u' := by
  induction h with
  | setPartial => exact ⟨[], "partial", rfl, rfl⟩
  | clearBody hb =>
    refine ⟨[], "body", rfl, ?_⟩
    rw [modify, Op.mend, if_pos rfl, removeChild, hb]
    rfl
  | item hkey hm hi hlt _ ih =>
    obtain ⟨p, last, rfl, hp⟩ := ih
    exact ⟨_ :: _ :: p, last, rfl, by rw [modify_item hm hi hlt, hp]; rfl⟩

/-- The operation of an edit does it. -/
theorem Edits.apply_eq {T : Pointer} {u u' : Json} (h : Edits T u u') :
    (Op.mending T).apply u = .ok u' := by
  obtain ⟨p, last, hT, hp⟩ := h.exists_modify T.text
  rw [hT] at hp ⊢
  rw [Op.mending_apply, hp]

/-! ## Records in array form -/

/-- The paths of edits. -/
inductive EditPath : Pointer → Prop where
  | setPartial : EditPath ["partial"]
  | clearBody : EditPath ["body"]
  | item {key : String} {i : Nat} {p : Pointer} (hkey : key = "containers" ∨ key = "methods")
      (h : EditPath p) : EditPath (key :: Nat.repr i :: p)

theorem index?_list_eq_none {key : String} (h : key = "containers" ∨ key = "methods") :
    Json.index? key = none := by
  rcases h with rfl | rfl <;> rfl

/-- A path of an edit leads to a record and goes on to one of its members. -/
theorem EditPath.exists_append {T : Pointer} (h : EditPath T) : ∃ p last, T = p ++ [last] := by
  induction h with
  | setPartial => exact ⟨[], _, rfl⟩
  | clearBody => exact ⟨[], _, rfl⟩
  | item _ _ ih =>
    obtain ⟨p, last, rfl⟩ := ih
    exact ⟨_ :: _ :: p, last, rfl⟩

/-- A token of such a path that leads from one record to the next leads nowhere in an array. -/
theorem modify_array {ε : Type} {miss : Miss → ε} {f : Json → Except ε Json}
    {items : List Json} {key : String} (hkey : key = "containers" ∨ key = "methods")
    {p : Pointer} : ∃ fault, modify miss f (key :: p) (.array items) = .error fault := by
  rw [modify, child, index, index?_list_eq_none hkey]
  exact ⟨_, rfl⟩

theorem EditPath.of_item {key token : String} {p : Pointer} (h : EditPath (key :: token :: p)) :
    EditPath p := by
  cases h with
  | item _ hp => exact hp

/-- A change of a record in array form, or behind one, fails. -/
theorem exists_modify_error {u : Json} {T : Pointer} (h : u.MeetsArray T) (hu : u.Addressable)
    (path : String) (hT : EditPath T) : ∃ p last, T = p ++ [last] ∧
      ∃ fault, modify (Miss.fault path) (Op.mend path last) p u = .error fault := by
  induction h with
  | record =>
    cases hT with
    | setPartial => exact ⟨[], "partial", rfl, _, rfl⟩
    | clearBody => exact ⟨[], "body", rfl, _, rfl⟩
    | item hkey hp =>
      obtain ⟨p, last, rfl⟩ := hp.exists_append
      exact ⟨_ :: _ :: p, last, rfl, modify_array hkey⟩
  | item _ hm hi _ ih =>
    have hlist := hu.member hm
    obtain ⟨hlt, hitem⟩ := hlist.item hi
    obtain ⟨p, last, rfl, fault, hf⟩ := ih hitem hT.of_item
    exact ⟨_ :: _ :: p, last, rfl, fault, by rw [modify_item hm hi hlt, hf]; rfl⟩

/-- The operation of an edit fails on a path with a record in array form. -/
theorem apply_meetsArray {u : Json} {T : Pointer} (h : u.MeetsArray T) (hu : u.Addressable)
    (hT : EditPath T) : ∃ fault, (Op.mending T).apply u = .error fault := by
  obtain ⟨p, last, he, fault, hf⟩ := exists_modify_error h hu T.text hT
  rw [he] at hf ⊢
  exact ⟨fault, by rw [Op.mending_apply, hf]⟩

/-! ## Invariants -/

/-- An edit keeps the indexes of items and the order of keys. -/
theorem Edits.addressable {T : Pointer} {u u' : Json} (h : Edits T u u') (hu : u.Addressable) :
    u'.Addressable := by
  induction h with
  | setPartial => exact hu.insert (by simp [Addressable]) _
  | clearBody => exact hu.erase _
  | item _ hm hi _ _ ih =>
    have hlist := hu.member hm
    exact hu.insert (hlist.set (ih (hlist.item hi).2) _) _

/-- An edit moves no record and changes the form of none. -/
theorem Edits.meetsArray_iff {T : Pointer} {u u' : Json} (h : Edits T u u') {q : Pointer} :
    u'.MeetsArray q ↔ u.MeetsArray q := by
  induction h generalizing q with
  | setPartial =>
    refine Json.meetsArray_object_congr fun key hkey => Members.find?_insert_of_ne ?_ _ _
    rcases hkey with rfl | rfl <;> decide
  | clearBody hb =>
    refine Json.meetsArray_object_congr fun key hkey => Members.find?_erase_of_ne ?_ _
    rcases hkey with rfl | rfl <;> decide
  | @item ms key us i u u' p _ hm hi _ _ ih =>
    refine Json.meetsArray_object_insert hm fun j r => ?_
    obtain ⟨hlt, -⟩ := List.getElem?_eq_some_iff.1 hi
    by_cases hj : i = j
    · subst hj
      simp only [List.getElem?_set_self hlt, hi, Option.some.injEq, exists_eq_left']
      exact ih
    · simp only [List.getElem?_set_ne hj]

end Patch

end ImportBinding
