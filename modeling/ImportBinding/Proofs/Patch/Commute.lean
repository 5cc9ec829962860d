/-
  ImportBinding — edits in any order.

  What an edit does to a value is a function of the value, and of two edits it does not matter
  which comes first.  So a value comes out the same in whatever order some edits are done.

  * `Members.alter` sets, changes or drops one member;
  * `edit` is what an edit does, by `Edits.eq_edit`;
  * `edit_comm`: two edits commute;
  * `editAll_perm`: the order of edits does not matter.
-/
import ImportBinding.Proofs.Patch.Edit

namespace ImportBinding

namespace Json.Members

variable {ms : Members} {k l : String} {f g : Option Json → Option Json}

/-- The members with that of a key changed, set or dropped. -/
def alter (key : String) (f : Option Json → Option Json) (ms : Members) : Members :=
  match f (ms.find? key) with
  | some v => ms.insert key v
  | none => ms.erase key

theorem Sorted.alter (h : ms.Sorted) (key : String) (f : Option Json → Option Json) :
    (ms.alter key f).Sorted := by
  unfold Members.alter
  split
  · exact h.insert ..
  · exact h.erase _

theorem Sorted.find?_alter (h : ms.Sorted) (key : String) (f : Option Json → Option Json) :
    (ms.alter key f).find? k = if k = key then f (ms.find? key) else ms.find? k := by
  unfold Members.alter
  split
  · next v hv =>
    split
    · next hk => rw [hk, find?_insert_self, hv]
    · next hk => exact find?_insert_of_ne hk v ms
  · next hv =>
    split
    · next hk => rw [hk, h.find?_erase_self, hv]
    · next hk => exact find?_erase_of_ne hk ms

/-- Changes of different members commute. -/
theorem Sorted.alter_comm (h : ms.Sorted) (hne : k ≠ l) :
    (ms.alter k f).alter l g = (ms.alter l g).alter k f := by
  refine ((h.alter k f).alter l g).ext ((h.alter l g).alter k f) fun key => ?_
  rw [(h.alter k f).find?_alter, (h.alter l g).find?_alter, h.find?_alter, h.find?_alter,
    h.find?_alter, h.find?_alter, if_neg hne, if_neg hne.symm]
  by_cases hk : key = k
  · rw [if_pos hk, if_neg fun hl => hne (hk.symm.trans hl), if_pos hk]
  · rw [if_neg hk, if_neg hk]

/-- Two changes of one member are one. -/
theorem Sorted.alter_alter (h : ms.Sorted) :
    (ms.alter k f).alter k g = ms.alter k fun v => g (f v) := by
  refine ((h.alter k f).alter k g).ext (h.alter k _) fun key => ?_
  rw [(h.alter k f).find?_alter, h.find?_alter, h.find?_alter, h.find?_alter, if_pos rfl]
  by_cases hk : key = k
  · rw [if_pos hk, if_pos hk]
  · rw [if_neg hk, if_neg hk, if_neg hk]

/-- Only what is done to the member that is there matters. -/
theorem alter_congr (h : f (ms.find? k) = g (ms.find? k)) : ms.alter k f = ms.alter k g := by
  rw [alter, alter, h]

end Json.Members

/-- Only what is done to the item that is there matters. -/
theorem modify_congr {α : Type} {as : List α} {i : Nat} {f g : α → α}
    (h : ∀ a, as[i]? = some a → f a = g a) : as.modify i f = as.modify i g := by
  refine List.ext_getElem? fun j => ?_
  rw [List.getElem?_modify, List.getElem?_modify]
  cases hj : as[j]? with
  | none => rfl
  | some a =>
    by_cases hij : i = j
    · subst hij
      simp [h a hj]
    · simp [hij]

namespace Patch

open Json (Addressable Members Pointer)

/-! ## Edits as functions -/

/-- A list with one item changed. -/
def editItem (token : String) (f : Json → Json) : Option Json → Option Json
  | some (.array us) =>
    some (.array (match Json.index? token with
      | some i => us.modify i f
      | none => us))
  | v => v

/-- The value after the edit with a target. -/
def edit : Pointer → Json → Json
  | [token], .object ms =>
    .object (Members.alter token (fun _ => if token = "body" then none else some (.bool true)) ms)
  | key :: token :: p, .object ms => .object (Members.alter key (editItem token (edit p)) ms)
  | _, u => u

theorem Edits.eq_edit {T : Pointer} {u u' : Json} (h : Edits T u u') : u' = edit T u := by
  induction h with
  | setPartial => rfl
  | clearBody => rfl
  | @item ms key us i u u' p _ hm hi hlt _ ih =>
    have hitem : us.modify i (edit p) = us.set i u' := by
      rw [List.set_eq_modify]
      refine modify_congr fun v hv => ?_
      obtain rfl := Option.some.inj (hi.symm.trans hv)
      exact ih.symm
    have hlist : editItem (Nat.repr i) (edit p) (ms.find? key) =
        some (.array (us.set i u')) := by
      rw [hm, editItem, Json.index?_repr hlt, ← hitem]
    rw [edit, Members.alter, hlist]

/-! ## Order -/

theorem EditPath.exists_cons {T : Pointer} (h : EditPath T) : ∃ token p, T = token :: p := by
  cases h <;> exact ⟨_, _, rfl⟩

/-- A path starts with a member that is edited, or with a list. -/
theorem EditPath.cases_cons {token : String} {p : Pointer} (h : EditPath (token :: p)) :
    ((token = "partial" ∨ token = "body") ∧ p = []) ∨
      (token = "containers" ∨ token = "methods") ∧ ∃ i q, p = Nat.repr i :: q ∧ EditPath q := by
  generalize hT : token :: p = T at h
  cases h with
  | setPartial =>
    obtain ⟨rfl, rfl⟩ := List.cons.inj hT
    exact Or.inl ⟨Or.inl rfl, rfl⟩
  | clearBody =>
    obtain ⟨rfl, rfl⟩ := List.cons.inj hT
    exact Or.inl ⟨Or.inr rfl, rfl⟩
  | item hkey hq =>
    obtain ⟨rfl, rfl⟩ := List.cons.inj hT
    exact Or.inr ⟨hkey, _, _, rfl, hq⟩

/-- What an edit does to the member that its path starts with. -/
def editMember : Pointer → Option Json → Option Json
  | [token] => fun _ => if token = "body" then none else some (.bool true)
  | _ :: token :: p => editItem token (edit p)
  | [] => id

theorem edit_object (token : String) (p : Pointer) (ms : Members) :
    edit (token :: p) (.object ms) = .object (ms.alter token (editMember (token :: p))) := by
  cases p <;> rfl

theorem edit_of_ne_object {u : Json} (h : ∀ ms : Members, u ≠ .object ms) (T : Pointer) :
    edit T u = u := by
  unfold edit
  split
  · next ms => exact absurd rfl (h ms)
  · next ms => exact absurd rfl (h ms)
  · rfl

/-- Changes of items of a list commute when they do in the item that both change. -/
theorem editItem_comm {t t' : String} {f g : Json → Json} {v : Option Json}
    (h : ∀ (us : List Json) (i : Nat) (u : Json), v = some (.array us) → us[i]? = some u →
      f (g u) = g (f u)) :
    editItem t f (editItem t' g v) = editItem t' g (editItem t f v) := by
  cases v with
  | none => rfl
  | some u =>
    cases u with
    | array us =>
      simp only [editItem]
      cases Json.index? t with
      | none => rfl
      | some i =>
        cases Json.index? t' with
        | none => rfl
        | some j =>
          dsimp only
          by_cases hij : i = j
          · subst hij
            rw [List.modify_modify_eq, List.modify_modify_eq]
            exact congrArg _ (congrArg _ (modify_congr fun u hu => h us i u rfl hu))
          · rw [List.modify_modify_ne g f us (Ne.symm hij)]
    | _ => rfl

/-- An edit commutes with others when it does in the member that its path starts with. -/
theorem edit_comm_of_member {k : String} {p : Pointer}
    (h : ∀ {q : Pointer} {ms : Members}, EditPath (k :: q) → (Json.object ms).Addressable →
      editMember (k :: p) (editMember (k :: q) (ms.find? k)) =
        editMember (k :: q) (editMember (k :: p) (ms.find? k)))
    {T : Pointer} {u : Json} (hT : EditPath T) (hu : u.Addressable) :
    edit (k :: p) (edit T u) = edit T (edit (k :: p) u) := by
  by_cases hobject : ∃ ms : Members, u = .object ms
  · obtain ⟨ms, rfl⟩ := hobject
    obtain ⟨l, q, rfl⟩ := hT.exists_cons
    simp only [edit_object]
    by_cases hkl : k = l
    · subst hkl
      rw [hu.sorted.alter_alter, hu.sorted.alter_alter]
      exact congrArg _ (Members.alter_congr (h hT hu))
    · rw [hu.sorted.alter_comm hkl]
  · have hne : ∀ ms : Members, u ≠ .object ms := fun ms he => hobject ⟨ms, he⟩
    simp only [edit_of_ne_object hne]

/-- Two edits commute. -/
theorem edit_comm {T : Pointer} (hT : EditPath T) : ∀ {T' : Pointer} {u : Json}, EditPath T' →
    u.Addressable → edit T (edit T' u) = edit T' (edit T u) := by
  induction hT with
  | setPartial =>
    intro T' u
    refine edit_comm_of_member fun hq _ => ?_
    obtain ⟨-, rfl⟩ | ⟨hkey, -⟩ := hq.cases_cons
    · rfl
    · exact absurd hkey (by decide)
  | clearBody =>
    intro T' u
    refine edit_comm_of_member fun hq _ => ?_
    obtain ⟨-, rfl⟩ | ⟨hkey, -⟩ := hq.cases_cons
    · rfl
    · exact absurd hkey (by decide)
  | item hkey _ ih =>
    intro T' u
    refine edit_comm_of_member fun hq hms => ?_
    obtain ⟨hleaf, -⟩ | ⟨-, j, q, rfl, hitem⟩ := hq.cases_cons
    · rcases hkey with rfl | rfl <;> exact absurd hleaf (by decide)
    · exact editItem_comm fun us i u hv hu => ih hitem ((hms.member hv).item hu).2

/-! ## Indexes and keys -/

theorem addressable_modify {us : List Json} (h : (Json.array us).Addressable) {f : Json → Json}
    (hf : ∀ u : Json, u.Addressable → (f u).Addressable) (i : Nat) :
    (Json.array (us.modify i f)).Addressable := by
  simp only [Addressable, Json.addressableItems_iff] at h ⊢
  refine ⟨by rw [List.length_modify]; exact h.1, fun v hv => ?_⟩
  obtain ⟨j, hj⟩ := List.getElem?_of_mem hv
  rw [List.getElem?_modify] at hj
  obtain ⟨u, hu, rfl⟩ := Option.map_eq_some_iff.1 hj
  have hitem := h.2 u (List.mem_of_getElem? hu)
  split
  · exact hf u hitem
  · exact hitem

theorem addressable_alter {ms : Members} (h : (Json.object ms).Addressable) {key : String}
    {f : Option Json → Option Json} (hf : ∀ v ∈ f (ms.find? key), v.Addressable) :
    (Json.object (ms.alter key f)).Addressable := by
  unfold Members.alter
  split
  · next v hv => exact h.insert (hf v hv) key
  · exact h.erase key

/-- An edit keeps the indexes of items and the order of keys. -/
theorem addressable_edit : (T : Pointer) → ∀ u : Json, u.Addressable → (edit T u).Addressable := by
  intro T u hu
  by_cases hobject : ∃ ms : Members, u = .object ms
  · obtain ⟨ms, rfl⟩ := hobject
    match T with
    | [] => exact hu
    | [token] =>
      refine addressable_alter hu fun v hv => ?_
      split at hv
      · cases hv
      · obtain rfl := Option.some.inj hv
        simp [Addressable]
    | key :: token :: p =>
      refine addressable_alter hu fun v hv => ?_
      unfold editItem at hv
      split at hv
      · next us hus =>
        obtain rfl := Option.some.inj hv
        split
        · next i _ => exact addressable_modify (hu.member hus) (addressable_edit p) i
        · exact hu.member hus
      · exact hu.member hv
  · rw [edit_of_ne_object fun ms he => hobject ⟨ms, he⟩]
    exact hu

/-! ## Many edits -/

/-- The value after some edits. -/
def editAll (ts : List Pointer) (u : Json) : Json :=
  ts.foldl (fun u T => edit T u) u

theorem editAll_append (ts ts' : List Pointer) (u : Json) :
    editAll (ts ++ ts') u = editAll ts' (editAll ts u) :=
  List.foldl_append

/-- The order of edits does not matter. -/
theorem editAll_perm {ts ts' : List Pointer} (h : ts.Perm ts') : ∀ {u : Json},
    (∀ T ∈ ts, EditPath T) → u.Addressable → editAll ts u = editAll ts' u := by
  induction h with
  | nil => exact fun _ _ => rfl
  | cons T _ ih =>
    exact fun hpaths hu => ih (fun T' hT' => hpaths T' (List.mem_cons_of_mem T hT'))
      (addressable_edit T _ hu)
  | swap T T' rest =>
    intro u hpaths hu
    have hcomm := edit_comm (hpaths T (by simp)) (hpaths T' (by simp)) hu
    exact congrArg (editAll rest) hcomm
  | trans h _ ih ih' =>
    intro u hpaths hu
    rw [ih hpaths hu, ih' (fun T hT => hpaths T (h.mem_iff.2 hT)) hu]

end Patch

end ImportBinding
