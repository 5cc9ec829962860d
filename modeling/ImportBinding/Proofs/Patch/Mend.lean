/-
  ImportBinding — a value mended at some pointers.

  What many edits do to a value is said of the whole value at once: in some objects the mark is
  set or the body dropped, and all else stays what and where it was.

  * `Json.mend` mends a value at a selection, like `Document.mend` a document;
  * `Edits.eq_mend`: an edit mends a mended value at one more pointer;
  * `Json.located_mend_iff`: what stands at a location of a mended value is what stood there,
    mended, when nothing on the way was selected (`Selection.Spares`).
-/
import ImportBinding.Proofs.Declaration.Mend
import ImportBinding.Proofs.Patch.Commute
import ImportBinding.Proofs.Patch.Lookup

namespace ImportBinding

/-! ## Selections -/

namespace Selection

variable {S : Selection} {token : String} {p : Json.Pointer}

/-- Nothing on the way to a pointer is selected, nor the pointer itself. -/
def Spares (S : Selection) (p : Json.Pointer) : Prop :=
  ∀ q, q ≠ [] → q <+: p → S q = false

theorem Spares.head (h : S.Spares (token :: p)) : S [token] = false :=
  h [token] (by simp) (List.prefix_append [token] p)

/-- What is behind the first token is spared too. -/
theorem Spares.tail (h : S.Spares (token :: p)) : (S.below [token]).Spares p :=
  fun q _ hq => h (token :: q) (by simp) ((List.prefix_cons_inj token).2 hq)

end Selection

namespace Json

/-! ## Mending -/

/-- The members of an object that stands where a selection starts: the mark is set and the body
    dropped where it says so, and the other members stay. -/
def mendKeys (S : Selection) (ms : Members) : Members :=
  let marked := if S ["partial"] then ms.insert "partial" (.bool true) else ms
  if S ["body"] then marked.erase "body" else marked

mutual

/-- The value mended at a selection. -/
def mend (S : Selection) : Json → Json
  | array items => array (mendItems S 0 items)
  | object members => object (mendKeys S (mendMembers S members))
  | u => u

/-- The items mended at a selection, which have the numbers from `i` on. -/
def mendItems (S : Selection) (i : Nat) : List Json → List Json
  | [] => []
  | u :: rest => u.mend (S.below [Nat.repr i]) :: mendItems S (i + 1) rest

/-- The members mended at a selection, each further inside. -/
def mendMembers (S : Selection) : Members → Members
  | [] => []
  | (k, u) :: rest => (k, u.mend (S.below [k])) :: mendMembers S rest

end

variable {S S' : Selection} {ms : Members} {k : String}

theorem mendItems_eq_mapIdx (items : List Json) : ∀ {i : Nat},
    mendItems S i items = items.mapIdx fun j u => u.mend (S.below [Nat.repr (i + j)]) := by
  induction items with
  | nil => intro i; rfl
  | cons u rest ih =>
    intro i
    rw [mendItems, ih, List.mapIdx_cons]
    simp only [Nat.add_zero, Nat.add_assoc, Nat.add_comm 1]

/-- The items of a list are mended where they are. -/
theorem mend_array (items : List Json) : (array items).mend S =
    array (items.mapIdx fun i u => u.mend (S.below [Nat.repr i])) := by
  rw [mend, mendItems_eq_mapIdx]
  simp only [Nat.zero_add]

theorem mendMembers_eq_map (ms : Members) :
    mendMembers S ms = ms.map fun m => (m.1, m.2.mend (S.below [m.1])) := by
  induction ms with
  | nil => rfl
  | cons m rest ih => rw [mendMembers, ih]; rfl

theorem find?_mendMembers (ms : Members) :
    (mendMembers S ms).find? k = (ms.find? k).map (mend (S.below [k])) := by
  induction ms with
  | nil => rfl
  | cons m rest ih =>
    obtain ⟨l, u⟩ := m
    rw [mendMembers, Members.find?, Members.find?, ih]
    split
    · next hk => rw [hk, Option.map_some]
    · rfl

theorem Members.Sorted.mendMembers (h : ms.Sorted) : (mendMembers S ms).Sorted := by
  rw [mendMembers_eq_map]
  exact List.pairwise_map.2 h

/-- What is found under a key that may be set or dropped. -/
theorem Members.Sorted.find?_mendKeys (h : ms.Sorted) : (mendKeys S ms).find? k =
    if k = "body" ∧ S ["body"] then none
    else if k = "partial" ∧ S ["partial"] then some (.bool true) else ms.find? k := by
  have hmark : (if S ["partial"] then ms.insert "partial" (.bool true) else ms).Sorted ∧
      (if S ["partial"] then ms.insert "partial" (.bool true) else ms).find? k =
        if k = "partial" ∧ S ["partial"] then some (.bool true) else ms.find? k := by
    cases S ["partial"] with
    | true =>
      refine ⟨h.insert .., ?_⟩
      by_cases hk : k = "partial"
      · simp [hk, Members.find?_insert_self]
      · simp [hk, Members.find?_insert_of_ne hk]
    | false => simpa using h
  rw [mendKeys, ← hmark.2]
  cases S ["body"] with
  | true =>
    by_cases hk : k = "body"
    · simp [hk, hmark.1.find?_erase_self]
    · simp [hk, Members.find?_erase_of_ne hk]
  | false => simp

theorem Members.Sorted.mendKeys (h : ms.Sorted) : (mendKeys S ms).Sorted := by
  rw [Json.mendKeys]
  split <;> split
  · exact (h.insert ..).erase _
  · exact h.erase _
  · exact h.insert ..
  · exact h

/-- A value is mended by what the selection says of what is inside it. -/
theorem mend_congr (h : ∀ p, p ≠ [] → S p = S' p) (u : Json) : u.mend S = u.mend S' := by
  have hbelow : ∀ token, S.below [token] = S'.below [token] := fun token =>
    funext fun p => h (token :: p) (by simp)
  cases u with
  | array items => simp only [mend_array, hbelow]
  | object ms =>
    have hkeys : ∀ ms : Members, mendKeys S ms = mendKeys S' ms := fun ms => by
      rw [mendKeys, mendKeys, h ["partial"] (by simp), h ["body"] (by simp)]
    rw [mend, mend, hkeys, mendMembers_eq_map, mendMembers_eq_map]
    simp only [hbelow]
  | _ => rfl

mutual

/-- A value that is mended nowhere stays as it is. -/
theorem mend_empty : (u : Json) → u.mend (fun _ => false) = u
  | null | bool _ | number _ | string _ => rfl
  | array items => by rw [mend, mendItems_empty items]
  | object members => by rw [mend, mendMembers_empty members]; rfl

theorem mendItems_empty {i : Nat} : (items : List Json) →
    mendItems (fun _ => false) i items = items
  | [] => rfl
  | u :: rest => by
    rw [mendItems, mendItems_empty rest]
    exact congrArg (· :: rest) (mend_empty u)

theorem mendMembers_empty : (ms : Members) → mendMembers (fun _ => false) ms = ms
  | [] => rfl
  | (k, u) :: rest => by
    rw [mendMembers, mendMembers_empty rest]
    exact congrArg (fun v => (k, v) :: rest) (mend_empty u)

end

theorem exists_array_of_mend {u : Json} {us : List Json} (h : u.mend S = array us) :
    ∃ vs, u = array vs ∧ us = vs.mapIdx fun i v => v.mend (S.below [Nat.repr i]) := by
  cases u with
  | array vs =>
    rw [mend_array] at h
    exact ⟨vs, rfl, (array.inj h).symm⟩
  | _ => cases h

theorem exists_object_of_mend {u : Json} {ms : Members} (h : u.mend S = object ms) :
    ∃ ns : Members, u = object ns ∧ ms = mendKeys S (mendMembers S ns) := by
  cases u with
  | object ns => exact ⟨ns, rfl, (object.inj h).symm⟩
  | _ => cases h

/-! ## Locations -/

/-- A member that is neither set nor dropped is mended inside. -/
theorem Members.Sorted.find?_mend (h : ms.Sorted) (hk : S [k] = false) :
    (Json.mendKeys S (Json.mendMembers S ms)).find? k = (ms.find? k).map (mend (S.below [k])) := by
  rw [h.mendMembers.find?_mendKeys, if_neg, if_neg, find?_mendMembers]
  · rintro ⟨rfl, hs⟩
    cases hs.symm.trans hk
  · rintro ⟨rfl, hs⟩
    cases hs.symm.trans hk

namespace Located

variable {v x y : Json} {p : Pointer}

/-- What stands at a location that is spared still stands there, mended. -/
theorem mend (h : v.Located p x) : ∀ {S : Selection}, v.Addressable → S.Spares p →
    (v.mend S).Located p (x.mend (S.below p)) := by
  induction h with
  | here => exact fun _ _ => .here
  | @member ms k u x p hm h ih =>
    intro S hv hS
    refine .member (u := u.mend (S.below [k])) ?_ (ih (hv.member hm) hS.tail)
    rw [hv.sorted.find?_mend hS.head, hm]
    rfl
  | @item us i u x p hi h ih =>
    intro S hv hS
    rw [Json.mend_array]
    refine .item (u := u.mend (S.below [Nat.repr i])) ?_ (ih (hv.item hi).2 hS.tail)
    rw [List.getElem?_mapIdx, hi]
    rfl

/-- What stands at a location that is spared stood there before. -/
theorem exists_of_mend : ∀ {p : Pointer} {v : Json} {S : Selection}, v.Addressable → S.Spares p →
    (v.mend S).Located p y → ∃ x, v.Located p x ∧ y = x.mend (S.below p) := by
  intro p
  induction p with
  | nil =>
    intro v S _ _ h
    generalize hw : v.mend S = w at h
    cases h
    exact ⟨v, .here, hw.symm⟩
  | cons token p ih =>
    intro v S hv hS h
    generalize hT : token :: p = T at h
    generalize hw : v.mend S = w at h
    cases h with
    | here => cases hT
    | member hm h =>
      obtain ⟨rfl, rfl⟩ := List.cons.inj hT
      obtain ⟨ms, rfl, rfl⟩ := exists_object_of_mend hw
      rw [hv.sorted.find?_mend hS.head] at hm
      obtain ⟨u, hu, rfl⟩ := Option.map_eq_some_iff.1 hm
      obtain ⟨x, hx, hy⟩ := ih (hv.member hu) hS.tail h
      exact ⟨x, .member hu hx, hy⟩
    | item hi h =>
      obtain ⟨rfl, rfl⟩ := List.cons.inj hT
      obtain ⟨us, rfl, rfl⟩ := exists_array_of_mend hw
      rw [List.getElem?_mapIdx] at hi
      obtain ⟨u, hu, rfl⟩ := Option.map_eq_some_iff.1 hi
      obtain ⟨x, hx, hy⟩ := ih (hv.item hu).2 hS.tail h
      exact ⟨x, .item hu hx, hy⟩

end Located

/-- At a location that is spared a mended value has what it had, mended. -/
theorem located_mend_iff {v y : Json} {p : Pointer} (hv : v.Addressable) (hS : S.Spares p) :
    (v.mend S).Located p y ↔ ∃ x, v.Located p x ∧ y = x.mend (S.below p) := by
  constructor
  · exact Located.exists_of_mend hv hS
  · rintro ⟨x, hx, rfl⟩
    exact hx.mend hv hS

end Json

/-! ## Edits -/

namespace Patch

open Json (Members Pointer)

variable {S : Selection} {ms ns : Members}

/-- A path of an edit does not go on from another. -/
theorem EditPath.eq_of_isPrefix {T : Pointer} (h : EditPath T) : ∀ {T' : Pointer}, EditPath T' →
    T <+: T' → T = T' := by
  have hleaf : ∀ {token : String} {T' : Pointer}, token ≠ "containers" ∧ token ≠ "methods" →
      EditPath T' → [token] <+: T' → [token] = T' := by
    rintro token _ hne h' ⟨q, rfl⟩
    obtain ⟨-, rfl⟩ | ⟨hkey, -⟩ := h'.cases_cons
    · rfl
    · exact absurd hkey (not_or.2 hne)
  induction h with
  | setPartial => exact hleaf (by decide)
  | clearBody => exact hleaf (by decide)
  | @item key i p _ _ ih =>
    rintro _ h' ⟨q, rfl⟩
    exact congrArg (key :: Nat.repr i :: ·) (ih h'.of_item (List.prefix_append p q))

/-- On the way to the target of an edit there is no other. -/
theorem EditPath.not_of_isPrefix {p q : Pointer} {last : String} (h : EditPath (p ++ [last]))
    (hq : q <+: p) : ¬ EditPath q := by
  intro hpath
  have he := hpath.eq_of_isPrefix h (hq.trans (List.prefix_append p _))
  have hle := hq.length_le
  rw [he, List.length_append, List.length_singleton] at hle
  omega

/-- Inside a member an edit of the object itself changes nothing. -/
theorem mendMembers_insert_singleton (token : String) (ms : Members) :
    Json.mendMembers (S.insert [token]) ms = Json.mendMembers S ms := by
  rw [Json.mendMembers_eq_map, Json.mendMembers_eq_map]
  refine List.map_congr_left fun m _ => congrArg (Prod.mk m.1) (Json.mend_congr (fun p hp => ?_) _)
  exact Selection.insert_of_ne (by simp [hp])

/-- An edit mends a mended value at one more pointer. -/
theorem Edits.eq_mend {T : Pointer} {u u' : Json} (h : Edits T u u') :
    ∀ {S : Selection} {v : Json}, v.Addressable → u = v.mend S → u' = v.mend (S.insert T) := by
  induction h with
  | @setPartial ms =>
    intro S v hv he
    obtain ⟨ns, rfl, rfl⟩ := Json.exists_object_of_mend he.symm
    have hs : (Json.mendMembers S ns).Sorted := hv.sorted.mendMembers
    rw [Json.mend, mendMembers_insert_singleton]
    refine congrArg Json.object ((hs.mendKeys.insert ..).ext hs.mendKeys fun k => ?_)
    by_cases hk : k = "partial"
    · simp [hk, Members.find?_insert_self, hs.find?_mendKeys, Selection.insert_self]
    · rw [Members.find?_insert_of_ne hk, hs.find?_mendKeys, hs.find?_mendKeys,
        Selection.insert_of_ne (show ["body"] ≠ ["partial"] by decide)]
      simp [hk]
  | @clearBody ms b hb =>
    intro S v hv he
    obtain ⟨ns, rfl, rfl⟩ := Json.exists_object_of_mend he.symm
    have hs : (Json.mendMembers S ns).Sorted := hv.sorted.mendMembers
    rw [Json.mend, mendMembers_insert_singleton]
    refine congrArg Json.object ((hs.mendKeys.erase _).ext hs.mendKeys fun k => ?_)
    by_cases hk : k = "body"
    · simp [hk, hs.mendKeys.find?_erase_self, hs.find?_mendKeys, Selection.insert_self]
    · rw [Members.find?_erase_of_ne hk, hs.find?_mendKeys, hs.find?_mendKeys,
        Selection.insert_of_ne (show ["partial"] ≠ ["body"] by decide)]
      simp [hk]
  | @item ms key us i u u' p hkey hm hi hlt h ih =>
    intro S v hv he
    obtain ⟨ns, rfl, rfl⟩ := Json.exists_object_of_mend he.symm
    have hs : ∀ S, (Json.mendMembers S ns).Sorted := fun S => hv.sorted.mendMembers
    have hbody : key ≠ "body" := by rcases hkey with rfl | rfl <;> decide
    have hpartial : key ≠ "partial" := by rcases hkey with rfl | rfl <;> decide
    have hlist : ∀ S, (Json.mendKeys S (Json.mendMembers S ns)).find? key =
        (ns.find? key).map (Json.mend (S.below [key])) := fun S => by
      rw [(hs S).find?_mendKeys, if_neg fun h => hbody h.1, if_neg fun h => hpartial h.1,
        Json.find?_mendMembers]
    rw [hlist] at hm
    obtain ⟨x, hx, hmend⟩ := Option.map_eq_some_iff.1 hm
    obtain ⟨vs, rfl, rfl⟩ := Json.exists_array_of_mend hmend
    rw [List.getElem?_mapIdx] at hi
    obtain ⟨v₀, hv₀, rfl⟩ := Option.map_eq_some_iff.1 hi
    obtain rfl := ih ((hv.member hx).item hv₀).2 rfl
    refine congrArg Json.object (((hs S).mendKeys.insert ..).ext (hs _).mendKeys fun k => ?_)
    by_cases hk : k = key
    · subst hk
      rw [Members.find?_insert_self, hlist, hx, Option.map_some, Json.mend_array]
      exact congrArg (some ∘ Json.array)
        (mapIdx_insert (f := fun S v => v.mend S) (S := S) hv₀).symm
    · have hbelow : (S.insert (key :: Nat.repr i :: p)).below [k] = S.below [k] :=
        funext fun q => Selection.insert_of_ne (by simp [hk])
      rw [Members.find?_insert_of_ne hk, (hs _).find?_mendKeys, (hs _).find?_mendKeys,
        Json.find?_mendMembers, Json.find?_mendMembers, hbelow,
        Selection.insert_of_ne (by simp), Selection.insert_of_ne (by simp)]

end Patch

end ImportBinding
