/-
  ImportBinding — edits land where their paths say.

  The path of an operation names one place in a document.  The operation changes what is there;
  an item that comes in or goes moves those behind it, and nothing else changes.

  * `target?` is the place that a path names, and `lookup_eq_ok_iff_target`: a look at the path
    reads that place;
  * `exists_route_put`: a put changes one place and keeps all that is apart from it;
  * `exists_step_addChild` and its companions are the changes in the value that holds the target;
  * `operation_lands`: when adding and replacing succeed, what is at the target afterwards, and
    where all else is found.
-/
import ImportBinding.Proofs.Json.Place
import ImportBinding.Proofs.Patch.Lookup
import ImportBinding.Proofs.Patch.Put

namespace ImportBinding

/-- What may be added under a token: a member of any key, or an item at an index up to the length
    of the array, which `-` stands for. -/
def Json.Takes (token : String) : Json → Prop
  | .object _ => True
  | .array items => token = "-" ∨ ∃ i, index? token = some i ∧ i ≤ items.length
  | _ => False

namespace Patch

open Json (Members Place Pointer Step)

variable {path token last : String} {front p : Pointer} {u u' v w w' : Json} {q : Place}

/-! ## Places of pointers -/

/-- The step that a token takes in a value; `-` stands for the place behind the last item. -/
def stepOf? (token : String) : Json → Option Step
  | .object _ => some (.member token)
  | .array items =>
    if token = "-" then some (.item items.length) else (Json.index? token).map .item
  | _ => none

/-- The place that tokens lead to, when each but the last leads on. -/
def route? : Pointer → Json → Option Place
  | [], _ => some []
  | token :: rest, u => do
    let s ← stepOf? token u
    return s :: (← route? rest (← u.behind? s))

/-- The place that a path names: there may be nothing yet behind its last step. -/
def target? (path : String) (u : Json) : Option Place := do
  match splitLast (← Pointer.tokens? path) with
  | none => return []
  | some (front, last) =>
    let place ← route? front u
    return place ++ [← stepOf? last (← u.get? place)]

theorem stepOf?_array_of_index? {items : List Json} {i : Nat} (h : Json.index? token = some i) :
    stepOf? token (.array items) = some (.item i) := by
  rw [stepOf?, if_neg (ne_dash_of_index? h), h]
  rfl

/-- A token leads to what is behind its step. -/
theorem child_eq_ok_iff_step : child token u = .ok v ↔
    ∃ s, stepOf? token u = some s ∧ u.behind? s = some v := by
  rw [child_eq_ok_iff]
  constructor
  · rintro (⟨ms, rfl, hm⟩ | ⟨items, i, rfl, hi, hv⟩)
    · exact ⟨.member token, rfl, hm⟩
    · exact ⟨.item i, stepOf?_array_of_index? hi, hv⟩
  · rintro ⟨s, hs, hv⟩
    cases u with
    | object ms =>
      obtain rfl := Option.some.inj hs
      exact Or.inl ⟨ms, rfl, hv⟩
    | array items =>
      rw [stepOf?] at hs
      split at hs
      · obtain rfl := Option.some.inj hs
        exact absurd hv (by simp [Json.behind?])
      · obtain ⟨i, hi, rfl⟩ := Option.map_eq_some_iff.1 hs
        exact Or.inr ⟨items, i, rfl, hi, hv⟩
    | _ => cases hs

theorem route?_cons_eq_some_iff : route? (token :: p) u = some q ↔
    ∃ s v r, stepOf? token u = some s ∧ u.behind? s = some v ∧ route? p v = some r ∧
      q = s :: r := by
  simp only [route?, Option.bind_eq_bind, Option.bind_eq_some_iff, Option.pure_def,
    Option.some.injEq]
  constructor
  · rintro ⟨s, hs, v, hv, r, hr, rfl⟩
    exact ⟨s, v, r, hs, hv, hr, rfl⟩
  · rintro ⟨s, v, r, hs, hv, hr, rfl⟩
    exact ⟨s, hs, v, hv, r, hr, rfl⟩

/-- Tokens lead to the value at their place. -/
theorem at?_eq_ok_iff_route : at? p u = .ok v ↔ ∃ q, route? p u = some q ∧ u.get? q = some v := by
  induction p generalizing u with
  | nil => simp [at?, route?, Json.get?]
  | cons token p ih =>
    simp only [at?_cons_eq_ok_iff, child_eq_ok_iff_step, ih, route?_cons_eq_some_iff]
    constructor
    · rintro ⟨x, ⟨s, hs, hx⟩, r, hr, hv⟩
      refine ⟨s :: r, ⟨s, x, r, hs, hx, hr, rfl⟩, ?_⟩
      rw [Json.get?, hx]
      exact hv
    · rintro ⟨q, ⟨s, x, r, hs, hx, hr, rfl⟩, hv⟩
      rw [Json.get?, hx] at hv
      exact ⟨x, ⟨s, hs, hx⟩, r, hr, hv⟩

theorem tokens_eq_ok_iff : tokens path = .ok p ↔ Pointer.tokens? path = some p := by
  rw [tokens]
  cases Pointer.tokens? path <;> simp

theorem target?_eq_some_iff : target? path u = some q ↔ tokens path = .ok [] ∧ q = [] ∨
    ∃ front last r w s, tokens path = .ok (front ++ [last]) ∧ route? front u = some r ∧
      u.get? r = some w ∧ stepOf? last w = some s ∧ q = r ++ [s] := by
  simp only [target?, Option.bind_eq_bind, Option.bind_eq_some_iff, tokens_eq_ok_iff]
  constructor
  · rintro ⟨p, hp, h⟩
    split at h
    · next hnone =>
      obtain rfl := splitLast_eq_none_iff.1 hnone
      exact Or.inl ⟨hp, (Option.some.inj h).symm⟩
    · next front last hsome =>
      obtain rfl := splitLast_eq_some_iff.1 hsome
      obtain ⟨r, hr, h⟩ := Option.bind_eq_some_iff.1 h
      obtain ⟨w, hw, h⟩ := Option.bind_eq_some_iff.1 h
      obtain ⟨s, hs, h⟩ := Option.bind_eq_some_iff.1 h
      exact Or.inr ⟨front, last, r, w, s, hp, hr, hw, hs, (Option.some.inj h).symm⟩
  · rintro (⟨hp, rfl⟩ | ⟨front, last, r, w, s, hp, hr, hw, hs, rfl⟩)
    · exact ⟨[], hp, rfl⟩
    · refine ⟨_, hp, ?_⟩
      simp only [splitLast_append_singleton, hr, hw, hs, Option.bind_some]
      rfl

/-- The place of a path is a step on from that of the value that holds its target. -/
theorem target?_of_step {s : Step} (ht : tokens path = .ok (front ++ [last]))
    (hr : route? front u = some q) (hw : u.get? q = some w) (hs : stepOf? last w = some s) :
    target? path u = some (q ++ [s]) :=
  target?_eq_some_iff.2 (Or.inr ⟨front, last, q, w, s, ht, hr, hw, hs, rfl⟩)

/-- A look at a path reads the place that it names. -/
theorem lookup_eq_ok_iff_target : lookup path u = .ok v ↔
    ∃ q, target? path u = some q ∧ u.get? q = some v := by
  simp only [lookup_eq_ok_iff, target?_eq_some_iff, at?_eq_ok_iff_route, child_eq_ok_iff_step]
  constructor
  · rintro (⟨ht, rfl⟩ | ⟨front, last, w, ht, ⟨r, hr, hw⟩, s, hs, hv⟩)
    · exact ⟨[], Or.inl ⟨ht, rfl⟩, rfl⟩
    · refine ⟨r ++ [s], Or.inr ⟨front, last, r, w, s, ht, hr, hw, hs, rfl⟩, ?_⟩
      rw [Json.get?_append_singleton, hw]
      exact hv
  · rintro ⟨q, ⟨ht, rfl⟩ | ⟨front, last, r, w, s, ht, hr, hw, hs, rfl⟩, hv⟩
    · exact Or.inl ⟨ht, Option.some.inj hv⟩
    · rw [Json.get?_append_singleton, hw] at hv
      exact Or.inr ⟨front, last, w, ht, ⟨r, hr, hw⟩, s, hs, hv⟩

/-! ## What a put changes -/

/-- Setting what a token leads to changes what is behind one step. -/
theorem exists_step_setChild (h : child token u = .ok v) : ∃ s, stepOf? token u = some s ∧
    u.behind? s = some v ∧ (setChild token w u).behind? s = some w ∧
      ∀ t ≠ s, (setChild token w u).behind? t = u.behind? t := by
  obtain ⟨ms, rfl, hm⟩ | ⟨items, i, rfl, hi, hv⟩ := child_eq_ok_iff.1 h
  · refine ⟨.member token, rfl, hm, Members.find?_insert_self .., fun t ht => ?_⟩
    cases t with
    | member key => exact Members.find?_insert_of_ne (fun hk => ht (congrArg _ hk)) ..
    | item i => rfl
  · obtain ⟨hlt, -⟩ := List.getElem?_eq_some_iff.1 hv
    rw [setChild, hi]
    refine ⟨.item i, stepOf?_array_of_index? hi, hv, List.getElem?_set_self hlt, fun t ht => ?_⟩
    cases t with
    | member key => rfl
    | item j => exact List.getElem?_set_ne fun hij => ht (congrArg _ hij.symm)

/-- A put changes the place that its pointer leads to, and keeps what is apart from it. -/
theorem exists_route_put (h : at? p u = .ok v) : ∃ q, route? p u = some q ∧ u.get? q = some v ∧
    (put p w u).get? q = some w ∧ Json.KeepsApart q u (put p w u) := by
  induction p generalizing u with
  | nil =>
    obtain rfl := Except.ok.inj h
    exact ⟨[], rfl, rfl, rfl, fun q hq => absurd List.nil_prefix hq.1⟩
  | cons token p ih =>
    obtain ⟨x, hx, hp⟩ := at?_cons_eq_ok_iff.1 h
    obtain ⟨q, hq, hv, hw, hkeeps⟩ := ih hp
    obtain ⟨s, hs, hux, hset, hother⟩ := exists_step_setChild (w := put p w x) hx
    rw [put_cons hx]
    refine ⟨s :: q, route?_cons_eq_some_iff.2 ⟨s, x, q, hs, hux, hq, rfl⟩, ?_, ?_, ?_⟩
    · rw [Json.get?, hux]
      exact hv
    · rw [Json.get?, hset]
      exact hw
    · rintro r ⟨hqr, hrq⟩
      cases r with
      | nil => exact absurd List.nil_prefix hrq
      | cons t r =>
        rw [Json.get?, Json.get?]
        -- a place either parts from the way at the first step, or further on
        by_cases hts : t = s
        · subst hts
          rw [hset, hux]
          refine hkeeps r ⟨fun hpre => hqr ?_, fun hpre => hrq ?_⟩
          · exact (List.prefix_cons_inj t).2 hpre
          · exact (List.prefix_cons_inj t).2 hpre
        · rw [hother t hts]

/-! ## What operations change -/

/-- A path ends in the token that appends to an array. -/
def Appends (path : String) (u : Json) : Prop :=
  ∃ front items, tokens path = .ok (front ++ ["-"]) ∧ at? front u = .ok (.array items)

theorem exists_addChild_iff : (∃ u', addChild path v token u = .ok u') ↔ u.Takes token := by
  simp only [addChild_eq_ok_iff]
  cases u with
  | object ms => simp [Json.Takes]
  | array items =>
    simp only [reduceCtorEq, false_and, exists_false, false_or, Json.array.injEq, Json.Takes]
    constructor
    · rintro ⟨_, _, i, rfl, -, ⟨hdash, -⟩ | ⟨hi, hle⟩⟩
      · exact Or.inl hdash
      · exact Or.inr ⟨i, hi, hle⟩
    · rintro (hdash | ⟨i, hi, hle⟩)
      · exact ⟨_, items, items.length, rfl, rfl, Or.inl ⟨hdash, rfl⟩⟩
      · exact ⟨_, items, i, rfl, rfl, Or.inr ⟨hi, hle⟩⟩
  | _ => simp [Json.Takes]

/-- What was added is found under its token, but for the token that appends. -/
theorem child_addChild (h : addChild path v token u = .ok u')
    (hdash : ∀ items, u = .array items → token ≠ "-") : child token u' = .ok v := by
  obtain ⟨ms, rfl, rfl⟩ | ⟨items, i, rfl, rfl, ⟨hi, -⟩ | ⟨hi, hle⟩⟩ := addChild_eq_ok_iff.1 h
  · exact child_eq_ok_iff.2 (Or.inl ⟨_, rfl, Members.find?_insert_self ..⟩)
  · exact absurd hi (hdash items rfl)
  · refine child_eq_ok_iff.2 (Or.inr ⟨_, i, rfl, hi, ?_⟩)
    rw [List.getElem?_insertIdx_self, if_pos hle]

/-- Adding in the value at a place adds at a place one step on. -/
theorem exists_step_addChild (h : addChild path v token w = .ok w')
    (hkeeps : Json.KeepsApart q u u') (hw : u.get? q = some w) (hw' : u'.get? q = some w') :
    ∃ s, stepOf? token w = some s ∧ w'.behind? s = some v ∧
      Json.AddedAt (q ++ [s]) u u' := by
  obtain ⟨ms, rfl, rfl⟩ | ⟨items, i, rfl, rfl, hi⟩ := addChild_eq_ok_iff.1 h
  · refine ⟨.member token, rfl, Members.find?_insert_self .., Json.addedAt_member_iff.2 ?_⟩
    refine hkeeps.append_step hw hw' fun t ht => ?_
    cases t with
    | member key => exact Members.find?_insert_of_ne (fun hk => ht (congrArg _ hk)) ..
    | item i => rfl
  · have hstep : stepOf? token (.array items) = some (.item i) := by
      obtain ⟨rfl, rfl⟩ | ⟨hi, -⟩ := hi
      · rfl
      · exact stepOf?_array_of_index? hi
    have hle : i ≤ items.length := by
      obtain ⟨-, rfl⟩ | ⟨-, hle⟩ := hi
      · exact Nat.le_refl _
      · exact hle
    refine ⟨.item i, hstep, ?_, Json.addedAt_item_iff.2 ?_⟩
    · rw [Json.behind?, List.getElem?_insertIdx_self, if_pos hle]
    · exact hkeeps.makesRoom hw hw' (Json.getElem?_insertIdx_movedUp items i)

/-- Removing in the value at a place is adding one step on, seen backwards. -/
theorem exists_step_removeChild (h : removeChild path token w = .ok w')
    (hkeeps : Json.KeepsApart q u u') (hw : u.get? q = some w) (hw' : u'.get? q = some w') :
    ∃ s old, stepOf? token w = some s ∧ w.behind? s = some old ∧
      Json.AddedAt (q ++ [s]) u' u := by
  obtain ⟨ms, rfl, rfl, hm⟩ | ⟨items, i, rfl, rfl, hi, hlt⟩ := removeChild_eq_ok_iff.1 h
  · obtain ⟨old, hold⟩ := Option.isSome_iff_exists.1 hm
    refine ⟨.member token, old, rfl, hold, Json.addedAt_member_iff.2 ?_⟩
    refine hkeeps.symm.append_step hw' hw fun t ht => ?_
    cases t with
    | member key => exact (Members.find?_erase_of_ne (fun hk => ht (congrArg _ hk)) _).symm
    | item i => rfl
  · refine ⟨.item i, items[i], stepOf?_array_of_index? hi, List.getElem?_eq_getElem hlt, ?_⟩
    refine Json.addedAt_item_iff.2 (hkeeps.symm.makesRoom hw' hw fun j => ?_)
    exact Json.getElem?_movedUp_eraseIdx items i j

theorem test_of_lookup (h : lookup path u = .ok v) : (Op.test path v).apply u = .ok u := by
  rw [Op.apply_test, h]
  exact if_pos (Json.same_refl v)

/-- Replacing succeeds iff the path leads somewhere. -/
theorem exists_replace_iff : (∃ u', (Op.replace path v).apply u = .ok u') ↔
    ∃ w, lookup path u = .ok w := by
  constructor
  · rintro ⟨u', h⟩
    obtain ⟨ht, -⟩ | ⟨front, last, w, w', ht, hw, hreplace, -⟩ := atParent_eq_ok_iff.1 h
    · exact ⟨u, lookup_eq_ok_iff.2 (Or.inl ⟨ht, rfl⟩)⟩
    · obtain ⟨old, hold, -⟩ := replaceChild_eq_ok_iff.1 hreplace
      exact ⟨old, lookup_eq_ok_iff.2 (Or.inr ⟨front, last, w, ht, hw, hold⟩)⟩
  · rintro ⟨old, h⟩
    obtain ⟨ht, -⟩ | ⟨front, last, w, ht, hw, hold⟩ := lookup_eq_ok_iff.1 h
    · exact ⟨v, atParent_eq_ok_iff.2 (Or.inl ⟨ht, rfl⟩)⟩
    · exact ⟨_, atParent_eq_ok_iff.2 (Or.inr ⟨front, last, w, _, ht, hw,
        replaceChild_eq_ok_iff.2 ⟨old, hold, rfl⟩, rfl⟩)⟩

theorem exists_add_iff (ht : tokens path = .ok (front ++ [last])) (hw : at? front u = .ok w) :
    (∃ u', (Op.add path v).apply u = .ok u') ↔ w.Takes last := by
  have hadd : (∃ w', addChild path v last w = .ok w') ↔ w.Takes last := exists_addChild_iff
  rw [← hadd]
  simp only [Op.apply, atParent_eq_ok_iff_of_tokens ht hw]
  constructor
  · rintro ⟨u', w', hadd, -⟩
    exact ⟨w', hadd⟩
  · rintro ⟨w', hadd⟩
    exact ⟨_, w', hadd, rfl⟩

/-- What adding leaves: the value is at the place that the path names, and nothing else is new. -/
theorem add_lands (h : (Op.add path v).apply u = .ok u') : ∃ q, target? path u = some q ∧
    u'.get? q = some v ∧ Json.AddedAt q u u' ∧
      (¬ Appends path u → (Op.test path v).apply u' = .ok u') := by
  obtain ⟨ht, hroot⟩ | ⟨front, last, w, w', ht, hw, hadd, rfl⟩ := atParent_eq_ok_iff.1 h
  · obtain rfl := Except.ok.inj hroot
    refine ⟨[], target?_eq_some_iff.2 (Or.inl ⟨ht, rfl⟩), rfl, ?_, fun _ => ?_⟩
    · exact fun q hq => absurd List.nil_prefix hq.1
    · exact test_of_lookup (lookup_eq_ok_iff.2 (Or.inl ⟨ht, rfl⟩))
  · obtain ⟨r, hr, hrw, hrw', hkeeps⟩ := exists_route_put (w := w') hw
    obtain ⟨s, hs, hv, hadded⟩ := exists_step_addChild hadd hkeeps hrw hrw'
    refine ⟨r ++ [s], target?_of_step ht hr hrw hs, ?_, hadded, fun hdash => test_of_lookup ?_⟩
    · rw [Json.get?_append_singleton, hrw']
      exact hv
    · have hchild : child last w' = .ok v := by
        refine child_addChild hadd ?_
        rintro items rfl rfl
        exact hdash ⟨front, items, ht, hw⟩
      exact lookup_eq_ok_iff.2 (Or.inr ⟨front, last, w', ht, at?_put hw, hchild⟩)

/-- What replacing leaves: the value is at the place that the path leads to, and all that is
    apart from it is kept. -/
theorem replace_lands (h : (Op.replace path v).apply u = .ok u') :
    ∃ q, target? path u = some q ∧ u'.get? q = some v ∧ Json.KeepsApart q u u' ∧
      (Op.test path v).apply u' = .ok u' := by
  obtain ⟨ht, hroot⟩ | ⟨front, last, w, w', ht, hw, hreplace, rfl⟩ := atParent_eq_ok_iff.1 h
  · obtain rfl := Except.ok.inj hroot
    refine ⟨[], target?_eq_some_iff.2 (Or.inl ⟨ht, rfl⟩), rfl, ?_, ?_⟩
    · exact fun q hq => absurd List.nil_prefix hq.1
    · exact test_of_lookup (lookup_eq_ok_iff.2 (Or.inl ⟨ht, rfl⟩))
  · obtain ⟨old, hold, rfl⟩ := replaceChild_eq_ok_iff.1 hreplace
    obtain ⟨r, hr, hrw, hrw', hkeeps⟩ := exists_route_put (w := setChild last v w) hw
    obtain ⟨s, hs, -, hv, hother⟩ := exists_step_setChild (w := v) hold
    refine ⟨r ++ [s], target?_of_step ht hr hrw hs, ?_, hkeeps.append_step hrw hrw' hother,
      test_of_lookup ?_⟩
    · rw [Json.get?_append_singleton, hrw']
      exact hv
    · exact lookup_eq_ok_iff.2
        (Or.inr ⟨front, last, _, ht, at?_put hw, child_setChild hold⟩)

/-- What removing leaves: something was at the place that the path leads to, and seen backwards
    it is all that is new. -/
theorem remove_lands (h : (Op.remove path).apply u = .ok u') : ∃ q old, target? path u = some q ∧
    u.get? q = some old ∧ Json.AddedAt q u' u := by
  obtain ⟨-, hroot⟩ | ⟨front, last, w, w', ht, hw, hremove, rfl⟩ := atParent_eq_ok_iff.1 h
  · cases hroot
  · obtain ⟨r, hr, hrw, hrw', hkeeps⟩ := exists_route_put (w := w') hw
    obtain ⟨s, old, hs, hold, hadded⟩ := exists_step_removeChild hremove hkeeps hrw hrw'
    refine ⟨r ++ [s], old, target?_of_step ht hr hrw hs, ?_, hadded⟩
    rw [Json.get?_append_singleton, hrw]
    exact hold

/-- Operations land where their paths say.  A path leads to the place that it names; adding
    succeeds in what may take the last token, and replacing where the path leads somewhere.
    Afterwards the value is at that place, and a test finds it unless it was appended.  All else
    is where it was, or one index higher or lower in the array that an item came into or left. -/
theorem operation_lands (path : String) (v u : Json) :
    (∀ w, lookup path u = .ok w ↔ ∃ q, target? path u = some q ∧ u.get? q = some w) ∧
    (∀ front last w, tokens path = .ok (front ++ [last]) → at? front u = .ok w →
      ((∃ u', (Op.add path v).apply u = .ok u') ↔ w.Takes last)) ∧
    ((∃ u', (Op.replace path v).apply u = .ok u') ↔ ∃ w, lookup path u = .ok w) ∧
    (∀ u', (Op.add path v).apply u = .ok u' → ∃ q, target? path u = some q ∧
      u'.get? q = some v ∧ Json.AddedAt q u u' ∧
        (¬ Appends path u → (Op.test path v).apply u' = .ok u')) ∧
    (∀ u', (Op.replace path v).apply u = .ok u' → ∃ q, target? path u = some q ∧
      u'.get? q = some v ∧ Json.KeepsApart q u u' ∧ (Op.test path v).apply u' = .ok u') ∧
    ∀ u', (Op.remove path).apply u = .ok u' → ∃ q old, target? path u = some q ∧
      u.get? q = some old ∧ Json.AddedAt q u' u := by
  refine ⟨fun w => lookup_eq_ok_iff_target, fun front last w ht hw => exists_add_iff ht hw,
    exists_replace_iff, fun u' h => add_lands h, fun u' h => replace_lands h,
    fun u' h => remove_lands h⟩

end Patch

end ImportBinding
