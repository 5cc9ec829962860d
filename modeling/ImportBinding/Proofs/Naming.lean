/-
  ImportBinding — names are exact and different.

  A run tries the names of a plain name in their order, from the number it stopped at.  What
  it passed over is reserved or taken, and stays so.

  * `Sound` is what holds in every run: the numbers below a counter are not free, and no two
    methods have one name;
  * `Sound.isLeast_number`: the number found is the least that is free;
  * `Reachable.nodup_assignAll`: the names of a surface are different ones;
  * `assignAll_exact`: on a run that starts fresh the first method of a plain name gets it
    bare, and each later one the least number whose name is free.
-/
import ImportBinding.Naming
import ImportBinding.Proofs.Json.Index
import ImportBinding.Surface.Basic
import Mathlib.Data.List.Nodup
import Mathlib.Data.List.Perm.Subperm
import Mathlib.Order.Bounds.Basic

namespace ImportBinding.Naming

/-! ## Candidates -/

/-- Different numbers make different names. -/
theorem candidate_injective (plain : String) : Function.Injective (candidate plain) := by
  intro m n h
  have hlist := congrArg String.toList h
  cases m with
  | zero =>
    cases n with
    | zero => rfl
    | succ n => simp [candidate] at hlist
  | succ m =>
    cases n with
    | zero => simp [candidate] at hlist
    | succ n =>
      rw [candidate, candidate, String.toList_append, String.toList_append] at hlist
      exact Json.repr_inj.1 (String.toList_inj.1 (List.append_cancel_left hlist))

/-- Among as many numbers as there are names that are not free, and one more, one is free. -/
theorem exists_free (names : Naming) (plain : String) (n : Nat) :
    ∃ m, n ≤ m ∧ m < n + (names.reserved.length + names.taken.length + 1) ∧
      names.IsFree plain m := by
  apply Classical.byContradiction
  intro hnone
  have hsub : (List.range' n (names.reserved.length + names.taken.length + 1)).map
      (candidate plain) ⊆ names.reserved ++ names.taken := by
    intro name hname
    obtain ⟨m, hm, rfl⟩ := List.mem_map.1 hname
    have hrange := List.mem_range'_1.1 hm
    have hblocked : ¬ names.IsFree plain m := fun hf => hnone ⟨m, hrange.1, hrange.2, hf⟩
    rw [IsFree, not_and_or, not_or, Classical.not_not, Classical.not_not] at hblocked
    rw [List.mem_append]
    rcases hblocked with ⟨-, h⟩ | h
    · exact Or.inl h
    · exact Or.inr h
  have hnodup : ((List.range' n (names.reserved.length + names.taken.length + 1)).map
      (candidate plain)).Nodup :=
    List.Nodup.map (candidate_injective plain) List.nodup_range'
  have hlen := (hnodup.subperm hsub).length_le
  simp only [List.length_map, List.length_range', List.length_append] at hlen
  omega

/-- The search finds the first number that is free, if there is one among those it looks at. -/
theorem search_spec {names : Naming} {plain : String} (k : Nat) : ∀ {n : Nat},
    (∃ m, n ≤ m ∧ m < n + k ∧ names.IsFree plain m) →
    names.IsFree plain (names.search plain k n) ∧
      ∀ m, n ≤ m → names.IsFree plain m → names.search plain k n ≤ m := by
  induction k with
  | zero =>
    rintro n ⟨m, hle, hlt, -⟩
    omega
  | succ k ih =>
    rintro n ⟨m, hle, hlt, hf⟩
    rw [search]
    split
    · next hn => exact ⟨hn, fun m hm _ => hm⟩
    · next hn =>
      have hne : m ≠ n := by rintro rfl; exact hn hf
      obtain ⟨hfree, hleast⟩ := @ih (n + 1) ⟨m, by omega, by omega, hf⟩
      refine ⟨hfree, fun m' hm' hf' => hleast m' ?_ hf'⟩
      have hne' : m' ≠ n := by rintro rfl; exact hn hf'
      omega

/-! ## Runs -/

/-- No number below a counter is free, and different methods have different names, all of
    them taken. -/
structure Sound (names : Naming) : Prop where
  blocked : ∀ plain n, n < names.nextOf plain → ¬ names.IsFree plain n
  taken : ∀ {id name}, names.get? id = some name → name ∈ names.taken
  injective : ∀ {id id' name}, names.get? id = some name → names.get? id' = some name → id = id'

/-- The number found is the least that is free. -/
theorem Sound.isLeast_number {names : Naming} (h : names.Sound) (plain : String) :
    IsLeast {n | names.IsFree plain n} (names.number plain) := by
  obtain ⟨hfree, hleast⟩ := search_spec _ (exists_free names plain (names.nextOf plain))
  refine ⟨hfree, fun m hm => hleast m ?_ hm⟩
  exact Nat.le_of_not_lt fun hlt => h.blocked plain m hlt hm

theorem assign_of_get?_eq_none {names : Naming} {id : Nat} (h : names.get? id = none)
    (plain : String) : names.assign id plain =
      (candidate plain (names.number plain), { names with
        next := (plain, names.number plain + 1) :: names.next
        taken := candidate plain (names.number plain) :: names.taken
        assigned := (id, candidate plain (names.number plain)) :: names.assigned }) := by
  unfold get? at h
  simp [assign, h]

/-- A method that asks has its name from then on, and no other method is renamed. -/
theorem get?_assign (names : Naming) (id : Nat) (plain : String) (id' : Nat) :
    (names.assign id plain).2.get? id' =
      if id' = id then some (names.assign id plain).1 else names.get? id' := by
  cases h : names.get? id with
  | some name =>
    rw [assign_of_get? h]
    split
    · next he => rw [he, h]
    · rfl
  | none =>
    rw [assign_of_get?_eq_none h]
    simp only [get?, List.lookup_cons]
    by_cases he : id' = id
    · simp [he]
    · simp [he, beq_eq_false_iff_ne.2 he]

theorem sound_empty : Sound empty where
  blocked := fun _ _ hn => absurd hn (Nat.not_lt_zero _)
  taken := fun h => by simp [get?, empty] at h
  injective := fun h => by simp [get?, empty] at h

/-- What is not free stays so when more names are declared. -/
theorem Sound.reserve {names : Naming} (h : names.Sound) (plains : List String) :
    (names.reserve plains).Sound where
  blocked := fun plain n hn hf =>
    h.blocked plain n hn
      ⟨hf.1.imp id fun hnot hm => hnot (List.mem_append_right plains hm), hf.2⟩
  taken := h.taken
  injective := h.injective

/-- What is not free stays so when a name is handed out, which then is not free either. -/
theorem Sound.assign {names : Naming} (h : names.Sound) (id : Nat) (plain : String) :
    (names.assign id plain).2.Sound := by
  cases hget : names.get? id with
  | some name => rw [assign_of_get? hget]; exact h
  | none =>
    obtain ⟨⟨-, hfresh⟩, hleast⟩ := h.isLeast_number plain
    have hname := get?_assign names id plain
    rw [assign_of_get?_eq_none hget] at hname ⊢
    refine ⟨fun p n hn => ?_, fun {id' name} h' => ?_, fun {id₁ id₂ name} h₁ h₂ => ?_⟩
    · by_cases hp : p = plain
      · subst hp
        simp only [nextOf, List.lookup_cons_self, Option.getD_some] at hn
        rintro ⟨hres, htak⟩
        rw [List.mem_cons, not_or] at htak
        have hlt : n ≠ names.number p := fun he => htak.1 (by rw [he])
        have := hleast (show names.IsFree p n from ⟨hres, htak.2⟩)
        omega
      · simp only [nextOf, List.lookup_cons, beq_eq_false_iff_ne.2 hp] at hn
        exact fun hf =>
          h.blocked p n hn ⟨hf.1, fun hm => hf.2 (List.mem_cons_of_mem _ hm)⟩
    · rw [hname] at h'
      split at h'
      · exact List.mem_cons.2 (Or.inl (Option.some.inj h').symm)
      · exact List.mem_cons_of_mem _ (h.taken h')
    · rw [hname] at h₁ h₂
      split at h₁ <;> split at h₂
      · next e₁ e₂ => rw [e₁, e₂]
      · exact absurd (h.taken (h₁ ▸ h₂)) hfresh
      · exact absurd (h.taken (h₂ ▸ h₁)) hfresh
      · exact h.injective h₁ h₂

theorem Sound.assignFrom (plains : List String) : ∀ {names : Naming} {id : Nat}, names.Sound →
    (names.assignFrom id plains).2.Sound := by
  induction plains with
  | nil => intro names id h; exact h
  | cons plain rest ih => intro names id h; exact ih (h.assign id plain)

/-- The states of runs. -/
inductive Reachable : Naming → Prop where
  | empty : Reachable empty
  | assign {names : Naming} (h : Reachable names) (id : Nat) (plain : String) :
      Reachable (names.assign id plain).2
  | assignAll {names : Naming} (h : Reachable names) (plains : List String) :
      Reachable (names.assignAll plains).2

theorem Reachable.sound {names : Naming} (h : names.Reachable) : names.Sound := by
  induction h with
  | empty => exact sound_empty
  | assign _ id plain ih => exact ih.assign id plain
  | assignAll _ plains ih => exact (ih.reserve plains).assignFrom plains

/-! ## Surfaces -/

theorem get?_assignFrom_of_lt (plains : List String) : ∀ {names : Naming} {id id' : Nat}, id' < id →
    (names.assignFrom id plains).2.get? id' = names.get? id' := by
  induction plains with
  | nil => intro names id id' _; rfl
  | cons plain rest ih =>
    intro names id id' hlt
    rw [assignFrom]
    exact (ih (by omega)).trans ((get?_assign names id plain id').trans (if_neg (by omega)))

/-- The methods hold the names of the surface, by position. -/
theorem get?_assignFrom (plains : List String) : ∀ {names : Naming} {id i : Nat} {name : String},
    (names.assignFrom id plains).1[i]? = some name →
    (names.assignFrom id plains).2.get? (id + i) = some name := by
  induction plains with
  | nil => intro names id i name h; simp [assignFrom] at h
  | cons plain rest ih =>
    intro names id i name h
    rw [assignFrom] at h ⊢
    cases i with
    | zero =>
      obtain rfl := Option.some.inj h
      have hlt := @get?_assignFrom_of_lt rest (names.assign id plain).2 _ _ (Nat.lt_succ_self id)
      exact hlt.trans ((get?_assign names id plain id).trans (if_pos rfl))
    | succ i =>
      have := ih h
      rwa [Nat.add_right_comm, Nat.add_assoc] at this

theorem Sound.nodup_assignFrom {names : Naming} (h : names.Sound) (id : Nat)
    (plains : List String) : (names.assignFrom id plains).1.Nodup := by
  refine List.nodup_iff_getElem?_ne_getElem?.2 fun i j hij hj he => ?_
  have hname := List.getElem?_eq_getElem hj
  have hi := get?_assignFrom plains (he.trans hname)
  have hj := get?_assignFrom plains hname
  have := (h.assignFrom plains).injective hi hj
  omega

/-- The names of a surface are different ones, whatever was named before. -/
theorem Reachable.nodup_assignAll {names : Naming} (h : names.Reachable) (plains : List String) :
    (names.assignAll plains).1.Nodup :=
  (h.sound.reserve plains).nodup_assignFrom 0 plains

/-! ## Fresh runs -/

/-- The state of a fresh run that has named the methods `done` of a surface by `out`. -/
structure Fresh (plains done out : List String) (names : Naming) : Prop where
  sound : names.Sound
  reserved : names.reserved = plains
  taken : names.taken = out.reverse
  unnamed : ∀ id, done.length ≤ id → names.get? id = none
  /-- Every plain name was handed out bare. -/
  bare : ∀ p ∈ done, p ∈ out
  /-- What was handed out is plain only when it was handed out bare. -/
  declared : ∀ name ∈ out, name ∈ plains → name ∈ done

/-- The name of a method with the plain name `p` in a surface, after those of `done` were
    named by `out`: bare at first, then with the least number whose name is not in use. -/
def Exact (plains done out : List String) (p name : String) : Prop :=
  (p ∉ done → name = p) ∧
    (p ∈ done → ∃ n, IsLeast {n | 1 ≤ n ∧ p ++ Nat.repr n ∉ plains ∧ p ++ Nat.repr n ∉ out} n ∧
      name = p ++ Nat.repr n)

namespace Fresh

variable {plains done out : List String} {names : Naming}

theorem isFree_zero_iff (h : Fresh plains done out names) {p : String} (hp : p ∈ plains) :
    names.IsFree p 0 ↔ p ∉ done := by
  simp only [IsFree, candidate, true_or, true_and, h.taken, List.mem_reverse]
  exact not_congr ⟨fun hout => h.declared p hout hp, h.bare p⟩

theorem isFree_succ_iff (h : Fresh plains done out names) {p : String} {n : Nat} :
    names.IsFree p (n + 1) ↔
      p ++ Nat.repr (n + 1) ∉ plains ∧ p ++ Nat.repr (n + 1) ∉ out := by
  simp [IsFree, candidate, h.taken, h.reserved]

/-- The next name is the one it has to be. -/
theorem exact_number (h : Fresh plains done out names) {p : String} (hp : p ∈ plains) :
    Exact plains done out p (candidate p (names.number p)) := by
  obtain ⟨hfree, hleast⟩ := h.sound.isLeast_number p
  refine ⟨fun hnew => ?_, fun hold => ?_⟩
  · have hzero : names.number p ≤ 0 := hleast ((h.isFree_zero_iff hp).2 hnew)
    rw [Nat.le_zero.1 hzero]
    rfl
  · cases hn : names.number p with
    | zero =>
      rw [hn] at hfree
      exact absurd hold ((h.isFree_zero_iff hp).1 hfree)
    | succ n =>
      rw [hn] at hfree hleast
      refine ⟨n + 1, ⟨⟨by omega, h.isFree_succ_iff.1 hfree⟩, ?_⟩, rfl⟩
      rintro m ⟨hm, hfreem⟩
      cases m with
      | zero => omega
      | succ m => exact hleast (h.isFree_succ_iff.2 hfreem)

theorem assign (h : Fresh plains done out names) {p : String} (hp : p ∈ plains) :
    Fresh plains (done ++ [p]) (out ++ [(names.assign done.length p).1])
        (names.assign done.length p).2 ∧
      Exact plains done out p (names.assign done.length p).1 := by
  have hnone := h.unnamed done.length (Nat.le_refl _)
  have hexact := h.exact_number hp
  have hsound := h.sound.assign done.length p
  have hget := get?_assign names done.length p
  rw [assign_of_get?_eq_none hnone] at hsound hget ⊢
  refine ⟨⟨hsound, h.reserved, ?_, fun id hid => ?_, ?_, ?_⟩, hexact⟩
  · simp [h.taken]
  · rw [List.length_append, List.length_singleton] at hid
    rw [hget, if_neg (by omega)]
    exact h.unnamed id (by omega)
  · intro q hq
    rcases List.mem_append.1 hq with hq | hq
    · exact List.mem_append_left _ (h.bare q hq)
    · obtain rfl := List.mem_singleton.1 hq
      by_cases hold : q ∈ done
      · exact List.mem_append_left _ (h.bare q hold)
      · exact List.mem_append_right _ (List.mem_singleton.2 (hexact.1 hold).symm)
  · intro name hname hplain
    rcases List.mem_append.1 hname with hname | hname
    · exact List.mem_append_left _ (h.declared name hname hplain)
    · have hlast := List.mem_singleton.1 hname
      by_cases hold : p ∈ done
      · obtain ⟨n, ⟨⟨-, hnot, -⟩, -⟩, he⟩ := hexact.2 hold
        rw [hlast, he] at hplain
        exact absurd hplain hnot
      · rw [hlast, hexact.1 hold]
        exact List.mem_append_right _ List.mem_cons_self

/-- Every name of the rest of a surface is the one it has to be. -/
theorem exact_assignFrom {rest : List String} : ∀ {done out : List String} {names : Naming},
    Fresh plains done out names → (∀ p ∈ rest, p ∈ plains) →
    ∀ {i : Nat} {p : String}, rest[i]? = some p →
      ∃ name, (names.assignFrom done.length rest).1[i]? = some name ∧
        Exact plains (done ++ rest.take i)
          (out ++ (names.assignFrom done.length rest).1.take i) p name := by
  induction rest with
  | nil => intro done out names h hsub i p hi; simp at hi
  | cons q rest ih =>
    intro done out names h hsub i p hi
    obtain ⟨hnext, hexact⟩ := h.assign (hsub q List.mem_cons_self)
    rw [Naming.assignFrom]
    cases i with
    | zero =>
      obtain rfl := Option.some.inj hi
      exact ⟨(names.assign done.length q).1, rfl, by simpa using hexact⟩
    | succ i =>
      obtain ⟨name, hname, he⟩ := ih hnext (fun p hp => hsub p (List.mem_cons_of_mem _ hp)) hi
      rw [List.length_append, List.length_singleton] at hname he
      refine ⟨name, hname, ?_⟩
      rw [List.append_assoc, List.append_assoc] at he
      exact he

end Fresh

theorem fresh_reserve (plains : List String) : Fresh plains [] [] (empty.reserve plains) where
  sound := sound_empty.reserve plains
  reserved := by simp [reserve, empty]
  taken := rfl
  unnamed := fun _ _ => rfl
  bare := fun _ hp => absurd hp (by simp)
  declared := fun _ hname => absurd hname (by simp)

/-! ## Counters -/

/-- The state without its counters. -/
def forget (names : Naming) : Naming :=
  { names with next := [] }

/-- Names the methods with the numbers from `id` on, and searches anew for each name. -/
def assignAnew (names : Naming) (id : Nat) : List String → List String
  | [] => []
  | plain :: rest =>
    let (name, names) := names.forget.assign id plain
    name :: names.assignAnew (id + 1) rest

theorem Sound.forget {names : Naming} (h : names.Sound) : names.forget.Sound where
  blocked := fun _ _ hn => absurd hn (Nat.not_lt_zero _)
  taken := h.taken
  injective := h.injective

/-- The counters change no name. -/
theorem Sound.number_forget {names : Naming} (h : names.Sound) (plain : String) :
    names.forget.number plain = names.number plain :=
  (h.forget.isLeast_number plain).unique (h.isLeast_number plain)

theorem Sound.forget_assign {names : Naming} (h : names.Sound) (id : Nat) (plain : String) :
    (names.forget.assign id plain).1 = (names.assign id plain).1 ∧
      (names.forget.assign id plain).2.forget = (names.assign id plain).2.forget := by
  cases hget : names.get? id with
  | some name =>
    have hget' : names.forget.get? id = some name := hget
    rw [assign_of_get? hget, assign_of_get? hget']
    exact ⟨rfl, rfl⟩
  | none =>
    have hget' : names.forget.get? id = none := hget
    rw [assign_of_get?_eq_none hget, assign_of_get?_eq_none hget', h.number_forget]
    exact ⟨rfl, rfl⟩

/-- A run that searches anew for each name gives the same names. -/
theorem Sound.assignAnew_eq (plains : List String) : ∀ {names names' : Naming} {id : Nat},
    names.Sound → names'.Sound → names.forget = names'.forget →
    names'.assignAnew id plains = (names.assignFrom id plains).1 := by
  induction plains with
  | nil => intro names names' id _ _ _; rfl
  | cons plain rest ih =>
    intro names names' id h h' he
    obtain ⟨hname, hstate⟩ := h.forget_assign id plain
    rw [assignAnew, ← he]
    refine congrArg₂ List.cons hname ?_
    exact ih (h.assign id plain) (h.forget.assign id plain) hstate.symm

/-- On a run that starts fresh the first method of a plain name gets it bare, and each later
    one the least number whose name is neither plain in the surface nor handed out before.
    The names are different ones, and the same without counters. -/
theorem assignAll_exact (signatures : List Signature) :
    let plains := signatures.map Signature.name
    let names := (empty.assignAll plains).1
    names.length = signatures.length ∧
      (∀ i p, plains[i]? = some p → ∃ name, names[i]? = some name ∧
        Exact plains (plains.take i) (names.take i) p name) ∧
      names.Nodup ∧ names = (empty.reserve plains).assignAnew 0 plains := by
  intro plains names
  refine ⟨?_, fun i p hi => ?_, Reachable.empty.nodup_assignAll plains, ?_⟩
  · exact (length_assignFrom plains _ 0).trans (List.length_map _)
  · exact (fresh_reserve plains).exact_assignFrom (fun _ hp => hp) hi
  · have hsound := sound_empty.reserve plains
    exact (hsound.assignAnew_eq plains hsound rfl).symm

/-- A number is passed over when its name is plain elsewhere. -/
example : (empty.assignAll ["A1", "A", "A", "A1"]).1 = ["A1", "A", "A2", "A11"] := by decide

end ImportBinding.Naming
