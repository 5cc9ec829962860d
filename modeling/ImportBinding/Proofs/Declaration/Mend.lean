/-
  ImportBinding — documents mended at some targets.

  A selection says at which pointers a record is mended: its mark is set, or its body is
  cleared.  It is taken relative to the record, so what is inside is mended by what the
  selection says there.

  * `Document.mend` mends a document at a selection;
  * `mapIdx_insert`: one more target changes one item of one list;
  * `Document.mend_eq_repair`: mended at its targets a document is repaired;
  * `Document.sites_mend` and `Site.mem_targets_mend_iff`: the sites of a mended document, and
    the targets that are left there.
-/
import ImportBinding.Proofs.Declaration.Target

namespace ImportBinding

/-! ## Selections -/

/-- The pointers, from a record, at which it is mended. -/
abbrev Selection := Json.Pointer → Bool

namespace Selection

/-- What a selection says about the `i`-th item of the list `key`. -/
def inside (S : Selection) (key : String) (i : Nat) : Selection := fun p =>
  S (key :: Nat.repr i :: p)

/-- A selection and one more pointer. -/
def insert (S : Selection) (T : Json.Pointer) : Selection := fun p =>
  S p || p == T

theorem insert_self (S : Selection) (T : Json.Pointer) : S.insert T T = true := by
  simp [insert]

theorem insert_of_ne {S : Selection} {T p : Json.Pointer} (h : p ≠ T) : S.insert T p = S p := by
  simp [insert, h]

theorem inside_insert_self (S : Selection) (key : String) (i : Nat) (T : Json.Pointer) :
    (S.insert (key :: Nat.repr i :: T)).inside key i = (S.inside key i).insert T := by
  funext p
  simp [inside, insert]

theorem inside_insert_of_ne {S : Selection} {key key' : String} {i j : Nat} {T : Json.Pointer}
    (h : key' ≠ key ∨ j ≠ i) :
    (S.insert (key :: Nat.repr i :: T)).inside key' j = S.inside key' j := by
  funext p
  refine insert_of_ne fun he => ?_
  simp only [List.cons.injEq, Json.repr_inj] at he
  rcases h with h | h
  · exact h he.1
  · exact h he.2.1

/-- The member of a record is not inside a list of it. -/
theorem inside_insert_singleton (S : Selection) (token key : String) (i : Nat) :
    (S.insert [token]).inside key i = S.inside key i := by
  funext p
  exact insert_of_ne (by simp)

end Selection

/-! ## Mending -/

/-- The method mended at a selection. -/
def Method.mend (S : Selection) (m : Method) : Method :=
  { m with
    isPartial := m.isPartial || S ["partial"]
    body := if S ["body"] then none else m.body }

mutual

/-- The container mended at a selection. -/
def Container.mend (S : Selection) : Container → Container
  | ⟨name, isPartial, mark, methods, containers⟩ =>
    { name
      isPartial := isPartial || S ["partial"]
      mark
      methods := methods.mapIdx fun i m => m.mend (S.inside "methods" i)
      containers := mendFrom S 0 containers }

/-- The containers of a record mended at a selection, which have the numbers from `i` on. -/
def mendFrom (S : Selection) (i : Nat) : List Container → List Container
  | [] => []
  | c :: rest => c.mend (S.inside "containers" i) :: mendFrom S (i + 1) rest

end

/-- The document mended at a selection. -/
def Document.mend (S : Selection) (d : Document) : Document :=
  { d with containers := mendFrom S 0 d.containers }

theorem mendFrom_eq_mapIdx {S : Selection} (cs : List Container) : ∀ {i : Nat},
    mendFrom S i cs = cs.mapIdx fun j c => c.mend (S.inside "containers" (i + j)) := by
  induction cs with
  | nil => intro i; rfl
  | cons c rest ih =>
    intro i
    rw [mendFrom, ih, List.mapIdx_cons]
    simp only [Nat.add_zero, Nat.add_assoc, Nat.add_comm 1]

theorem Method.isPartial_mend (S : Selection) (m : Method) :
    (m.mend S).isPartial = (m.isPartial || S ["partial"]) := rfl

theorem Method.body_mend (S : Selection) (m : Method) :
    (m.mend S).body = if S ["body"] then none else m.body := rfl

namespace Container

theorem name_mend (S : Selection) (c : Container) : (c.mend S).name = c.name := by
  cases c
  rw [mend]

theorem isPartial_mend (S : Selection) (c : Container) :
    (c.mend S).isPartial = (c.isPartial || S ["partial"]) := by
  cases c
  rw [mend]

theorem mark_mend (S : Selection) (c : Container) : (c.mend S).mark = c.mark := by
  cases c
  rw [mend]

theorem methods_mend (S : Selection) (c : Container) :
    (c.mend S).methods = c.methods.mapIdx fun i m => m.mend (S.inside "methods" i) := by
  cases c
  rw [mend]

theorem containers_mend (S : Selection) (c : Container) :
    (c.mend S).containers =
      c.containers.mapIdx fun i c => c.mend (S.inside "containers" i) := by
  cases c
  simp only [mend, mendFrom_eq_mapIdx, Nat.zero_add]

end Container

theorem Document.containers_mend (S : Selection) (d : Document) :
    (d.mend S).containers =
      d.containers.mapIdx fun i c => c.mend (S.inside "containers" i) := by
  simp only [Document.mend, mendFrom_eq_mapIdx, Nat.zero_add]

/-! ## One more target -/

/-- One more target inside the `i`-th item of a list changes this item. -/
theorem mapIdx_insert {α : Type} {f : Selection → α → α} {S : Selection} {key : String} {i : Nat}
    {T : Json.Pointer} {as : List α} {a : α} (h : as[i]? = some a) :
    (as.mapIdx fun j a => f ((S.insert (key :: Nat.repr i :: T)).inside key j) a) =
      (as.mapIdx fun j a => f (S.inside key j) a).set i (f ((S.inside key i).insert T) a) := by
  refine List.ext_getElem? fun j => ?_
  rw [List.getElem?_mapIdx, List.getElem?_set]
  by_cases hj : i = j
  · subst hj
    obtain ⟨hlt, -⟩ := List.getElem?_eq_some_iff.1 h
    rw [h, Selection.inside_insert_self, if_pos rfl, if_pos (by simpa using hlt)]
    rfl
  · rw [if_neg hj, List.getElem?_mapIdx, Selection.inside_insert_of_ne (Or.inr (Ne.symm hj))]

/-- One more target inside a list changes no other list. -/
theorem mapIdx_insert_of_ne {α : Type} {f : Selection → α → α} {S : Selection}
    {key key' : String} (h : key' ≠ key) {i : Nat} {T : Json.Pointer} {as : List α} :
    (as.mapIdx fun j a => f ((S.insert (key :: Nat.repr i :: T)).inside key' j) a) =
      as.mapIdx fun j a => f (S.inside key' j) a := by
  simp only [Selection.inside_insert_of_ne (Or.inl h)]

/-! ## No target -/

mutual

theorem Container.mend_empty : (c : Container) → c.mend (fun _ => false) = c
  | ⟨name, isPartial, mark, methods, containers⟩ => by
    have hinside : ∀ key i, Selection.inside (fun _ => false) key i = fun _ => false :=
      fun _ _ => rfl
    have hmethods : (methods.mapIdx fun _ m => m.mend fun _ => false) = methods := by
      simp [Method.mend, List.mapIdx_eq_iff]
    simp only [Container.mend, hinside, hmethods, mendFrom_empty containers, Bool.or_false]

theorem mendFrom_empty {i : Nat} : (cs : List Container) → mendFrom (fun _ => false) i cs = cs
  | [] => rfl
  | c :: rest => by
    rw [mendFrom, mendFrom_empty rest]
    exact congrArg (· :: rest) c.mend_empty

end

/-- A document that is mended nowhere stays as it is. -/
theorem Document.mend_empty (d : Document) : d.mend (fun _ => false) = d := by
  rw [mend, mendFrom_empty]

/-! ## All targets -/

theorem Method.mend_eq_repair {S : Selection} {m : Method}
    (h : ∀ p, S p = true ↔ m.Target p) : m.mend S = m.repair := by
  have hp : (m.isPartial || S ["partial"]) = true := by
    cases hm : m.isPartial with
    | true => rfl
    | false => exact (h _).2 (.notPartial hm)
  have hb : (if S ["body"] then none else m.body) = none := by
    split
    · rfl
    · next hs =>
      cases hm : m.body with
      | none => rfl
      | some b => exact absurd ((h _).2 (.body (by rw [hm]; rfl))) hs
  rw [mend, repair, hp, hb]

/-- What is nowhere a target is not mended. -/
theorem Method.mend_eq_self {S : Selection} {m : Method} (h : ∀ p, S p = false) :
    m.mend S = m := by
  simp [mend, h]

theorem mapIdx_mend_eq_repair {S : Selection} {c : Container}
    (h : ∀ p, S p = true ↔ c.Target p) :
    (c.methods.mapIdx fun i m => m.mend (S.inside "methods" i)) =
      if c.mark.isSome then c.methods.map Method.repair else c.methods := by
  refine List.ext_getElem? fun i => ?_
  rw [List.getElem?_mapIdx]
  cases hi : c.methods[i]? with
  | none => split <;> simp [hi]
  | some m =>
    have htarget : ∀ p, S.inside "methods" i p = true ↔ c.mark.isSome = true ∧ m.Target p :=
      fun p => (h _).trans (Container.target_method_iff hi)
    split
    · next hm =>
      rw [List.getElem?_map, hi, Option.map_some, Option.map_some,
        Method.mend_eq_repair fun p => (htarget p).trans (and_iff_right hm)]
    · next hm =>
      have hnone : ∀ p, S.inside "methods" i p = false := fun p =>
        Bool.eq_false_iff.2 fun hp => hm ((htarget p).1 hp).1
      rw [hi, Option.map_some, Method.mend_eq_self hnone]

mutual

/-- Mended at its targets a container is repaired. -/
theorem Container.mend_eq_repair {S : Selection} : (c : Container) →
    (∀ p, S p = true ↔ c.Target p) → c.mend S = c.repair
  | ⟨name, isPartial, mark, methods, containers⟩, h => by
    have hpartial : (isPartial || S ["partial"]) =
        (isPartial || mark.isSome || anyMark containers) := by
      have htarget := (h _).trans Container.target_partial_iff
      simp only [Container.hasMark] at htarget
      cases isPartial with
      | true => simp
      | false =>
        rw [Bool.eq_iff_iff]
        simpa using htarget
    have hmethods := mapIdx_mend_eq_repair h
    have hcontainers : mendFrom S 0 containers = repairAll containers := by
      refine mendFrom_eq_repairAll containers fun j c' hj p => ?_
      rw [Nat.zero_add]
      exact (h _).trans (Container.target_nested_iff hj)
    rw [Container.mend, Container.repair, hpartial, hmethods, hcontainers]

theorem mendFrom_eq_repairAll {S : Selection} {i : Nat} : (cs : List Container) →
    (∀ j c, cs[j]? = some c → ∀ p, S.inside "containers" (i + j) p = true ↔ c.Target p) →
    mendFrom S i cs = repairAll cs
  | [], _ => rfl
  | c :: rest, h => by
    have hrest : mendFrom S (i + 1) rest = repairAll rest := by
      refine mendFrom_eq_repairAll rest fun j c' hj => ?_
      rw [Nat.add_right_comm, Nat.add_assoc]
      exact h (j + 1) c' hj
    have hc : c.mend (S.inside "containers" i) = c.repair := c.mend_eq_repair (h 0 c rfl)
    rw [mendFrom, repairAll, hc, hrest]

end

/-- Mended at its targets a document is repaired. -/
theorem Document.mend_eq_repair {S : Selection} {d : Document} (h : ∀ p, S p = true ↔ d.Target p) :
    d.mend S = d.repair := by
  have hcontainers : mendFrom S 0 d.containers = repairAll d.containers := by
    refine mendFrom_eq_repairAll d.containers fun j c hj p => ?_
    rw [Nat.zero_add]
    exact (h _).trans (Document.target_nested_iff hj)
  rw [mend, repair, hcontainers]

/-! ## Sites -/

/-- What a selection says about what is below a pointer. -/
def Selection.below (S : Selection) (p : Json.Pointer) : Selection := fun q =>
  S (p ++ q)

theorem Selection.inside_below (S : Selection) (p : Json.Pointer) (key : String) (i : Nat) :
    (S.below p).inside key i = S.below (childPointer p key i) := by
  funext q
  simp [inside, below, childPointer]

def Place.mend (S : Selection) (a : Place) : Place :=
  { a with container := a.container.mend (S.below a.pointer) }

/-- The site mended at a selection of the document. -/
def Site.mend (S : Selection) (s : Site) : Site :=
  { s with
    container := s.container.mend (S.below s.pointer)
    around := s.around.map (Place.mend S) }

theorem Container.site?_mend {S : Selection} {p : Json.Pointer} {around : List Place}
    (c : Container) : (c.mend (S.below p)).site? p (around.map (Place.mend S)) =
      (c.site? p around).map (Site.mend S) := by
  rw [site?, site?, mark_mend]
  cases c.mark <;> rfl

mutual

theorem Container.sites_mend (S : Selection) (p : Json.Pointer) (around : List Place) :
    (c : Container) → (c.mend (S.below p)).sites p (around.map (Place.mend S)) =
      (c.sites p around).map (Site.mend S)
  | ⟨name, isPartial, mark, methods, containers⟩ => by
    have hnested := sitesFrom_mend S p
      (around ++ [⟨⟨name, isPartial, mark, methods, containers⟩, p⟩]) 0 containers
    rw [List.map_append, List.map_singleton, mendFrom_eq_mapIdx] at hnested
    simp only [Nat.zero_add] at hnested
    rw [Container.sites_eq, Container.sites_eq, List.map_append, Container.site?_mend,
      Container.containers_mend, ← hnested]
    rfl

theorem sitesFrom_mend (S : Selection) (p : Json.Pointer) (around : List Place) (i : Nat) :
    (cs : List Container) →
    sitesFrom p (around.map (Place.mend S)) i (mendFrom (S.below p) i cs) =
      (sitesFrom p around i cs).map (Site.mend S)
  | [] => rfl
  | c :: rest => by
    rw [mendFrom, sitesFrom, sitesFrom, List.map_append, sitesFrom_mend S p around (i + 1) rest,
      Selection.inside_below, Container.sites_mend S (childPointer p "containers" i) around c]

end

/-- The sites of a mended document are those of the document, mended. -/
theorem Document.sites_mend (S : Selection) (d : Document) :
    (d.mend S).sites = d.sites.map (Site.mend S) :=
  sitesFrom_mend S [] [] 0 d.containers

theorem Method.target_mend_iff {S : Selection} {m : Method} {q : Json.Pointer} :
    (m.mend S).Target q ↔ m.Target q ∧ S q = false := by
  constructor
  · intro h
    cases h with
    | notPartial hp =>
      rw [isPartial_mend, Bool.or_eq_false_iff] at hp
      exact ⟨.notPartial hp.1, hp.2⟩
    | body hb =>
      rw [body_mend] at hb
      split at hb
      · cases hb
      · next hs => exact ⟨.body hb, by simpa using hs⟩
  · rintro ⟨h, hs⟩
    cases h with
    | notPartial hp => exact .notPartial (by rw [isPartial_mend, hp, hs]; rfl)
    | body hb => exact .body (by rw [body_mend, hs]; exact hb)

/-- The targets of a mended site are those of the site that were not selected. -/
theorem Site.mem_targets_mend_iff {S : Selection} {s : Site} {T : Json.Pointer} :
    T ∈ (s.mend S).flaws.map Flaw.target ↔ T ∈ s.flaws.map Flaw.target ∧ S T = false := by
  rw [mem_flaws_iff, mem_flaws_iff, or_and_right, or_and_right]
  refine or_congr ?_ (or_congr ?_ ?_)
  · simp only [mend, List.mem_map]
    constructor
    · rintro ⟨_, ⟨a, ha, rfl⟩, hp, rfl⟩
      rw [Place.mend, Container.isPartial_mend, Bool.or_eq_false_iff] at hp
      exact ⟨⟨a, ha, hp.1, rfl⟩, hp.2⟩
    · rintro ⟨⟨a, ha, hp, rfl⟩, hs⟩
      refine ⟨_, ⟨a, ha, rfl⟩, ?_, rfl⟩
      rw [Place.mend, Container.isPartial_mend, hp]
      exact hs
  · rw [mend, Container.isPartial_mend, Bool.or_eq_false_iff]
    constructor
    · rintro ⟨⟨hp, hs⟩, rfl⟩; exact ⟨⟨hp, rfl⟩, hs⟩
    · rintro ⟨⟨hp, rfl⟩, hs⟩; exact ⟨⟨hp, hs⟩, rfl⟩
  · simp only [mend, Container.methods_mend, List.getElem?_mapIdx, Option.map_eq_some_iff]
    constructor
    · rintro ⟨i, _, q, ⟨m, hi, rfl⟩, hq, rfl⟩
      obtain ⟨hq, hs⟩ := Method.target_mend_iff.1 hq
      exact ⟨⟨i, m, q, hi, hq, rfl⟩, hs⟩
    · rintro ⟨⟨i, m, q, hi, hq, rfl⟩, hs⟩
      exact ⟨i, _, q, ⟨m, hi, rfl⟩, Method.target_mend_iff.2 ⟨hq, hs⟩, rfl⟩

end ImportBinding
