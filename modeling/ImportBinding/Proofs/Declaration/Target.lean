/-
  ImportBinding — what the quickfixes of a document edit.

  An operation of a quickfix edits one member of one record, at its target.  A site offers
  the targets of the containers around it too, so one target may be offered many times, but
  a body only once.

  * `Document.Target` are the targets by the structure of a document;
  * `Document.mem_targets_iff`: they are the targets of the flaws of its sites;
  * `Document.nodup_bodies`: the targets that are bodies are different ones;
  * `Document.not_target_repair`: a repaired document has none.
-/
import ImportBinding.Conformance
import ImportBinding.Proofs.Json.Index
import Mathlib.Data.List.Nodup

namespace ImportBinding

/-! ## Targets of flaws -/

/-- The pointer that the operation of a flaw edits. -/
def Flaw.target : Flaw → Json.Pointer
  | around place | container place => place.pointer ++ ["partial"]
  | method _ p => p ++ ["partial"]
  | body _ p => p ++ ["body"]

/-- The targets of the flaws of some sites. -/
def flawTargets (sites : List Site) : List Json.Pointer :=
  sites.flatMap fun s => s.flaws.map Flaw.target

/-- The target of a method: its mark when it is not partial, its body when it has one. -/
inductive Method.Target (m : Method) : Json.Pointer → Prop where
  | notPartial (h : m.isPartial = false) : Target m ["partial"]
  | body (h : m.body.isSome = true) : Target m ["body"]

theorem Method.exists_target_iff {m : Method} :
    (∃ q, m.Target q) ↔ m.isPartial = false ∨ m.body.isSome = true := by
  constructor
  · rintro ⟨_, h⟩
    cases h with
    | notPartial hp => exact Or.inl hp
    | body hb => exact Or.inr hb
  · rintro (hp | hb)
    · exact ⟨_, .notPartial hp⟩
    · exact ⟨_, .body hb⟩

/-- The targets in a container, as pointers from it: the container itself when a mark in it
    or below asks for it, the methods when it is marked, and the targets below. -/
inductive Container.Target : Container → Json.Pointer → Prop where
  | notPartial {c : Container} (hm : c.hasMark = true) (hp : c.isPartial = false) :
      Target c ["partial"]
  | method {c : Container} {i : Nat} {m : Method} {p : Json.Pointer} (hm : c.mark.isSome = true)
      (hi : c.methods[i]? = some m) (h : m.Target p) :
      Target c ("methods" :: Nat.repr i :: p)
  | nested {c c' : Container} {i : Nat} {p : Json.Pointer} (hi : c.containers[i]? = some c')
      (h : Target c' p) : Target c ("containers" :: Nat.repr i :: p)

/-- The targets in a document. -/
inductive Document.Target (d : Document) : Json.Pointer → Prop where
  | nested {c : Container} {i : Nat} {p : Json.Pointer} (hi : d.containers[i]? = some c)
      (h : c.Target p) : Target d ("containers" :: Nat.repr i :: p)

namespace Container

theorem target_partial_iff {c : Container} :
    c.Target ["partial"] ↔ c.hasMark = true ∧ c.isPartial = false := by
  constructor
  · generalize hT : ["partial"] = T
    intro h
    cases h with
    | notPartial hm hp => exact ⟨hm, hp⟩
    | method => simp at hT
    | nested => simp at hT
  · rintro ⟨hm, hp⟩
    exact .notPartial hm hp

theorem target_method_iff {c : Container} {i : Nat} {m : Method} {p : Json.Pointer}
    (hi : c.methods[i]? = some m) :
    c.Target ("methods" :: Nat.repr i :: p) ↔ c.mark.isSome = true ∧ m.Target p := by
  constructor
  · generalize hT : "methods" :: Nat.repr i :: p = T
    intro h
    cases h with
    | notPartial => simp at hT
    | method hm hj h =>
      simp only [List.cons.injEq, Json.repr_inj, true_and] at hT
      obtain ⟨rfl, rfl⟩ := hT
      obtain rfl := Option.some.inj (hi.symm.trans hj)
      exact ⟨hm, h⟩
    | nested => simp at hT
  · rintro ⟨hm, h⟩
    exact .method hm hi h

theorem target_nested_iff {c c' : Container} {i : Nat} {p : Json.Pointer}
    (hi : c.containers[i]? = some c') :
    c.Target ("containers" :: Nat.repr i :: p) ↔ c'.Target p := by
  constructor
  · generalize hT : "containers" :: Nat.repr i :: p = T
    intro h
    cases h with
    | notPartial => simp at hT
    | method => simp at hT
    | nested hj h =>
      simp only [List.cons.injEq, Json.repr_inj, true_and] at hT
      obtain ⟨rfl, rfl⟩ := hT
      obtain rfl := Option.some.inj (hi.symm.trans hj)
      exact h
  · exact .nested hi

end Container

theorem Document.target_nested_iff {d : Document} {c : Container} {i : Nat} {p : Json.Pointer}
    (hi : d.containers[i]? = some c) :
    d.Target ("containers" :: Nat.repr i :: p) ↔ c.Target p := by
  constructor
  · generalize hT : "containers" :: Nat.repr i :: p = T
    rintro ⟨hj, h⟩
    simp only [List.cons.injEq, Json.repr_inj, true_and] at hT
    obtain ⟨rfl, rfl⟩ := hT
    obtain rfl := Option.some.inj (hi.symm.trans hj)
    exact h
  · exact .nested hi

theorem mem_methodFlaws_iff {T p : Json.Pointer} {ms : List Method} : ∀ {i : Nat},
    T ∈ (methodFlaws p i ms).map Flaw.target ↔
      ∃ j m q, ms[j]? = some m ∧ m.Target q ∧ T = p ++ "methods" :: Nat.repr (i + j) :: q := by
  induction ms with
  | nil => simp [methodFlaws]
  | cons m rest ih =>
    intro i
    have hown : T ∈ (m.flaws (childPointer p "methods" i)).map Flaw.target ↔
        ∃ q, m.Target q ∧ T = p ++ "methods" :: Nat.repr i :: q := by
      constructor
      · intro h
        obtain ⟨f, hf, rfl⟩ := List.mem_map.1 h
        rcases List.mem_append.1 hf with hf | hf
        · split at hf
          · exact absurd hf (by simp)
          · next hp =>
            obtain rfl := List.mem_singleton.1 hf
            refine ⟨["partial"], .notPartial (by simpa using hp), ?_⟩
            simp [Flaw.target, childPointer]
        · split at hf
          · exact absurd hf (by simp)
          · next hb =>
            obtain rfl := List.mem_singleton.1 hf
            exact ⟨["body"], .body (by simpa [Option.isSome_iff_ne_none] using hb),
              by simp [Flaw.target, childPointer]⟩
      · rintro ⟨q, hq, rfl⟩
        cases hq with
        | notPartial hp => simp [Method.flaws, hp, Flaw.target, childPointer]
        | body hb =>
          have hn : m.body.isNone = false := by cases hm : m.body <;> simp [hm] at hb ⊢
          simp [Method.flaws, hn, Flaw.target, childPointer]
    rw [methodFlaws, List.map_append, List.mem_append, hown, ih]
    constructor
    · rintro (⟨q, hq, rfl⟩ | ⟨j, m', q, hj, hq, rfl⟩)
      · exact ⟨0, m, q, rfl, hq, rfl⟩
      · exact ⟨j + 1, m', q, hj, hq, by rw [Nat.add_right_comm, Nat.add_assoc]⟩
    · rintro ⟨j, m', q, hj, hq, rfl⟩
      cases j with
      | zero =>
        obtain rfl := Option.some.inj hj
        exact Or.inl ⟨q, hq, rfl⟩
      | succ j => exact Or.inr ⟨j, m', q, hj, hq, by rw [Nat.add_right_comm, Nat.add_assoc]⟩

/-- The targets of a marked container: those around it, its own, those of its methods. -/
theorem mem_flaws_iff {T : Json.Pointer} {s : Site} :
    T ∈ s.flaws.map Flaw.target ↔
      (∃ a ∈ s.around, a.container.isPartial = false ∧ T = a.pointer ++ ["partial"]) ∨
      (s.container.isPartial = false ∧ T = s.pointer ++ ["partial"]) ∨
      ∃ i m q, s.container.methods[i]? = some m ∧ m.Target q ∧
        T = s.pointer ++ "methods" :: Nat.repr i :: q := by
  have hmethods : T ∈ (methodFlaws s.pointer 0 s.container.methods).map Flaw.target ↔ _ :=
    mem_methodFlaws_iff
  simp only [Nat.zero_add] at hmethods
  rw [Site.flaws, List.map_append, List.map_append, List.mem_append, List.mem_append, hmethods,
    or_assoc]
  refine or_congr ?_ (or_congr ?_ Iff.rfl)
  · simp only [List.map_map, List.mem_map, List.mem_filter, Bool.not_eq_true']
    constructor
    · rintro ⟨a, ⟨ha, hp⟩, rfl⟩; exact ⟨a, ha, hp, rfl⟩
    · rintro ⟨a, ha, hp, rfl⟩; exact ⟨a, ⟨ha, hp⟩, rfl⟩
  · cases hp : s.container.isPartial <;> simp [Flaw.target]

theorem flawTargets_append {ss ss' : List Site} :
    flawTargets (ss ++ ss') = flawTargets ss ++ flawTargets ss' :=
  List.flatMap_append

/-- The site of a container itself. -/
def Container.site? (p : Json.Pointer) (around : List Place) (c : Container) : List Site :=
  match c.mark with
  | some mark => [⟨c, mark, p, around⟩]
  | none => []

theorem Container.sites_eq (p : Json.Pointer) (around : List Place) (c : Container) :
    c.sites p around = c.site? p around ++ sitesFrom p (around ++ [⟨c, p⟩]) 0 c.containers := by
  cases c
  rw [Container.sites.eq_def]
  rfl

theorem Container.hasMark_eq (c : Container) :
    c.hasMark = (c.mark.isSome || anyMark c.containers) := by
  cases c
  rw [Container.hasMark]

theorem mem_site?_iff {T p : Json.Pointer} {around : List Place} {c : Container} :
    T ∈ flawTargets (c.site? p around) ↔ c.mark.isSome = true ∧
      ((∃ a ∈ around, a.container.isPartial = false ∧ T = a.pointer ++ ["partial"]) ∨
      (c.isPartial = false ∧ T = p ++ ["partial"]) ∨
      ∃ i m q, c.methods[i]? = some m ∧ m.Target q ∧ T = p ++ "methods" :: Nat.repr i :: q) := by
  unfold Container.site?
  cases c.mark with
  | none => simp [flawTargets]
  | some mark =>
    rw [flawTargets, List.flatMap_singleton, mem_flaws_iff]
    simp

/-- The targets that the sites in a container offer, once those of the sites below it are
    known. -/
theorem mem_sites_of_nested {T p : Json.Pointer} {around : List Place} {c : Container}
    (hnested : T ∈ flawTargets (sitesFrom p (around ++ [⟨c, p⟩]) 0 c.containers) ↔
      (anyMark c.containers = true ∧
        ∃ a ∈ around ++ [⟨c, p⟩], a.container.isPartial = false ∧ T = a.pointer ++ ["partial"]) ∨
      ∃ j c' q, c.containers[j]? = some c' ∧ c'.Target q ∧
        T = p ++ "containers" :: Nat.repr (0 + j) :: q) :
    T ∈ flawTargets (c.sites p around) ↔
      (c.hasMark = true ∧
        ∃ a ∈ around, a.container.isPartial = false ∧ T = a.pointer ++ ["partial"]) ∨
      ∃ q, c.Target q ∧ T = p ++ q := by
  rw [c.sites_eq, flawTargets_append, List.mem_append, hnested, mem_site?_iff, c.hasMark_eq,
    Bool.or_eq_true]
  constructor
  · rintro (⟨hm, ha | ⟨hp, rfl⟩ | ⟨i, m, q, hi, hq, rfl⟩⟩ | ⟨hm, a, ha, hp, rfl⟩ |
      ⟨j, c', q, hj, hq, rfl⟩)
    · exact Or.inl ⟨Or.inl hm, ha⟩
    · exact Or.inr ⟨_, .notPartial (by rw [c.hasMark_eq, hm, Bool.true_or]) hp, rfl⟩
    · exact Or.inr ⟨_, .method hm hi hq, rfl⟩
    · rcases List.mem_append.1 ha with ha | ha
      · exact Or.inl ⟨Or.inr hm, a, ha, hp, rfl⟩
      · obtain rfl := List.mem_singleton.1 ha
        exact Or.inr ⟨_, .notPartial (by rw [c.hasMark_eq, hm, Bool.or_true]) hp, rfl⟩
    · exact Or.inr ⟨_, .nested hj hq, by rw [Nat.zero_add]⟩
  · rintro (⟨hm | hm, a, ha, hp, rfl⟩ | ⟨q, hq, rfl⟩)
    · exact Or.inl ⟨hm, Or.inl ⟨a, ha, hp, rfl⟩⟩
    · exact Or.inr (Or.inl ⟨hm, a, List.mem_append_left _ ha, hp, rfl⟩)
    · cases hq with
      | notPartial hm hp =>
        rw [c.hasMark_eq, Bool.or_eq_true] at hm
        rcases hm with hm | hm
        · exact Or.inl ⟨hm, Or.inr (Or.inl ⟨hp, rfl⟩)⟩
        · exact Or.inr (Or.inl ⟨hm, ⟨c, p⟩, by simp, hp, rfl⟩)
      | method hm hi hq => exact Or.inl ⟨hm, Or.inr (Or.inr ⟨_, _, _, hi, hq, rfl⟩)⟩
      | nested hi hq => exact Or.inr (Or.inr ⟨_, _, _, hi, hq, by rw [Nat.zero_add]⟩)

mutual

/-- The targets that the sites in a container offer. -/
theorem mem_sites_iff {T p : Json.Pointer} {around : List Place} : (c : Container) →
    (T ∈ flawTargets (c.sites p around) ↔
      (c.hasMark = true ∧
        ∃ a ∈ around, a.container.isPartial = false ∧ T = a.pointer ++ ["partial"]) ∨
      ∃ q, c.Target q ∧ T = p ++ q)
  | ⟨_, _, _, _, containers⟩ => mem_sites_of_nested (mem_sitesFrom_iff containers)

theorem mem_sitesFrom_iff {T p : Json.Pointer} {around : List Place} {i : Nat} :
    (cs : List Container) →
    (T ∈ flawTargets (sitesFrom p around i cs) ↔
      (anyMark cs = true ∧
        ∃ a ∈ around, a.container.isPartial = false ∧ T = a.pointer ++ ["partial"]) ∨
      ∃ j c q, cs[j]? = some c ∧ c.Target q ∧ T = p ++ "containers" :: Nat.repr (i + j) :: q)
  | [] => by simp [sitesFrom, flawTargets, anyMark]
  | c :: rest => by
    rw [sitesFrom, flawTargets_append, List.mem_append, mem_sites_iff c,
      mem_sitesFrom_iff rest, anyMark, Bool.or_eq_true]
    constructor
    · rintro ((⟨hm, ha⟩ | ⟨q, hq, rfl⟩) | ⟨hm, ha⟩ | ⟨j, c', q, hj, hq, rfl⟩)
      · exact Or.inl ⟨Or.inl hm, ha⟩
      · exact Or.inr ⟨0, c, q, rfl, hq, by simp [childPointer]⟩
      · exact Or.inl ⟨Or.inr hm, ha⟩
      · exact Or.inr ⟨j + 1, c', q, hj, hq, by rw [Nat.add_right_comm, Nat.add_assoc]⟩
    · rintro (⟨hm | hm, ha⟩ | ⟨j, c', q, hj, hq, rfl⟩)
      · exact Or.inl (Or.inl ⟨hm, ha⟩)
      · exact Or.inr (Or.inl ⟨hm, ha⟩)
      · cases j with
        | zero =>
          obtain rfl := Option.some.inj hj
          exact Or.inl (Or.inr ⟨q, hq, by simp [childPointer]⟩)
        | succ j =>
          exact Or.inr (Or.inr ⟨j, c', q, hj, hq, by rw [Nat.add_right_comm, Nat.add_assoc]⟩)

end

/-- The targets of a document are those of the flaws of its sites. -/
theorem Document.mem_targets_iff {d : Document} {T : Json.Pointer} :
    T ∈ flawTargets d.sites ↔ d.Target T := by
  rw [Document.sites, mem_sitesFrom_iff]
  constructor
  · rintro (⟨-, a, ha, -⟩ | ⟨j, c, q, hj, hq, rfl⟩)
    · exact absurd ha (by simp)
    · rw [Nat.zero_add]
      exact .nested hj hq
  · rintro ⟨hi, hq⟩
    exact Or.inr ⟨_, _, _, hi, hq, by rw [Nat.zero_add]; rfl⟩

/-! ## Bodies -/

/-- Whether a pointer leads to a body. -/
def Json.Pointer.isBody (p : Json.Pointer) : Bool :=
  p.getLast? == some "body"

theorem Json.Pointer.isBody_append {p q : Json.Pointer} (hq : q ≠ []) :
    isBody (p ++ q) = isBody q := by
  simp [isBody, List.getLast?_append, List.getLast?_eq_some_getLast hq]

mutual

/-- What lies in a container has a pointer that goes on from its own. -/
theorem pointer_of_mem_sites {p : Json.Pointer} {around : List Place} {s : Site} :
    (c : Container) → s ∈ c.sites p around → ∃ q, s.pointer = p ++ q
  | ⟨name, isPartial, mark, methods, containers⟩, h => by
    rw [Container.sites_eq] at h
    rcases List.mem_append.1 h with h | h
    · refine ⟨[], ?_⟩
      unfold Container.site? at h
      split at h
      · rw [List.mem_singleton.1 h, List.append_nil]
      · exact absurd h (by simp)
    · obtain ⟨j, q, -, hq⟩ := pointer_of_mem_sitesFrom containers h
      exact ⟨_, hq⟩

theorem pointer_of_mem_sitesFrom {p : Json.Pointer} {around : List Place} {s : Site} {i : Nat} :
    (cs : List Container) → s ∈ sitesFrom p around i cs →
      ∃ j q, i ≤ j ∧ s.pointer = p ++ "containers" :: Nat.repr j :: q
  | [], h => absurd h (by simp [sitesFrom])
  | c :: rest, h => by
    rw [sitesFrom] at h
    rcases List.mem_append.1 h with h | h
    · obtain ⟨q, hq⟩ := pointer_of_mem_sites c h
      exact ⟨i, q, Nat.le_refl i, by rw [hq]; simp [childPointer]⟩
    · obtain ⟨j, q, hj, hq⟩ := pointer_of_mem_sitesFrom rest h
      exact ⟨j, q, by omega, hq⟩

end

mutual

/-- Different sites have different pointers. -/
theorem pairwise_sites {p : Json.Pointer} {around : List Place} : (c : Container) →
    (c.sites p around).Pairwise fun s s' => s.pointer ≠ s'.pointer
  | ⟨name, isPartial, mark, methods, containers⟩ => by
    rw [Container.sites_eq]
    refine List.pairwise_append.2 ⟨?_, pairwise_sitesFrom containers, ?_⟩
    · unfold Container.site?
      split <;> simp
    · intro s hs s' hs' he
      obtain ⟨j, q, -, hq⟩ := pointer_of_mem_sitesFrom containers hs'
      unfold Container.site? at hs
      split at hs
      · rw [List.mem_singleton.1 hs, hq] at he
        simp at he
      · exact absurd hs (by simp)

theorem pairwise_sitesFrom {p : Json.Pointer} {around : List Place} {i : Nat} :
    (cs : List Container) →
      (sitesFrom p around i cs).Pairwise fun s s' => s.pointer ≠ s'.pointer
  | [] => by simp [sitesFrom]
  | c :: rest => by
    rw [sitesFrom]
    refine List.pairwise_append.2 ⟨pairwise_sites c, pairwise_sitesFrom rest, ?_⟩
    intro s hs s' hs' he
    obtain ⟨q, hq⟩ := pointer_of_mem_sites c hs
    obtain ⟨j, q', hj, hq'⟩ := pointer_of_mem_sitesFrom rest hs'
    rw [hq, hq'] at he
    simp only [childPointer, List.append_assoc, List.cons_append, List.nil_append,
      List.append_cancel_left_eq, List.cons.injEq, Json.repr_inj] at he
    omega

end

theorem isBody_partial (p : Json.Pointer) : (p ++ ["partial"]).isBody = false := by
  rw [Json.Pointer.isBody_append (by simp)]; rfl

theorem Method.Target.eq_of_isBody {m : Method} {q : Json.Pointer} (h : m.Target q)
    (hb : q.isBody = true) : q = ["body"] := by
  cases h with
  | notPartial => exact absurd hb (by decide)
  | body => rfl

/-- The targets of methods are different ones. -/
theorem nodup_methodFlaws {p : Json.Pointer} {ms : List Method} : ∀ {i : Nat},
    ((methodFlaws p i ms).map Flaw.target).Nodup := by
  induction ms with
  | nil => simp [methodFlaws]
  | cons m rest ih =>
    intro i
    rw [methodFlaws, List.map_append]
    refine List.nodup_append'.2 ⟨?_, ih, ?_⟩
    · cases hp : m.isPartial <;> cases hb : m.body.isNone <;>
        simp [Method.flaws, hp, hb, Flaw.target]
    · intro T hT hT'
      have hm : T ∈ (methodFlaws p i [m]).map Flaw.target := by
        simpa [methodFlaws] using hT
      obtain ⟨j, m₁, q, hj, -, rfl⟩ := mem_methodFlaws_iff.1 hm
      obtain ⟨j', m₂, q', -, -, he⟩ := mem_methodFlaws_iff.1 hT'
      have hj0 : j = 0 := by
        have := (List.getElem?_eq_some_iff.1 hj).1
        simp only [List.length_cons, List.length_nil] at this
        omega
      simp only [List.append_cancel_left_eq, List.cons.injEq, Json.repr_inj] at he
      omega

theorem nodup_flaws (s : Site) :
    ((s.flaws.map Flaw.target).filter Json.Pointer.isBody).Nodup := by
  have haround : (((s.around.filter (!·.container.isPartial)).map Flaw.around).map
      Flaw.target).filter Json.Pointer.isBody = [] := by
    refine List.filter_eq_nil_iff.2 fun T hT => ?_
    obtain ⟨f, hf, rfl⟩ := List.mem_map.1 hT
    obtain ⟨a, -, rfl⟩ := List.mem_map.1 hf
    simp [Flaw.target, isBody_partial]
  have hown : ((if s.container.isPartial then [] else
      [Flaw.container ⟨s.container, s.pointer⟩]).map Flaw.target).filter Json.Pointer.isBody =
      [] := by
    split <;> simp [Flaw.target, isBody_partial]
  rw [Site.flaws, List.map_append, List.map_append, List.filter_append, List.filter_append,
    haround, hown]
  exact nodup_methodFlaws.filter _

/-- A body of a site has the pointer of one of its methods. -/
theorem eq_of_mem_flaws {s : Site} {T : Json.Pointer} (h : T ∈ s.flaws.map Flaw.target)
    (hb : T.isBody = true) : ∃ i, T = s.pointer ++ ["methods", Nat.repr i, "body"] := by
  rcases mem_flaws_iff.1 h with ⟨a, -, -, rfl⟩ | ⟨-, rfl⟩ | ⟨i, m, q, -, hq, rfl⟩
  · rw [isBody_partial] at hb; cases hb
  · rw [isBody_partial] at hb; cases hb
  · have hq' : Json.Pointer.isBody q = true := by
      rw [show s.pointer ++ "methods" :: Nat.repr i :: q =
        (s.pointer ++ ["methods", Nat.repr i]) ++ q by simp] at hb
      rwa [Json.Pointer.isBody_append (by cases hq <;> simp)] at hb
    exact ⟨i, by rw [hq.eq_of_isBody hq']⟩

/-- No body is offered twice. -/
theorem Document.nodup_bodies (d : Document) :
    ((flawTargets d.sites).filter Json.Pointer.isBody).Nodup := by
  rw [flawTargets, List.filter_flatMap]
  refine List.nodup_flatMap.2 ⟨fun s _ => nodup_flaws s, ?_⟩
  have hsites : d.sites.Pairwise fun s s' => s.pointer ≠ s'.pointer :=
    pairwise_sitesFrom d.containers
  refine hsites.imp ?_
  intro s s' hne T h h'
  obtain ⟨hT, hb⟩ := List.mem_filter.1 h
  obtain ⟨i, rfl⟩ := eq_of_mem_flaws hT hb
  obtain ⟨j, he⟩ := eq_of_mem_flaws (List.mem_filter.1 h').1 hb
  exact hne (List.append_inj_left' he rfl)

/-! ## Repaired documents -/

theorem repairAll_eq_map (cs : List Container) : repairAll cs = cs.map Container.repair := by
  induction cs with
  | nil => rfl
  | cons c rest ih => rw [repairAll, ih]; rfl

mutual

theorem Container.hasMark_repair : (c : Container) → c.repair.hasMark = c.hasMark
  | ⟨_, _, mark, _, containers⟩ => by
    rw [Container.repair, Container.hasMark, Container.hasMark, anyMark_repairAll containers]

theorem anyMark_repairAll : (cs : List Container) → anyMark (repairAll cs) = anyMark cs
  | [] => rfl
  | c :: rest => by
    rw [repairAll, anyMark, anyMark, Container.hasMark_repair c, anyMark_repairAll rest]

end

/-- A repaired container has no targets. -/
theorem Container.not_target_repair {c' : Container} {p : Json.Pointer} (h : c'.Target p) :
    ∀ c : Container, c' ≠ c.repair := by
  induction h with
  | notPartial hm hp =>
    rintro c rfl
    rw [c.hasMark_repair, c.hasMark_eq] at hm
    cases c
    simp only [Container.repair, Bool.or_assoc] at hp hm
    rw [hm, Bool.or_true] at hp
    cases hp
  | method hm hi hq =>
    rintro c rfl
    cases c
    simp only [Container.repair] at hm hi
    rw [if_pos hm, List.getElem?_map] at hi
    obtain ⟨m, -, rfl⟩ := Option.map_eq_some_iff.1 hi
    cases hq with
    | notPartial hp => cases hp
    | body hb => cases hb
  | nested hi _ ih =>
    rintro c rfl
    cases c
    simp only [Container.repair, repairAll_eq_map, List.getElem?_map] at hi
    obtain ⟨c', -, he⟩ := Option.map_eq_some_iff.1 hi
    exact ih c' he.symm

/-- A repaired document has no targets. -/
theorem Document.not_target_repair (d : Document) (p : Json.Pointer) : ¬ d.repair.Target p := by
  rintro ⟨hi, h⟩
  simp only [Document.repair, repairAll_eq_map, List.getElem?_map] at hi
  obtain ⟨c, -, rfl⟩ := Option.map_eq_some_iff.1 hi
  exact Container.not_target_repair h c rfl

end ImportBinding
