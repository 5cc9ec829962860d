/-
  ImportBinding — which surfaces load.

  The state comes from how many slots resolved, and the errors come from looking at the slots
  one by one.  A resolution may tell of fewer slots than there are names, or of more, so it
  takes a count to see that the two agree.

  * `Cell.missing` are the names whose slots did not resolve, by position;
  * `Cell.length_missing`: every name is missing or resolved;
  * `Cell.load_full`, `Cell.load_none`, `Cell.load_partial` and `Cell.load_excess` are a load
    by the count of what resolved, and `Cell.load_policy` is all of them.
-/
import ImportBinding.Binding.Cell

namespace ImportBinding.Binding.Cell

/-! ## Slots that did not resolve -/

/-- The names whose entries in a resolution are false or not there, in their order. -/
def missing (names : List String) (resolution : List Bool) : List String :=
  (names.zipIdx.filter fun (_, i) => resolution[i]? ≠ some true).map Prod.fst

@[simp] theorem missing_nil (resolution : List Bool) : missing [] resolution = [] := rfl

/-- The first name has the first entry, and the other names have the other entries. -/
theorem missing_cons (name : String) (names : List String) (resolution : List Bool) :
    missing (name :: names) resolution =
      (if resolution.head? = some true then [] else [name]) ++ missing names resolution.tail := by
  have hshift : ((names.zipIdx 1).filter fun (_, i) => resolution[i]? ≠ some true).map Prod.fst =
      missing names resolution.tail := by
    rw [List.zipIdx_succ, List.filter_map, List.map_map]
    simp only [missing, List.getElem?_tail]
    rfl
  rw [missing, List.zipIdx_cons, List.filter_cons, List.head?_eq_getElem?, ← hshift]
  by_cases h : resolution[0]? = some true
  · simp [h]
  · simp [h]

/-- The errors of a load are those of the missing names. -/
theorem unresolved_eq (surface : String) (present : Bool) (names : List String) :
    ∀ resolution, unresolved surface present names resolution =
      (missing names resolution).map fun name => .unresolved surface name present := by
  induction names with
  | nil => intro resolution; cases resolution <;> rfl
  | cons name names ih =>
    intro resolution
    rw [missing_cons]
    cases resolution with
    | nil => rw [unresolved, ih]; rfl
    | cons r rs =>
      rw [unresolved, ih]
      cases r <;> rfl

/-! ## Counting -/

theorem resolved_eq_count (resolution : List Bool) : resolved resolution = resolution.count true :=
  List.countP_congr fun b _ => by simp

/-- Every name is missing, or its entry counts. -/
theorem length_missing (names : List String) : ∀ resolution : List Bool,
    (missing names resolution).length + (resolution.take names.length).count true =
      names.length := by
  induction names with
  | nil => intro resolution; rfl
  | cons name names ih =>
    intro resolution
    have hrest := ih resolution.tail
    rw [missing_cons, List.length_append, List.length_cons]
    cases resolution with
    | nil =>
      rw [List.tail_nil, List.take_nil] at hrest ⊢
      rw [List.head?_nil, if_neg nofun, List.length_singleton]
      omega
    | cons r rs =>
      rw [List.take_succ_cons, List.count_cons]
      rw [List.tail_cons] at hrest ⊢
      cases r with
      | true =>
        simp only [List.head?_cons, if_true, List.length_nil, beq_self_eq_true]
        omega
      | false =>
        simp only [List.head?_cons, Option.some.injEq, Bool.false_eq_true, if_false,
          List.length_singleton, beq_iff_eq]
        omega

/-- When less resolved than there are names, one is missing: entries behind the last name can
    only add to the count. -/
theorem missing_ne_nil {names : List String} {resolution : List Bool}
    (h : resolution.count true < names.length) : missing names resolution ≠ [] := by
  intro hnil
  have hlen := length_missing names resolution
  have hle : (resolution.take names.length).count true ≤ resolution.count true :=
    (List.take_sublist _ _).count_le _
  rw [hnil, List.length_nil] at hlen
  omega

theorem length_missing_of_length_eq {names : List String} {resolution : List Bool}
    (h : resolution.length = names.length) :
    (missing names resolution).length = names.length - resolution.count true := by
  have hlen := length_missing names resolution
  rw [← h, List.take_length] at hlen
  omega

/-! ## Loads -/

variable {σ : Type} {t : Table σ} {c : Cell σ}

/-- The number of slots that the table of a cell tells to be resolved. -/
def count (t : Table σ) (c : Cell σ) : Nat :=
  (t.resolution c.slots).count true

theorem derive_eq (t : Table σ) (c : Cell σ) :
    derive t c.slots = .ofCounts (c.count t) t.names.length :=
  congrArg (State.ofCounts · _) (resolved_eq_count _)

/-- The errors of a cell that loads in part or not at all. -/
def missingErrors (t : Table σ) (c : Cell σ) : List CallError :=
  (missing t.names (t.resolution c.slots)).map fun name =>
    .unresolved c.surface.name name (0 < c.count t)

theorem loadError?_eq (t : Table σ) (c : Cell σ) : loadError? t c.surface c.slots =
    match derive t c.slots with
    | .ok => none
    | .failedImport =>
      if c.surface.required then some ⟨c.surface.name, .failedImport, c.missingErrors t⟩ else none
    | .partialImport => some ⟨c.surface.name, .partialImport, c.missingErrors t⟩
    | _ => some ⟨c.surface.name, .unknownFailure,
        [.invariantViolation c.surface.name (c.count t) t.names.length]⟩ := by
  rw [loadError?, unresolved_eq, resolved_eq_count]
  cases derive t c.slots <;> rfl

theorem load_of_none (h : loadError? t c.surface c.slots = none) :
    c.load t = (.ok (), { c with state := derive t c.slots }) := by
  rw [load, h]

theorem load_of_some {e : LoadError} (h : loadError? t c.surface c.slots = some e) :
    c.load t = (.error e, { c with state := derive t c.slots }) := by
  rw [load, h]

/-- A surface loads when every slot resolved, as far as the counts tell. -/
theorem load_full (h : c.count t = t.names.length) :
    c.load t = (.ok (), { c with state := .ok }) := by
  have hstate := (derive_eq t c).trans (State.ofCounts_eq_ok_iff.2 h)
  rw [load_of_none (by rw [loadError?_eq, hstate]), hstate]

/-- When no slot resolved, the policy decides. -/
theorem load_none (h : c.count t = 0) (hlt : 0 < t.names.length) :
    c.load t = (if c.surface.required then
        .error ⟨c.surface.name, .failedImport, c.missingErrors t⟩ else .ok (),
      { c with state := .failedImport }) := by
  have hstate := (derive_eq t c).trans (State.ofCounts_eq_failedImport_iff.2 ⟨h, hlt⟩)
  have herror := loadError?_eq t c
  rw [hstate] at herror
  dsimp only at herror
  split at herror
  · next hrequired => rw [load_of_some herror, hstate, if_pos hrequired]
  · next hrequired => rw [load_of_none herror, hstate, if_neg hrequired]

/-- When some slots resolved and others did not, no policy lets the surface load. -/
theorem load_partial (h : 0 < c.count t) (hlt : c.count t < t.names.length) :
    c.load t = (.error ⟨c.surface.name, .partialImport, c.missingErrors t⟩,
      { c with state := .partialImport }) := by
  have hstate := (derive_eq t c).trans (State.ofCounts_eq_partialImport_iff.2 ⟨h, hlt⟩)
  rw [load_of_some (by rw [loadError?_eq, hstate]), hstate]

/-- More slots than there are names do not resolve. -/
theorem load_excess (h : t.names.length < c.count t) :
    c.load t = (.error ⟨c.surface.name, .unknownFailure,
        [.invariantViolation c.surface.name (c.count t) t.names.length]⟩,
      { c with state := .unknownFailure }) := by
  have hstate := (derive_eq t c).trans (State.ofCounts_eq_unknownFailure_iff.2 h)
  rw [load_of_some (by rw [loadError?_eq, hstate]), hstate]

/-- A load is one of these. -/
theorem load_cases (t : Table σ) (c : Cell σ) :
    c.count t = t.names.length ∨ (c.count t = 0 ∧ 0 < t.names.length) ∨
      (0 < c.count t ∧ c.count t < t.names.length) ∨ t.names.length < c.count t := by
  omega

theorem load_eq_ok_iff : (c.load t).1 = .ok () ↔
    c.count t = t.names.length ∨ (c.count t = 0 ∧ c.surface.required = false) := by
  rcases load_cases t c with h | ⟨h, hlt⟩ | ⟨h, hlt⟩ | h
  · rw [load_full h]
    exact ⟨fun _ => Or.inl h, fun _ => rfl⟩
  · rw [load_none h hlt]
    cases c.surface.required <;> simp [h, Nat.ne_of_lt hlt]
  · rw [load_partial h hlt]
    exact ⟨nofun, fun hor => by rcases hor with he | ⟨he, -⟩ <;> omega⟩
  · rw [load_excess h]
    exact ⟨nofun, fun hor => by rcases hor with he | ⟨he, -⟩ <;> omega⟩

/-- A load that fails for missing slots tells how many resolved, and lists the missing ones. -/
theorem load_eq_error {e : LoadError} (h : (c.load t).1 = .error e)
    (hle : c.count t ≤ t.names.length) :
    c.count t < t.names.length ∧ (c.load t).2.state = e.state ∧
      e = ⟨c.surface.name, if c.count t = 0 then .failedImport else .partialImport,
        c.missingErrors t⟩ := by
  rcases load_cases t c with hcount | ⟨hcount, hlt⟩ | ⟨hcount, hlt⟩ | hcount
  · rw [load_full hcount] at h
    cases h
  · rw [load_none hcount hlt] at h ⊢
    dsimp only at h
    split at h
    · cases h
      exact ⟨hcount ▸ hlt, rfl, by rw [if_pos hcount]⟩
    · cases h
  · rw [load_partial hcount hlt] at h ⊢
    cases h
    exact ⟨hlt, rfl, by rw [if_neg (Nat.ne_of_gt hcount)]⟩
  · omega

/-- A surface loads iff as many slots resolved as there are names, or none did and it is
    optional.  More than that is an error of its own.  Every other failure tells whether the
    surface is absent or present in part, and has one error for each name whose entry is false
    or not there, in the order of the names, and at least one.  When the resolution tells of
    every name and no more, the errors are as many as the slots that did not resolve, a surface
    in the state `ok` has them all, and there is no unknown failure. -/
theorem load_policy (t : Table σ) (c : Cell σ) :
    let resolution := t.resolution c.slots
    let r := resolution.count true
    let e := t.names.length
    ((c.load t).1 = .ok () ↔ r = e ∨ (r = 0 ∧ c.surface.required = false)) ∧
    (e < r → c.load t = (.error ⟨c.surface.name, .unknownFailure,
      [.invariantViolation c.surface.name r e]⟩, { c with state := .unknownFailure })) ∧
    (∀ err, (c.load t).1 = .error err → r ≤ e →
      err.surface = c.surface.name ∧
      err.state = (if r = 0 then .failedImport else .partialImport) ∧
      (c.load t).2.state = err.state ∧
      err.errors ≠ [] ∧
      err.errors = (missing t.names resolution).map
        fun name => .unresolved c.surface.name name (0 < r)) ∧
    (resolution.length = e →
      (∀ err, (c.load t).1 = .error err → err.errors.length = e - r) ∧
      ((c.load t).2.state = .ok → ∀ b ∈ resolution, b = true) ∧
      (c.load t).2.state ≠ .unknownFailure) := by
  intro resolution r e
  refine ⟨load_eq_ok_iff, load_excess, fun err h hle => ?_, fun hlen => ?_⟩
  · obtain ⟨hlt, hstate, rfl⟩ := load_eq_error h hle
    exact ⟨rfl, rfl, hstate, fun hnil => missing_ne_nil hlt (List.map_eq_nil_iff.1 hnil), rfl⟩
  · have hle : r ≤ e := hlen ▸ List.count_le_length
    have hstate : (c.load t).2.state = .ofCounts r e := (load_state t c).trans (derive_eq t c)
    refine ⟨fun err h => ?_, fun hok b hb => ?_, fun hunknown => ?_⟩
    · obtain ⟨-, -, rfl⟩ := load_eq_error h hle
      exact (List.length_map _).trans (length_missing_of_length_eq hlen)
    · have hcount : r = resolution.length :=
        (State.ofCounts_eq_ok_iff.1 (hstate.symm.trans hok)).trans hlen.symm
      exact (List.count_eq_length.1 hcount b hb).symm
    · have hlt := State.ofCounts_eq_unknownFailure_iff.1 (hstate.symm.trans hunknown)
      omega

/-- An entry behind the last name counts, so a wrong resolution may hide that one is missing. -/
example : ((start ⟨"S", true⟩ ()).load ⟨["A"], fun _ => [false, true]⟩).1 = .ok () := rfl

end ImportBinding.Binding.Cell
