/-
  ImportBinding — the state of a cell over whole runs.

  The state of a cell is that of the slots at the last load, which may hold something else
  by now.  So a run is told by what was attached up to that load.

  * `Cell.run` makes calls one after another, and `slotsAfter` is what was attached;
  * `Cell.call_slots` and `Cell.call_state` are what one call keeps, `Cell.run_slots` and
    `Cell.run_state` what a run keeps;
  * `Cell.run_spec` is the state, the slots and the answers of a cell after every run.
-/
import ImportBinding.Binding.Cell

namespace ImportBinding.Binding

/-- A call on a cell. -/
inductive Call (σ : Type) : Type 1 where
  | attach {ρ : Type} (write : σ → ρ × σ)
  | load
  | forward {φ : Type} (method : String) (pick : σ → Option φ)
  | state
  | isImported

/-- What a call answers. -/
inductive Answer : Type 1 where
  | attached {ρ : Type} (r : ρ)
  | loaded (result : Except LoadError Unit)
  | forwarded {φ : Type} (result : Except CallError φ)
  | state (s : State)
  | isImported (b : Bool)

variable {σ : Type}

namespace Call

/-- Whether a call loads. -/
def isLoad : Call σ → Bool
  | load => true
  | _ => false

/-- Whether a call attaches. -/
def isAttach : Call σ → Bool
  | attach _ => true
  | _ => false

end Call

/-- What the slots hold after some calls: what was attached. -/
def slotsAfter (slots : σ) : List (Call σ) → σ
  | [] => slots
  | .attach write :: rest => slotsAfter (write slots).2 rest
  | _ :: rest => slotsAfter slots rest

namespace Cell

/-- Makes a call on a cell. -/
def call (t : Table σ) (c : Cell σ) : Call σ → Answer × Cell σ
  | .attach write =>
    let (r, c) := c.attach write
    (.attached r, c)
  | .load =>
    let (result, c) := c.load t
    (.loaded result, c)
  | .forward method pick => (.forwarded (c.forward method pick), c)
  | .state => (.state c.state, c)
  | .isImported => (.isImported c.isImported, c)

/-- The cell after some calls, made one after another. -/
def run (t : Table σ) (c : Cell σ) (calls : List (Call σ)) : Cell σ :=
  calls.foldl (fun c call => (c.call t call).2) c

theorem run_append (t : Table σ) (c : Cell σ) (before after : List (Call σ)) :
    c.run t (before ++ after) = (c.run t before).run t after :=
  List.foldl_append

/-! ## Steps -/

theorem load_surface (t : Table σ) (c : Cell σ) : (c.load t).2.surface = c.surface := by
  unfold load; split <;> rfl

/-- No call changes the surface of a cell. -/
theorem call_surface (t : Table σ) (c : Cell σ) (call : Call σ) :
    (c.call t call).2.surface = c.surface := by
  cases call with
  | load => exact load_surface t c
  | _ => rfl

/-- Only attaching changes the slots. -/
theorem call_slots (t : Table σ) (c : Cell σ) {call : Call σ} (h : call.isAttach = false) :
    (c.call t call).2.slots = c.slots := by
  cases call with
  | attach => cases h
  | load => exact load_slots t c
  | _ => rfl

/-- Only loading changes the state. -/
theorem call_state (t : Table σ) (c : Cell σ) {call : Call σ} (h : call.isLoad = false) :
    (c.call t call).2.state = c.state := by
  cases call with
  | load => cases h
  | _ => rfl

theorem derive_ne_notImported (t : Table σ) (slots : σ) : derive t slots ≠ .notImported :=
  State.ofCounts_ne_notImported _ _

/-- An error of a load carries the state that the cell then has. -/
theorem state_of_load_error {t : Table σ} {c : Cell σ} {e : LoadError}
    (h : (c.load t).1 = .error e) : e.state = (c.load t).2.state := by
  rw [load_state]
  unfold load at h
  split at h
  · next e' he =>
    cases h
    unfold loadError? at he
    dsimp only at he
    have hne := derive_ne_notImported t c.slots
    cases hs : derive t c.slots with
    | notImported => exact absurd hs hne
    | ok => rw [hs] at he; cases he
    | partialImport => rw [hs] at he; cases he; rfl
    | failedImport =>
      rw [hs] at he
      dsimp only at he
      split at he
      · cases he; rfl
      · cases he
    | unknownFailure => rw [hs] at he; cases he; rfl
  · cases h

/-- Slots that tell of no more than they have names do not go beyond the counts. -/
theorem derive_ne_unknownFailure {t : Table σ} {slots : σ}
    (h : (t.resolution slots).length ≤ t.names.length) : derive t slots ≠ .unknownFailure := by
  intro hstate
  have hlt := State.ofCounts_eq_unknownFailure_iff.1 hstate
  have hle : resolved (t.resolution slots) ≤ (t.resolution slots).length := List.countP_le_length
  omega

/-! ## Calls of methods -/

variable {φ : Type}

/-- A call runs what `pick` finds, in the state `ok` only. -/
theorem forward_eq_ok_iff {c : Cell σ} {method : String} {pick : σ → Option φ} {f : φ} :
    c.forward method pick = .ok f ↔ c.state = .ok ∧ pick c.slots = some f := by
  unfold forward
  cases c.state with
  | ok => cases pick c.slots <;> simp
  | _ => simp

theorem forward_of_notImported {c : Cell σ} (h : c.state = .notImported) (method : String)
    (pick : σ → Option φ) :
    c.forward method pick = .error (.notLoaded c.surface.name method) := by
  rw [forward, h]

theorem forward_of_failedImport {c : Cell σ} (h : c.state = .failedImport) (method : String)
    (pick : σ → Option φ) :
    c.forward method pick = .error (.notImported c.surface.name method) := by
  rw [forward, h]

theorem forward_of_unavailable {c : Cell σ} {method : String} {pick : σ → Option φ}
    (h : c.state = .partialImport ∨ c.state = .unknownFailure ∨
      (c.state = .ok ∧ pick c.slots = none)) :
    c.forward method pick = .error (.unavailable c.surface.name method c.state) := by
  unfold forward
  rcases h with h | h | ⟨h, hp⟩
  · rw [h]
  · rw [h]
  · rw [h, hp]

/-! ## Runs -/

theorem run_surface (t : Table σ) (calls : List (Call σ)) : ∀ c : Cell σ,
    (c.run t calls).surface = c.surface := by
  induction calls with
  | nil => intro c; rfl
  | cons call rest ih => intro c; exact (ih _).trans (call_surface t c call)

/-- A run leaves in the slots what was attached. -/
theorem run_slots (t : Table σ) (calls : List (Call σ)) : ∀ c : Cell σ,
    (c.run t calls).slots = slotsAfter c.slots calls := by
  induction calls with
  | nil => intro c; rfl
  | cons call rest ih =>
    intro c
    refine (ih _).trans ?_
    cases call with
    | attach write => rfl
    | load =>
      rw [call_slots t c rfl]
      rfl
    | _ => rfl

/-- A run without loads leaves the state. -/
theorem run_state {t : Table σ} {calls : List (Call σ)} : ∀ {c : Cell σ},
    (∀ call ∈ calls, call.isLoad = false) → (c.run t calls).state = c.state := by
  induction calls with
  | nil => intro c _; rfl
  | cons call rest ih =>
    intro c h
    exact (ih fun call' hmem => h call' (List.mem_cons_of_mem _ hmem)).trans
      (call_state t c (h call List.mem_cons_self))

/-- After its last load a run is in the state that the slots gave then. -/
theorem run_state_of_load {t : Table σ} {c : Cell σ} {before after : List (Call σ)}
    (h : ∀ call ∈ after, call.isLoad = false) :
    (c.run t (before ++ .load :: after)).state = derive t (slotsAfter c.slots before) := by
  rw [run_append]
  refine (run_state h).trans ?_
  rw [← run_slots t before c]
  exact load_state t (c.run t before)

/-- Among calls that load there is one after which none does. -/
theorem exists_last_load {calls : List (Call σ)} (h : ¬ ∀ call ∈ calls, call.isLoad = false) :
    ∃ before after, calls = before ++ .load :: after ∧ ∀ call ∈ after, call.isLoad = false := by
  induction calls with
  | nil => exact absurd (fun _ hmem => absurd hmem (by simp)) h
  | cons call rest ih =>
    by_cases hrest : ∀ call ∈ rest, call.isLoad = false
    · cases call with
      | load => exact ⟨[], rest, rfl, hrest⟩
      | _ =>
        refine absurd (fun call' hmem => ?_) h
        rcases List.mem_cons.1 hmem with rfl | hmem
        · rfl
        · exact hrest call' hmem
    · obtain ⟨before, after, rfl, hafter⟩ := ih hrest
      exact ⟨call :: before, after, rfl, hafter⟩

/-- Nothing was loaded iff no call of the run loaded. -/
theorem run_state_eq_notImported_iff {t : Table σ} {surface : Surface} {slots : σ}
    {calls : List (Call σ)} : ((start surface slots).run t calls).state = .notImported ↔
      ∀ call ∈ calls, call.isLoad = false := by
  constructor
  · intro hstate
    apply Classical.byContradiction
    intro hload
    obtain ⟨before, after, rfl, hafter⟩ := exists_last_load hload
    rw [run_state_of_load hafter] at hstate
    exact derive_ne_notImported _ _ hstate
  · intro h
    exact run_state h

/-- A cell after every run.  Its slots hold what was attached.  It is not imported iff
    nothing was loaded, and else in the state that the counts gave at the last load.  A call
    of a method runs in the state `ok`, on what its slot holds by now, and else says why not.
    Only attaching changes the slots and only loading the state, and an error of a load
    carries the state that the cell then has. -/
theorem run_spec (t : Table σ) (surface : Surface) (slots : σ) (calls : List (Call σ)) :
    let c := (start surface slots).run t calls
    c.slots = slotsAfter slots calls ∧
    (c.state = .notImported ↔ ∀ call ∈ calls, call.isLoad = false) ∧
    (∀ before after, calls = before ++ .load :: after → (∀ call ∈ after, call.isLoad = false) →
      c.state = .ofCounts (resolved (t.resolution (slotsAfter slots before))) t.names.length) ∧
    (∀ (φ : Type) (method : String) (pick : σ → Option φ),
      (∀ f, c.forward method pick = .ok f ↔ c.state = .ok ∧ pick c.slots = some f) ∧
      (c.state = .notImported →
        c.forward method pick = .error (.notLoaded surface.name method)) ∧
      (c.state = .failedImport →
        c.forward method pick = .error (.notImported surface.name method)) ∧
      (c.state = .partialImport ∨ c.state = .unknownFailure ∨
          (c.state = .ok ∧ pick c.slots = none) →
        c.forward method pick = .error (.unavailable surface.name method c.state))) ∧
    (∀ call : Call σ, call.isAttach = false → (c.call t call).2.slots = c.slots) ∧
    (∀ call : Call σ, call.isLoad = false → (c.call t call).2.state = c.state) ∧
    ∀ e, (c.load t).1 = .error e → e.state = (c.load t).2.state := by
  intro c
  have hsurface : c.surface = surface := run_surface t calls _
  refine ⟨run_slots t calls _, run_state_eq_notImported_iff, ?_, fun φ method pick => ?_,
    fun call h => call_slots t c h, fun call h => call_state t c h,
    fun e h => state_of_load_error h⟩
  · rintro before after hcalls hafter
    have hstate : ((start surface slots).run t (before ++ .load :: after)).state =
        derive t (slotsAfter slots before) := run_state_of_load hafter
    rwa [← hcalls] at hstate
  · rw [← hsurface]
    exact ⟨fun f => forward_eq_ok_iff, fun h => forward_of_notImported h method pick,
      fun h => forward_of_failedImport h method pick, forward_of_unavailable⟩

end Cell

end ImportBinding.Binding
