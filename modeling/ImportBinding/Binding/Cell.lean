/-
  ImportBinding — the cell of a surface.

  A cell holds the slots of a surface and the state of its binding.  Attaching writes the
  slots and leaves the state; loading derives the state from the slots and judges it by the
  surface's policy; a call runs only in the state `ok`, on what its slot holds then.

  * `Table` says what slots tell of themselves: their names, and which hold something;
  * `Cell.attach`, `Cell.load` and `Cell.forward` are the calls on a cell;
  * `Cell.loadError?` is the judgement of a load.
-/
import ImportBinding.Binding.Error

namespace ImportBinding.Binding

variable {σ φ ρ : Type}

/-- What the slots of a surface tell of themselves.  Nothing forces the two to agree. -/
structure Table (σ : Type) where
  names : List String
  /-- For each slot, whether it holds something. -/
  resolution : σ → List Bool

structure Surface where
  name : String
  required : Bool
  deriving DecidableEq, Repr

/-- The slots of a surface and the state of its binding. -/
structure Cell (σ : Type) where
  surface : Surface
  slots : σ
  state : State

namespace Cell

/-- A cell before anything is loaded. -/
def start (surface : Surface) (slots : σ) : Cell σ :=
  { surface, slots, state := .notImported }

/-- Whether forwarded calls may run. -/
def isImported (c : Cell σ) : Bool :=
  c.state.isImported

def attach (write : σ → ρ × σ) (c : Cell σ) : ρ × Cell σ :=
  let (r, slots) := write c.slots
  (r, { c with slots })

/-! ## Loading -/

def resolved (resolution : List Bool) : Nat :=
  resolution.countP (·)

/-- The state that slots give. -/
def derive (t : Table σ) (slots : σ) : State :=
  .ofCounts (resolved (t.resolution slots)) t.names.length

/-- The errors of the slots that did not resolve, in the order of the names; a slot that the
    resolution does not tell of did not. -/
def unresolved (surface : String) (present : Bool) : List String → List Bool → List CallError
  | [], _ => []
  | name :: names, [] => .unresolved surface name present :: unresolved surface present names []
  | name :: names, r :: rs =>
    let rest := unresolved surface present names rs
    if r then rest else .unresolved surface name present :: rest

/-- Why a surface in the state that its slots give does not load.  A surface that is absent
    as a whole loads unless it is required. -/
def loadError? (t : Table σ) (surface : Surface) (slots : σ) : Option LoadError :=
  let resolution := t.resolution slots
  let n := resolved resolution
  let state := derive t slots
  let missing := unresolved surface.name (0 < n) t.names resolution
  match state with
  | .ok => none
  | .failedImport => if surface.required then some ⟨surface.name, state, missing⟩ else none
  | .partialImport => some ⟨surface.name, state, missing⟩
  | _ =>
    some ⟨surface.name, .unknownFailure, [.invariantViolation surface.name n t.names.length]⟩

def load (t : Table σ) (c : Cell σ) : Except LoadError Unit × Cell σ :=
  let c' := { c with state := derive t c.slots }
  match loadError? t c.surface c.slots with
  | some e => (.error e, c')
  | none => (.ok (), c')

/-! ## Calls -/

/-- What a call to a method runs: what `pick` finds in the slots, in the state `ok`. -/
def forward (method : String) (pick : σ → Option φ) (c : Cell σ) : Except CallError φ :=
  match c.state with
  | .ok =>
    match pick c.slots with
    | some f => .ok f
    | none => .error (.unavailable c.surface.name method .ok)
  | .failedImport => .error (.notImported c.surface.name method)
  | .notImported => .error (.notLoaded c.surface.name method)
  | state => .error (.unavailable c.surface.name method state)

theorem load_slots (t : Table σ) (c : Cell σ) : (c.load t).2.slots = c.slots := by
  unfold load; split <;> rfl

theorem load_state (t : Table σ) (c : Cell σ) : (c.load t).2.state = derive t c.slots := by
  unfold load; split <;> rfl

theorem attach_state (write : σ → ρ × σ) (c : Cell σ) : (c.attach write).2.state = c.state := rfl

end Cell

end ImportBinding.Binding
