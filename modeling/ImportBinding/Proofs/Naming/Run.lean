/-
  ImportBinding — names over whole runs.

  A run may be shared: methods are named one by one, asked for, or named with their surface, in
  any order.  A method keeps the name that it was told first.

  * `Tries` is the search for a name, number by number and without a bound, and
    `tries_number` says that it ends;
  * `run` makes calls one after another, and `Call.told` is what their answers tell;
  * `get?_call_of_get?` and `get?_call_eq_none_iff` are what one call keeps,
    `get?_run_of_get?` and `get?_run_eq_none_iff` what a run keeps;
  * `run_consistent` is what every run from the start can rely on.
-/
import ImportBinding.Proofs.Naming

namespace ImportBinding.Naming

/-! ## The search -/

/-- The search for a name made from `plain` tries the numbers from `n` on, one after another,
    and ends at `m`. -/
inductive Tries (names : Naming) (plain : String) : Nat → Nat → Prop where
  | found {n : Nat} (h : names.IsFree plain n) : Tries names plain n n
  | next {n m : Nat} (h : ¬ names.IsFree plain n) (rest : Tries names plain (n + 1) m) :
      Tries names plain n m

theorem tries_search {names : Naming} {plain : String} (k : Nat) : ∀ {n : Nat},
    (∃ m, n ≤ m ∧ m < n + k ∧ names.IsFree plain m) →
    Tries names plain n (names.search plain k n) := by
  induction k with
  | zero =>
    rintro n ⟨m, hle, hlt, -⟩
    omega
  | succ k ih =>
    rintro n ⟨m, hle, hlt, hf⟩
    rw [search]
    split
    · next hn => exact .found hn
    · next hn =>
      have hne : m ≠ n := by rintro rfl; exact hn hf
      exact .next hn (ih ⟨m, by omega, by omega, hf⟩)

/-- The search from the counter ends, at the number that the method gets. -/
theorem tries_number (names : Naming) (plain : String) :
    Tries names plain (names.nextOf plain) (names.number plain) :=
  tries_search _ (exists_free names plain (names.nextOf plain))

/-! ## Calls -/

/-- A call on a run of name assignments. -/
inductive Call where
  | assign (id : Nat) (plain : String)
  | get (id : Nat)
  | assignAll (signatures : List Signature)

/-- What a call answers. -/
inductive Answer where
  | assigned (name : String)
  | got (name : Option String)
  | all (names : List String)

namespace Call

/-- Whether a call gives method `id` a name, unless it has one. -/
def Assigns (id : Nat) : Call → Prop
  | assign id' _ => id' = id
  | get _ => False
  | assignAll signatures => id < signatures.length

/-- The methods that an answered call tells the names of, with these names. -/
def told : Call → Answer → List (Nat × String)
  | assign id _, .assigned name => [(id, name)]
  | get id, .got name => name.toList.map fun name => (id, name)
  | assignAll _, .all names => names.zipIdx.map Prod.swap
  | _, _ => []

end Call

/-- Makes a call. -/
def call (names : Naming) : Call → Answer × Naming
  | .assign id plain =>
    let (name, names) := names.assign id plain
    (.assigned name, names)
  | .get id => (.got (names.get? id), names)
  | .assignAll signatures =>
    let (all, names) := names.assignAll (signatures.map Signature.name)
    (.all all, names)

/-- The state after some calls, made one after another. -/
def run (names : Naming) (calls : List Call) : Naming :=
  calls.foldl (fun names call => (names.call call).2) names

/-! ## Names that are kept -/

variable {names : Naming} {id : Nat} {name : String}

theorem get?_assign_of_get? (h : names.get? id = some name) (id' : Nat) (plain : String) :
    (names.assign id' plain).2.get? id = some name := by
  rw [get?_assign]
  split
  · next he =>
    subst he
    rw [assign_of_get? h]
  · exact h

theorem get?_assignFrom_of_get? (plains : List String) : ∀ {names : Naming} {id' : Nat},
    names.get? id = some name → (names.assignFrom id' plains).2.get? id = some name := by
  induction plains with
  | nil => intro names id' h; exact h
  | cons plain rest ih => intro names id' h; exact ih (get?_assign_of_get? h id' plain)

/-- No call takes a method its name. -/
theorem get?_call_of_get? (h : names.get? id = some name) (call : Call) :
    (names.call call).2.get? id = some name := by
  cases call with
  | assign id' plain => exact get?_assign_of_get? h id' plain
  | get id' => exact h
  | assignAll signatures => exact @get?_assignFrom_of_get? id name _ (names.reserve _) 0 h

theorem get?_run_of_get? (calls : List Call) : ∀ {names : Naming},
    names.get? id = some name → (names.run calls).get? id = some name := by
  induction calls with
  | nil => intro names h; exact h
  | cons call rest ih => intro names h; exact ih (get?_call_of_get? h call)

/-- A method that has a name gets it with its surface too. -/
theorem getElem?_assignAll_of_get? {plains : List String} (h : names.get? id = some name)
    (hid : id < plains.length) : (names.assignAll plains).1[id]? = some name := by
  have hkept : (names.assignAll plains).2.get? id = some name :=
    @get?_assignFrom_of_get? id name plains (names.reserve plains) 0 h
  have hlength : (names.assignAll plains).1.length = plains.length := length_assignFrom plains _ 0
  have hitem := List.getElem?_eq_getElem (l := (names.assignAll plains).1) (hlength ▸ hid)
  have hnamed := @get?_assignFrom plains (names.reserve plains) 0 id _ hitem
  rw [Nat.zero_add] at hnamed
  exact hitem.trans (hnamed.symm.trans hkept)

/-! ## Methods without a name -/

theorem get?_assign_eq_none_iff {id' : Nat} {plain : String} :
    (names.assign id' plain).2.get? id = none ↔ names.get? id = none ∧ id' ≠ id := by
  rw [get?_assign]
  split
  · next he => simp [he]
  · next he => simp [Ne.symm he]

theorem get?_assignFrom_eq_none_iff (plains : List String) : ∀ {names : Naming} {id' : Nat},
    (names.assignFrom id' plains).2.get? id = none ↔
      names.get? id = none ∧ ¬ (id' ≤ id ∧ id < id' + plains.length) := by
  induction plains with
  | nil =>
    intro names id'
    have hempty : ¬ (id' ≤ id ∧ id < id' + 0) := by omega
    exact (and_iff_left hempty).symm
  | cons plain rest ih =>
    intro names id'
    rw [assignFrom, List.length_cons]
    refine (ih.trans (and_congr_left' get?_assign_eq_none_iff)).trans ?_
    rw [and_assoc]
    exact and_congr_right' (by omega)

/-- A call names the methods that it assigns, and no others. -/
theorem get?_call_eq_none_iff {call : Call} :
    (names.call call).2.get? id = none ↔ names.get? id = none ∧ ¬ call.Assigns id := by
  cases call with
  | assign id' plain => exact get?_assign_eq_none_iff
  | get id' =>
    have hget : ¬ (Call.get id').Assigns id := not_false
    exact (and_iff_left hget).symm
  | assignAll signatures =>
    refine (get?_assignFrom_eq_none_iff _).trans (and_congr_right' ?_)
    simp [Call.Assigns]

theorem get?_run_eq_none_iff (calls : List Call) : ∀ {names : Naming},
    (names.run calls).get? id = none ↔
      names.get? id = none ∧ ∀ call ∈ calls, ¬ call.Assigns id := by
  induction calls with
  | nil => intro names; simp [run]
  | cons call rest ih =>
    intro names
    refine ih.trans ?_
    rw [get?_call_eq_none_iff, List.forall_mem_cons, and_assoc]

/-! ## Runs -/

/-- A method has the name that an answer tells of it. -/
theorem get?_call_of_told {call : Call} (h : (id, name) ∈ call.told (names.call call).1) :
    (names.call call).2.get? id = some name := by
  cases call with
  | assign id' plain =>
    obtain ⟨rfl, rfl⟩ := Prod.mk.inj (List.mem_singleton.1 h)
    exact (get?_assign names id plain id).trans (if_pos rfl)
  | get id' =>
    obtain ⟨name', hname, he⟩ := List.mem_map.1 h
    obtain ⟨rfl, rfl⟩ := Prod.mk.inj he
    exact Option.mem_toList.1 hname
  | assignAll signatures =>
    obtain ⟨⟨name', id'⟩, hname, he⟩ := List.mem_map.1 h
    obtain ⟨rfl, rfl⟩ := Prod.mk.inj he
    have hnamed := get?_assignFrom _ (List.mem_zipIdx_iff_getElem?.1 hname)
    rwa [Nat.zero_add] at hnamed

theorem Reachable.call (h : names.Reachable) (call : Call) : (names.call call).2.Reachable := by
  cases call with
  | assign id plain => exact h.assign id plain
  | get id => exact h
  | assignAll signatures => exact h.assignAll _

theorem Reachable.run (calls : List Call) : ∀ {names : Naming}, names.Reachable →
    (names.run calls).Reachable := by
  induction calls with
  | nil => intro names h; exact h
  | cons call rest ih => intro names h; exact ih (h.call call)

/-- After every run from the start no search goes on for ever, no two methods have one name,
    and a method is without a name iff no call assigned one.  What an answer tells of a method
    stays its name: every later run leaves it, whatever plain name the method asks with.  The
    names of a surface are different ones. -/
theorem run_consistent (calls : List Call) :
    let names := empty.run calls
    (∀ (state : Naming) (plain : String),
      Tries state plain (state.nextOf plain) (state.number plain)) ∧
    (∀ id id' name, names.get? id = some name → names.get? id' = some name → id = id') ∧
    (∀ id, names.get? id = none ↔ ∀ call ∈ calls, ¬ call.Assigns id) ∧
    (∀ call id name, (id, name) ∈ call.told (names.call call).1 → ∀ later : List Call,
      let after := (names.call call).2.run later
      after.get? id = some name ∧
      (∀ plain, (after.assign id plain).1 = name) ∧
      ∀ signatures : List Signature, id < signatures.length →
        (after.assignAll (signatures.map Signature.name)).1[id]? = some name) ∧
    ∀ signatures : List Signature, (names.assignAll (signatures.map Signature.name)).1.Nodup := by
  intro names
  have hreachable : names.Reachable := Reachable.empty.run calls
  refine ⟨tries_number, fun _ _ _ h h' => hreachable.sound.injective h h', fun id => ?_,
    fun call id name htold later => ?_, fun signatures => hreachable.nodup_assignAll _⟩
  · exact (get?_run_eq_none_iff calls).trans (and_iff_right rfl)
  · intro after
    have hget : after.get? id = some name := get?_run_of_get? later (get?_call_of_told htold)
    refine ⟨hget, fun plain => ?_, fun signatures hid => ?_⟩
    · rw [assign_of_get? hget]
    · exact getElem?_assignAll_of_get? hget (by rwa [List.length_map])

end ImportBinding.Naming
