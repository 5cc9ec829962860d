/-
  ImportBinding — patches in place.

  A document is edited where it stands: an operation walks into it and works on the value that it
  comes to.  What a walk and a failing work leave could be half an edit; it never is, and a patch
  that fails leaves what the operations before the failing one have made.

  * `Work` is what is done to a value in place; `inside` and `within` do it to a part, which stays
    in its place with all that the work has made of it;
  * `Op.inPlace` is an operation as it walks and works, and `inPlace` is a patch;
  * `within_eq_outcome` and `Op.inPlace_eq_outcome`: a fault leaves what was there before;
  * `Op.canonical_of_apply`: operations keep the keys of objects in order, which is what a walk
    needs to come back without a trace;
  * `StopsAt` is how a patch fails, and `patch_outcome` says so for whole patches.
-/
import ImportBinding.Proofs.Patch.Lookup
import ImportBinding.Proofs.Patch.Put
import Mathlib.Data.List.InsertIdx

namespace ImportBinding.Patch

open Json (Members Pointer)

variable {path token : String} {p : Pointer} {u v w : Json} {fault : Fault} {op : Op}
  {ops ops' : List Op} {k m : Nat}

/-! ## Work in place -/

/-- Work on a value in place: what is left of the value, and the fault when the work fails. -/
abbrev Work := Json → Json × Option Fault

/-- One work after the other, which is not begun when the first fails. -/
def Work.andThen (work next : Work) : Work := fun u =>
  match work u with
  | (v, none) => next v
  | (v, some fault) => (v, some fault)

/-- Work on what a token leads to. -/
def inside (path token : String) (work : Work) : Work := fun u =>
  match child token u with
  | .error miss => (u, some (miss.fault path))
  | .ok v => (setChild token (work v).1 u, (work v).2)

/-- Work on what a pointer leads to. -/
def within (path : String) : Pointer → Work → Work
  | [], work => work
  | token :: rest, work => inside path token (within path rest work)

def addInPlace (path : String) (v : Json) (token : String) : Work
  | .object ms => (.object (Members.insert token v ms), none)
  | .array items =>
    if token = "-" then (.array (items ++ [v]), none)
    else
      match Json.index? token with
      | none => (.array items, some (.badIndex path token))
      | some i =>
        if items.length < i then (.array items, some (.outOfBounds path i))
        else (.array (items.insertIdx i v), none)
  | u => (u, some (.noContainer path))

/-- A member is removed first; whether there was one is seen by what came out. -/
def removeInPlace (path token : String) : Work
  | .object ms =>
    (.object (Members.erase token ms),
      if (Members.find? token ms).isSome then none else some (.nothingToRemove path))
  | .array items =>
    match Json.index? token with
    | none => (.array items, some (.badIndex path token))
    | some i =>
      if i < items.length then (.array (items.eraseIdx i), none)
      else (.array items, some (.nothingToRemove path))
  | u => (u, some (.nothingToRemove path))

def replaceInPlace (path : String) (v : Json) (token : String) : Work :=
  inside path token fun _ => (v, none)

/-- Work on the value that holds the target of a path, which is given the last token; at the root
    there is other work. -/
def onParent (path : String) (root : Work) (work : String → Work) : Work := fun u =>
  match tokens path with
  | .error fault => (u, some fault)
  | .ok p =>
    match splitLast p with
    | none => root u
    | some (front, last) => within path front (work last) u

/-- An operation in place. -/
def Op.inPlace : Op → Work
  | add path v => onParent path (fun _ => (v, none)) (addInPlace path v)
  | remove path => onParent path (fun u => (u, some .removesRoot)) (removeInPlace path)
  | replace path v => onParent path (fun _ => (v, none)) (replaceInPlace path v)
  | test path v => fun u =>
    match lookup path u with
    | .error fault => (u, some fault)
    | .ok found => (u, if found.same v then none else some (.differs path v found))

/-- A patch in place: the operations one after the other. -/
def inPlace : List Op → Work
  | [] => fun u => (u, none)
  | op :: rest => op.inPlace.andThen (inPlace rest)

/-! ## A fault leaves what was there -/

/-- What is left of a value for which another was to be put. -/
def outcome (u : Json) : Except Fault Json → Json × Option Fault
  | .ok v => (v, none)
  | .error fault => (u, some fault)

theorem addInPlace_eq_outcome :
    addInPlace path v token u = outcome u (addChild path v token u) := by
  cases u with
  | array items =>
    rw [addInPlace, addChild]
    split
    · rfl
    · cases Json.index? token with
      | none => rfl
      | some i => by_cases h : i ≤ items.length <;> simp [h, outcome]
  | _ => rfl

theorem removeInPlace_eq_outcome :
    removeInPlace path token u = outcome u (removeChild path token u) := by
  cases u with
  | object ms =>
    rw [removeInPlace, removeChild]
    cases h : Members.find? token ms with
    | none => simp [outcome, Members.erase_of_find?_eq_none h]
    | some old => rfl
  | array items =>
    rw [removeInPlace, removeChild]
    cases Json.index? token with
    | none => rfl
    | some i => by_cases h : i < items.length <;> simp [h, outcome]
  | _ => rfl

theorem replaceInPlace_eq_outcome :
    replaceInPlace path v token u = outcome u (replaceChild path v token u) := by
  rw [replaceInPlace, inside, replaceChild]
  cases child token u <;> rfl

/-- A work that leaves what was there when it fails does so inside a document. -/
theorem within_eq_outcome {work : Work} {f : Json → Except Fault Json}
    (hwork : ∀ v, work v = outcome v (f v)) (hu : u.Canonical) :
    within path p work u = outcome u (modify (Miss.fault path) f p u) := by
  induction p generalizing u with
  | nil => exact hwork u
  | cons token p ih =>
    rw [within, inside, modify]
    cases hv : child token u with
    | error miss => rfl
    | ok v =>
      dsimp only
      rw [ih (canonical_child hu hv)]
      -- what failed is put back where it was taken from, and that leaves no trace
      cases modify (Miss.fault path) f p v with
      | ok w => rfl
      | error fault => exact congrArg (·, some fault) (setChild_child hu hv)

theorem onParent_eq_outcome {root : Work} {root' : Except Fault Json} {work : String → Work}
    {f : String → Json → Except Fault Json} (hroot : root u = outcome u root')
    (hwork : ∀ last v, work last v = outcome v (f last v)) (hu : u.Canonical) :
    onParent path root work u = outcome u (atParent path root' f u) := by
  rw [onParent, atParent]
  cases tokens path with
  | error fault => rfl
  | ok p =>
    change (match splitLast p with
      | none => root u
      | some (front, last) => within path front (work last) u) = outcome u
        (match splitLast p with
        | none => root'
        | some (front, last) => modify (Miss.fault path) (f last) front u)
    cases splitLast p with
    | none => exact hroot
    | some s => exact within_eq_outcome (hwork s.2) hu

/-- An operation that fails leaves the document as it was. -/
theorem Op.inPlace_eq_outcome (hu : u.Canonical) : op.inPlace u = outcome u (op.apply u) := by
  cases op with
  | add path v =>
    rw [Op.inPlace, Op.apply]
    exact onParent_eq_outcome rfl (fun _ _ => addInPlace_eq_outcome) hu
  | remove path =>
    rw [Op.inPlace, Op.apply]
    exact onParent_eq_outcome rfl (fun _ _ => removeInPlace_eq_outcome) hu
  | replace path v =>
    rw [Op.inPlace, Op.apply]
    exact onParent_eq_outcome rfl (fun _ _ => replaceInPlace_eq_outcome) hu
  | test path v =>
    rw [Op.apply_test]
    dsimp only [Op.inPlace]
    cases lookup path u with
    | error fault => rfl
    | ok found => cases h : found.same v <;> simp [outcome, bind, Except.bind, h]

/-! ## Operations keep documents canonical -/

/-- The value that an operation brings in is canonical. -/
def Op.Canonical : Op → Prop
  | add _ v | replace _ v | test _ v => v.Canonical
  | remove _ => True

theorem canonical_insert {ms : Members} (hms : (Json.object ms).Canonical) (hv : v.Canonical) :
    (Json.object (ms.insert token v)).Canonical := by
  refine ⟨hms.1.insert token v, Json.canonicalMembers_iff.2 fun m hm => ?_⟩
  rcases Members.mem_insert hm with rfl | hm
  · exact hv
  · exact Json.canonicalMembers_iff.1 hms.2 m hm

theorem canonical_setChild (hu : u.Canonical) (hv : v.Canonical) :
    (setChild token v u).Canonical := by
  cases u with
  | object ms => exact canonical_insert hu hv
  | array items =>
    rw [setChild]
    split
    · refine Json.canonicalItems_iff.2 fun x hx => ?_
      rcases List.mem_or_eq_of_mem_set hx with hx | rfl
      · exact Json.canonicalItems_iff.1 hu x hx
      · exact hv
    · exact hu
  | _ => exact hu

theorem canonical_put (hu : u.Canonical) (hv : v.Canonical) : (put p v u).Canonical := by
  induction p generalizing u with
  | nil => exact hv
  | cons token p ih =>
    rw [put]
    split
    · next x hx => exact canonical_setChild hu (ih (canonical_child hu hx))
    · exact hu

theorem canonical_addChild (hu : u.Canonical) (hv : v.Canonical)
    (h : addChild path v token u = .ok w) : w.Canonical := by
  obtain ⟨ms, rfl, rfl⟩ | ⟨items, i, rfl, rfl, -⟩ := addChild_eq_ok_iff.1 h
  · exact canonical_insert hu hv
  · refine Json.canonicalItems_iff.2 fun x hx => ?_
    rcases List.eq_or_mem_of_mem_insertIdx hx with rfl | hx
    · exact hv
    · exact Json.canonicalItems_iff.1 hu x hx

theorem canonical_removeChild (hu : u.Canonical) (h : removeChild path token u = .ok w) :
    w.Canonical := by
  obtain ⟨ms, rfl, rfl, -⟩ | ⟨items, i, rfl, rfl, -⟩ := removeChild_eq_ok_iff.1 h
  · refine ⟨hu.1.erase token, Json.canonicalMembers_iff.2 fun m hm => ?_⟩
    exact Json.canonicalMembers_iff.1 hu.2 m ((Members.erase_sublist token ms).subset hm)
  · refine Json.canonicalItems_iff.2 fun x hx => ?_
    exact Json.canonicalItems_iff.1 hu x (List.mem_of_mem_eraseIdx hx)

theorem canonical_replaceChild (hu : u.Canonical) (hv : v.Canonical)
    (h : replaceChild path v token u = .ok w) : w.Canonical := by
  obtain ⟨old, -, rfl⟩ := replaceChild_eq_ok_iff.1 h
  exact canonical_setChild hu hv

theorem canonical_atParent {root : Except Fault Json} {f : String → Json → Except Fault Json}
    (hu : u.Canonical) (hroot : ∀ w, root = .ok w → w.Canonical)
    (hf : ∀ last v w, v.Canonical → f last v = .ok w → w.Canonical)
    (h : atParent path root f u = .ok w) : w.Canonical := by
  obtain ⟨-, h⟩ | ⟨front, last, v, v', -, hv, hv', rfl⟩ := atParent_eq_ok_iff.1 h
  · exact hroot w h
  · exact canonical_put hu (hf last v v' (canonical_at? hu hv) hv')

theorem Op.canonical_of_apply (hop : op.Canonical) (hu : u.Canonical) (h : op.apply u = .ok w) :
    w.Canonical := by
  cases op with
  | add path v =>
    refine canonical_atParent hu (fun x hx => ?_) (fun _ _ _ hv => canonical_addChild hv hop) h
    obtain rfl := Except.ok.inj hx
    exact hop
  | remove path =>
    refine canonical_atParent hu (fun x hx => ?_) (fun _ _ _ hv => canonical_removeChild hv) h
    cases hx
  | replace path v =>
    refine canonical_atParent hu (fun x hx => ?_) (fun _ _ _ hv => canonical_replaceChild hv hop) h
    obtain rfl := Except.ok.inj hx
    exact hop
  | test path v =>
    rw [Op.apply_test] at h
    obtain ⟨found, -, h⟩ := Except.bind_eq_ok_iff.1 h
    split at h
    · obtain rfl := Except.ok.inj h
      exact hu
    · cases h

/-! ## Patches -/

/-- A patch in place leaves what its operations make, and the same fault. -/
theorem inPlace_eq_apply (hu : u.Canonical) (hops : ∀ op ∈ ops, op.Canonical) :
    inPlace ops u = apply ops u := by
  induction ops generalizing u with
  | nil => rfl
  | cons op rest ih =>
    obtain ⟨hop, hrest⟩ := List.forall_mem_cons.1 hops
    rw [inPlace, Work.andThen, Op.inPlace_eq_outcome hu, apply]
    cases hw : op.apply u with
    | error fault => rfl
    | ok w => exact ih (Op.canonical_of_apply hop hu hw) hrest

theorem apply_cons_ok (h : op.apply u = .ok v) : apply (op :: ops) u = apply ops v := by
  rw [apply, h]

theorem apply_cons_error (h : op.apply u = .error fault) :
    apply (op :: ops) u = (u, some fault) := by
  rw [apply, h]

theorem apply_append : apply (ops ++ ops') u = Work.andThen (apply ops) (apply ops') u := by
  induction ops generalizing u with
  | nil => rfl
  | cons op ops ih =>
    rw [List.cons_append, Work.andThen]
    cases h : op.apply u with
    | error fault => rw [apply_cons_error h, apply_cons_error h]
    | ok v =>
      rw [apply_cons_ok h, apply_cons_ok h]
      exact ih

theorem apply_append_of_ok (h : apply ops u = (w, none)) :
    apply (ops ++ ops') u = apply ops' w := by
  rw [apply_append, Work.andThen, h]

theorem apply_append_of_fault (h : apply ops u = (w, some fault)) :
    apply (ops ++ ops') u = (w, some fault) := by
  rw [apply_append, Work.andThen, h]

/-- A patch that succeeds is its operations in order. -/
theorem apply_eq_none_iff :
    apply ops u = (w, none) ↔ ops.foldlM (fun u op => op.apply u) u = .ok w := by
  induction ops generalizing u with
  | nil => simp [apply, pure, Except.pure]
  | cons op ops ih =>
    rw [List.foldlM_cons]
    cases h : op.apply u with
    | error fault => simp [apply_cons_error h, bind, Except.bind]
    | ok v =>
      rw [apply_cons_ok h]
      exact ih

/-- The first `k` operations of a patch succeed and leave `w`, and the next one fails on it and
    leaves it in place. -/
structure StopsAt (ops : List Op) (u : Json) (k : Nat) (w : Json) (fault : Fault) : Prop where
  before : apply (ops.take k) u = (w, none)
  fails : ∃ op, ops[k]? = some op ∧ op.apply w = .error fault ∧ op.inPlace w = (w, some fault)

/-- From the operation that fails on, all parts of the patch leave the same. -/
theorem StopsAt.apply_take (h : StopsAt ops u k w fault) (hk : k < m) :
    apply (ops.take m) u = (w, some fault) := by
  obtain ⟨op, hget, hop, -⟩ := h.fails
  obtain ⟨hlt, rfl⟩ := List.getElem?_eq_some_iff.1 hget
  obtain ⟨n, rfl⟩ := Nat.exists_eq_add_of_lt hk
  rw [Nat.add_assoc, List.take_add, apply_append_of_ok h.before, List.drop_eq_getElem_cons hlt,
    List.take_succ_cons, apply_cons_error hop]

/-- A patch stops at one operation only. -/
theorem StopsAt.unique {k' : Nat} {w' : Json} {fault' : Fault} (h : StopsAt ops u k w fault)
    (h' : StopsAt ops u k' w' fault') : k' = k := by
  rcases Nat.lt_trichotomy k' k with hlt | heq | hgt
  · exact absurd (h.before.symm.trans (h'.apply_take hlt)) (by simp)
  · exact heq
  · exact absurd (h'.before.symm.trans (h.apply_take hgt)) (by simp)

theorem exists_stopsAt (hu : u.Canonical) (hops : ∀ op ∈ ops, op.Canonical)
    (h : apply ops u = (w, some fault)) : ∃ k, StopsAt ops u k w fault := by
  induction ops generalizing u with
  | nil => cases h
  | cons op ops ih =>
    obtain ⟨hop, hrest⟩ := List.forall_mem_cons.1 hops
    cases hv : op.apply u with
    | error fault' =>
      obtain ⟨rfl, rfl⟩ : u = w ∧ fault' = fault := by
        simpa [apply_cons_error hv] using h
      exact ⟨0, rfl, op, rfl, hv, by rw [Op.inPlace_eq_outcome hu, hv]; rfl⟩
    | ok v =>
      rw [apply_cons_ok hv] at h
      obtain ⟨k, hbefore, hfails⟩ := ih (Op.canonical_of_apply hop hu hv) hrest h
      exact ⟨k + 1, (apply_cons_ok hv).trans hbefore, hfails⟩

/-- How a patch ends, in place as anywhere.  When it fails, it is one operation that does: those
    before it succeed, the document is what they have left, and whatever comes behind is not
    begun.  When it succeeds, the document is what the operations make of it in order; and a patch
    made of two is the one and then the other. -/
theorem patch_outcome (hu : u.Canonical) (hops : ∀ op ∈ ops, op.Canonical) :
    inPlace ops u = apply ops u ∧
    (∀ w fault, apply ops u = (w, some fault) → ∃ k, StopsAt ops u k w fault ∧
      (∀ k' w' fault', StopsAt ops u k' w' fault' → k' = k) ∧
      ∀ rest, apply (ops.take (k + 1) ++ rest) u = (w, some fault)) ∧
    (∀ w, apply ops u = (w, none) ↔ ops.foldlM (fun u op => op.apply u) u = .ok w) ∧
    ∀ ops', apply (ops ++ ops') u = Work.andThen (apply ops) (apply ops') u := by
  refine ⟨inPlace_eq_apply hu hops, fun w fault h => ?_, fun w => apply_eq_none_iff,
    fun ops' => apply_append⟩
  obtain ⟨k, hk⟩ := exists_stopsAt hu hops h
  exact ⟨k, hk, fun _ _ _ h' => hk.unique h',
    fun rest => apply_append_of_fault (hk.apply_take (Nat.lt_succ_self k))⟩

/-- A patch of which the second operation finds nothing to remove. -/
def strayPatch : List Op :=
  [.add "/-" .null, .remove "/2", .remove "/0"]

theorem patch_outcome_stray : (Json.array [.bool true]).Canonical ∧
    (∀ op ∈ strayPatch, op.Canonical) ∧
    apply strayPatch (.array [.bool true]) =
      (.array [.bool true, .null], some (.nothingToRemove "/2")) ∧
    ∃ k, StopsAt strayPatch (.array [.bool true]) k (.array [.bool true, .null])
      (.nothingToRemove "/2") := by
  have hu : (Json.array [.bool true]).Canonical := ⟨trivial, trivial⟩
  have hops : ∀ op ∈ strayPatch, op.Canonical := by
    simp [strayPatch, Op.Canonical, Json.Canonical]
  have h : apply strayPatch (.array [.bool true]) =
      (.array [.bool true, .null], some (.nothingToRemove "/2")) := by rfl
  obtain ⟨-, hstops, -⟩ := patch_outcome hu hops
  obtain ⟨k, hk, -⟩ := hstops _ _ h
  exact ⟨hu, hops, h, k, hk⟩

end ImportBinding.Patch
