/-
  ImportBinding — the state of a surface's binding.

  The state is derived from two counts: how many slots resolved and how many
  there are.

  * `State.ofCounts` derives it;
  * `State.ofCounts_eq_ok_iff` and its companions say which counts give which state.
-/
namespace ImportBinding.Binding

/-- How far a surface is bound. -/
inductive State where
  /-- Nothing was loaded yet. -/
  | notImported
  /-- Every slot resolved. -/
  | ok
  /-- Some slots resolved, but not all. -/
  | partialImport
  /-- No slot resolved. -/
  | failedImport
  /-- The counts do not add up. -/
  | unknownFailure
  deriving DecidableEq, Repr, Inhabited

namespace State

/-- The state for `resolved` slots of `expected`; a surface without slots is bound. -/
def ofCounts (resolved expected : Nat) : State :=
  if resolved = expected then ok
  else if resolved = 0 then failedImport
  else if resolved < expected then partialImport
  else unknownFailure

/-- Whether forwarded calls may run. -/
def isImported (s : State) : Bool :=
  s == ok

def name : State → String
  | notImported => "NotImported"
  | ok => "Ok"
  | partialImport => "PartialImport"
  | failedImport => "FailedImport"
  | unknownFailure => "UnknownFailure"

theorem ofCounts_eq_ok_iff {r e : Nat} : ofCounts r e = ok ↔ r = e := by
  grind [ofCounts]

theorem ofCounts_eq_failedImport_iff {r e : Nat} :
    ofCounts r e = failedImport ↔ r = 0 ∧ 0 < e := by
  grind [ofCounts]

theorem ofCounts_eq_partialImport_iff {r e : Nat} :
    ofCounts r e = partialImport ↔ 0 < r ∧ r < e := by
  grind [ofCounts]

theorem ofCounts_eq_unknownFailure_iff {r e : Nat} : ofCounts r e = unknownFailure ↔ e < r := by
  grind [ofCounts]

theorem ofCounts_ne_notImported (r e : Nat) : ofCounts r e ≠ notImported := by
  grind [ofCounts]

end State

end ImportBinding.Binding
