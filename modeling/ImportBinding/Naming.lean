/-
  ImportBinding — names of overloaded methods.

  The methods of a surface may share a plain name.  The first that asks for a
  plain name gets it bare, later ones get it with a number behind: the first
  number whose name is neither handed out nor declared plain in the surface.

  * `Naming` is the state of one run: what was handed out, and to whom;
  * `assign` names one method, `assignAll` those of a surface by position;
  * a method is known by its number, so asking again gives the same name.
-/
namespace ImportBinding

/-- What a run of name assignments remembers. -/
structure Naming where
  /-- For each plain name asked for, the number to try next. -/
  next : List (String × Nat) := []
  /-- The plain names declared in the surface; no numbered name is one of them. -/
  reserved : List String := []
  taken : List String := []
  /-- The name of each method that has one. -/
  assigned : List (Nat × String) := []
  deriving Repr

namespace Naming

/-- A run that has handed out nothing. -/
def empty : Naming := {}

/-- The `n`-th name made from a plain one: bare for `0`, else with the number behind. -/
def candidate (plain : String) : Nat → String
  | 0 => plain
  | n + 1 => plain ++ Nat.repr (n + 1)

/-- Whether the `n`-th name of `plain` may be handed out. -/
def IsFree (names : Naming) (plain : String) (n : Nat) : Prop :=
  (n = 0 ∨ candidate plain n ∉ names.reserved) ∧ candidate plain n ∉ names.taken

instance (names : Naming) (plain : String) (n : Nat) : Decidable (names.IsFree plain n) :=
  inferInstanceAs (Decidable (_ ∧ _))

/-- The first number from `n` on whose name is free, looking at `k` of them and
    giving the next one unseen. -/
def search (names : Naming) (plain : String) : Nat → Nat → Nat
  | 0, n => n
  | k + 1, n => if names.IsFree plain n then n else search names plain k (n + 1)

/-- The number that `plain` tries first. -/
def nextOf (names : Naming) (plain : String) : Nat :=
  (names.next.lookup plain).getD 0

/-- The number of the next name made from `plain`.  Every name that is not free is
    reserved or taken, so one more look than there are of those finds a free one. -/
def number (names : Naming) (plain : String) : Nat :=
  names.search plain (names.reserved.length + names.taken.length + 1) (names.nextOf plain)

/-- The name of method `id`, made from `plain` when it has none yet. -/
def assign (names : Naming) (id : Nat) (plain : String) : String × Naming :=
  match names.assigned.lookup id with
  | some name => (name, names)
  | none =>
    let n := names.number plain
    let name := candidate plain n
    (name, { names with
      next := (plain, n + 1) :: names.next
      taken := name :: names.taken
      assigned := (id, name) :: names.assigned })

/-- The name of method `id`, if it has one. -/
def get? (names : Naming) (id : Nat) : Option String :=
  names.assigned.lookup id

/-- Names the methods with the numbers from `id` on. -/
def assignFrom (names : Naming) (id : Nat) : List String → List String × Naming
  | [] => ([], names)
  | plain :: rest =>
    let (name, names) := names.assign id plain
    let (more, names) := names.assignFrom (id + 1) rest
    (name :: more, names)

/-- Declares the plain names of a surface. -/
def reserve (names : Naming) (plains : List String) : Naming :=
  { names with reserved := plains ++ names.reserved }

/-- The names of the methods of a surface, by position, from their plain names. -/
def assignAll (names : Naming) (plains : List String) : List String × Naming :=
  (names.reserve plains).assignFrom 0 plains

/-- Every method gets a name. -/
theorem length_assignFrom (plains : List String) :
    ∀ (names : Naming) (id : Nat), (names.assignFrom id plains).1.length = plains.length := by
  induction plains with
  | nil => intro names id; rfl
  | cons plain rest ih => intro names id; simp [assignFrom, ih]

/-- Asking again changes nothing. -/
theorem assign_of_get? {names : Naming} {id : Nat} {name plain : String}
    (h : names.get? id = some name) : names.assign id plain = (name, names) := by
  unfold get? at h
  simp [assign, h]

end Naming

end ImportBinding
