/-
  ImportBinding — places in values.

  A pointer can spell one place in several ways, and what its tokens mean depends on the value
  that they are read in.  A place is the way itself: the keys of members and the numbers of items
  from the outside in.

  * `get?` is the value at a place;
  * `KeepsApart`: two values have the same at all places apart from one;
  * `MakesRoom`: an item has come in, and those from its index on are found one higher;
  * `AddedAt`: what has come in at a place is all that is new;
  * `KeepsApart.append_step` and `KeepsApart.makesRoom` carry a change of the value at a place to
    the whole value.
-/
import ImportBinding.Json.Basic

namespace ImportBinding.Json

/-- A step into a value. -/
inductive Step where
  | member (key : String)
  | item (i : Nat)
  deriving DecidableEq, Repr

/-- The steps to a place, outermost first. -/
abbrev Place := List Step

/-- The value behind a step. -/
def behind? : Step → Json → Option Json
  | .member key, .object members => Members.find? key members
  | .item i, .array items => items[i]?
  | _, _ => none

/-- The value at a place. -/
def get? : Place → Json → Option Json
  | [], u => some u
  | s :: rest, u => (behind? s u).bind (get? rest)

variable {u u' v w : Json} {p q : Place} {s : Step} {i : Nat}

theorem get?_append (p q : Place) (u : Json) : get? (p ++ q) u = (get? p u).bind (get? q) := by
  induction p generalizing u with
  | nil => rfl
  | cons s p ih =>
    rw [List.cons_append, get?, get?, Option.bind_assoc]
    exact Option.bind_congr fun x _ => ih x

theorem get?_append_singleton (p : Place) (s : Step) (u : Json) :
    get? (p ++ [s]) u = (get? p u).bind (behind? s) := by
  rw [get?_append]
  exact Option.bind_congr fun x _ => Option.bind_fun_some _

/-! ## Places apart -/

/-- Neither of two places is the other, or on the way to it. -/
def Place.Apart (p q : Place) : Prop :=
  ¬ p <+: q ∧ ¬ q <+: p

/-- The values have the same at all places apart from `p`. -/
def KeepsApart (p : Place) (u u' : Json) : Prop :=
  ∀ q, p.Apart q → u'.get? q = u.get? q

theorem KeepsApart.symm (h : KeepsApart p u u') : KeepsApart p u' u :=
  fun q hq => (h q hq).symm

/-- Below `p` the values may differ behind one more step only. -/
theorem KeepsApart.append_step (h : KeepsApart p u u') (hv : u.get? p = some v)
    (hw : u'.get? p = some w) (hs : ∀ t ≠ s, w.behind? t = v.behind? t) :
    KeepsApart (p ++ [s]) u u' := by
  rintro q ⟨hpq, hqp⟩
  by_cases hbelow : p <+: q
  · obtain ⟨r, rfl⟩ := hbelow
    cases r with
    | nil => exact absurd (by simp) hqp
    | cons t r =>
      have hts : t ≠ s := by
        rintro rfl
        exact hpq ⟨r, by simp⟩
      rw [get?_append, get?_append, hv, hw, Option.bind_some, Option.bind_some, get?, get?, hs t hts]
  · exact h q ⟨hbelow, fun hq => hqp (hq.trans (List.prefix_append p [s]))⟩

/-! ## Room for an item -/

/-- The number of what was item `j` before an item came in at index `i`. -/
def movedUp (i j : Nat) : Nat :=
  if i ≤ j then j + 1 else j

/-- The place of what was at `q` before an item came in at index `i` of the array at `p`. -/
def Place.movedUp (i : Nat) : Place → Place → Place
  | [], .item j :: rest => .item (Json.movedUp i j) :: rest
  | s :: p, t :: q => if s = t then t :: movedUp i p q else t :: q
  | _, q => q

/-- An item has come in at index `i` of the array at `p`: what was at its index or higher is found
    one index higher, and all else that is not around the array where it was. -/
def MakesRoom (p : Place) (i : Nat) (u u' : Json) : Prop :=
  ∀ q, ¬ q <+: p → u'.get? (Place.movedUp i p q) = u.get? q

theorem Place.movedUp_append (p q : Place) :
    Place.movedUp i p (p ++ q) = p ++ Place.movedUp i [] q := by
  induction p with
  | nil => rfl
  | cons s p ih => rw [List.cons_append, Place.movedUp, if_pos rfl, ih, List.cons_append]

/-- What is not below the array does not move. -/
theorem Place.movedUp_of_not_isPrefix (h : ¬ p <+: q) : Place.movedUp i p q = q := by
  induction p generalizing q with
  | nil => exact absurd List.nil_prefix h
  | cons s p ih =>
    cases q with
    | nil => rfl
    | cons t q =>
      rw [Place.movedUp]
      split
      · next hst =>
        subst hst
        rw [ih fun hpq => h ((List.prefix_cons_inj s).2 hpq)]
      · rfl

/-- An array in which the items have moved up, inside a value that is the same around it. -/
theorem KeepsApart.makesRoom {vs ws : List Json} (h : KeepsApart p u u')
    (hv : u.get? p = some (.array vs)) (hw : u'.get? p = some (.array ws))
    (hitems : ∀ j, ws[Json.movedUp i j]? = vs[j]?) : MakesRoom p i u u' := by
  intro q hqp
  by_cases hbelow : p <+: q
  · obtain ⟨r, rfl⟩ := hbelow
    rw [Place.movedUp_append, get?_append, get?_append, hv, hw, Option.bind_some, Option.bind_some]
    cases r with
    | nil => exact absurd (by simp) hqp
    | cons t r =>
      cases t with
      | member key => rfl
      | item j => rw [Place.movedUp, get?, get?, behind?, behind?, hitems]
  · rw [Place.movedUp_of_not_isPrefix hbelow]
    exact h q ⟨hbelow, hqp⟩

/-- The values are the same but for one thing more at `p` in the second: an item moves up those
    from its index on, a member moves nothing. -/
def AddedAt (p : Place) (u u' : Json) : Prop :=
  match p.getLast? with
  | some (.item i) => MakesRoom p.dropLast i u u'
  | _ => KeepsApart p u u'

theorem addedAt_member_iff {key : String} :
    AddedAt (p ++ [.member key]) u u' ↔ KeepsApart (p ++ [.member key]) u u' := by
  simp [AddedAt]

theorem addedAt_item_iff : AddedAt (p ++ [.item i]) u u' ↔ MakesRoom p i u u' := by
  simp [AddedAt]

theorem getElem?_insertIdx_movedUp (items : List Json) (i j : Nat) :
    (items.insertIdx i v)[movedUp i j]? = items[j]? := by
  rw [movedUp, List.getElem?_insertIdx]
  split <;> grind

theorem getElem?_movedUp_eraseIdx (items : List Json) (i j : Nat) :
    items[movedUp i j]? = (items.eraseIdx i)[j]? := by
  rw [movedUp, List.getElem?_eraseIdx]
  split <;> grind

end ImportBinding.Json
