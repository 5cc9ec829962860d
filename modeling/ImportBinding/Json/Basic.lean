/-
  ImportBinding — JSON values.

  An object is the list of its members.  A text may write members in any order
  and write a key twice; a document that is edited holds each key once, in the
  order of code points.

  * `Json.canonical` brings a value into that form: the last member of a key wins;
  * `Members.insert`, `Members.erase` and `Members.find?` keep it;
  * `Json.same` compares two values: a whole number equals no other kind of number,
    and the two zeros of the binary numbers are equal.
-/
import ImportBinding.Decimal.Binary64

namespace ImportBinding

/-- A JSON number: whole when it is written without fraction and exponent and fits 64
    bits, else binary. -/
inductive Json.Number where
  | integer (n : Int)
  | float (x : Binary64)
  deriving DecidableEq, Repr

/-- A JSON value. -/
inductive Json where
  | null
  | bool (b : Bool)
  | number (n : Json.Number)
  | string (s : String)
  | array (items : List Json)
  | object (members : List (String × Json))
  deriving Repr, Inhabited

namespace Json

/-- The members of an object. -/
abbrev Members := List (String × Json)

/-! ## Members in order -/

namespace Members

/-- The members with `key` set to `value`: in place when the key is there, else before
    the first greater key. -/
def insert (key : String) (value : Json) : Members → Members
  | [] => [(key, value)]
  | (k, v) :: rest =>
    if key = k then (key, value) :: rest
    else if key < k then (key, value) :: (k, v) :: rest
    else (k, v) :: insert key value rest

def find? (key : String) : Members → Option Json
  | [] => none
  | (k, v) :: rest => if key = k then some v else find? key rest

/-- The members without `key`. -/
def erase (key : String) : Members → Members
  | [] => []
  | (k, v) :: rest => if key = k then rest else (k, v) :: erase key rest

/-- Each key stands before all later ones. -/
def Sorted (ms : Members) : Prop :=
  ms.Pairwise fun a b => a.1 < b.1

theorem find?_insert_self (key : String) (value : Json) (ms : Members) :
    find? key (insert key value ms) = some value := by
  induction ms with
  | nil => simp [insert, find?]
  | cons m rest ih => grind [insert, find?]

theorem find?_insert_of_ne {key k : String} (h : k ≠ key) (value : Json) (ms : Members) :
    find? k (insert key value ms) = find? k ms := by
  induction ms with
  | nil => simp [insert, find?, h]
  | cons m rest ih => grind [insert, find?]

theorem find?_erase_of_ne {key k : String} (h : k ≠ key) (ms : Members) :
    find? k (erase key ms) = find? k ms := by
  induction ms with
  | nil => rfl
  | cons m rest ih => grind [erase, find?]

end Members

/-! ## Canonical values -/

mutual

/-- The value with the members of each object in order, the last of each key. -/
def canonical : Json → Json
  | array items => array (canonicalItems items)
  | object members => object (canonicalMembers [] members)
  | v => v

/-- The items in canonical form. -/
def canonicalItems : List Json → List Json
  | [] => []
  | v :: rest => v.canonical :: canonicalItems rest

/-- The members in canonical form, put over those of `acc`. -/
def canonicalMembers (acc : Members) : Members → Members
  | [] => acc
  | (k, v) :: rest => canonicalMembers (acc.insert k v.canonical) rest

end

mutual

/-- Every object inside the value holds each key once and in order. -/
def Canonical : Json → Prop
  | array items => CanonicalItems items
  | object members => Members.Sorted members ∧ CanonicalMembers members
  | _ => True

def CanonicalItems : List Json → Prop
  | [] => True
  | v :: rest => v.Canonical ∧ CanonicalItems rest

def CanonicalMembers : Members → Prop
  | [] => True
  | (_, v) :: rest => v.Canonical ∧ CanonicalMembers rest

end

/-! ## Equality of values -/

def Number.same : Number → Number → Bool
  | integer m, integer n => m == n
  | float x, float y => x.same y
  | _, _ => false

mutual

/-- Whether two canonical values are equal. -/
def same : Json → Json → Bool
  | null, null => true
  | bool a, bool b => a == b
  | number m, number n => m.same n
  | string s, string t => s == t
  | array xs, array ys => sameItems xs ys
  | object xs, object ys => sameMembers xs ys
  | _, _ => false

def sameItems : List Json → List Json → Bool
  | [], [] => true
  | x :: xs, y :: ys => x.same y && sameItems xs ys
  | _, _ => false

def sameMembers : Members → Members → Bool
  | [], [] => true
  | (k, x) :: xs, (l, y) :: ys => k == l && x.same y && sameMembers xs ys
  | _, _ => false

end

mutual

theorem same_refl : (v : Json) → v.same v
  | null => by simp [same]
  | bool _ => by simp [same]
  | number (.integer _) => by simp [same, Number.same]
  | number (.float x) => by simp [same, Number.same, x.same_refl]
  | string _ => by simp [same]
  | array items => by simpa [same] using sameItems_refl items
  | object members => by simpa [same] using sameMembers_refl members

theorem sameItems_refl : (vs : List Json) → sameItems vs vs
  | [] => by simp [sameItems]
  | v :: rest => by simp [sameItems, same_refl v, sameItems_refl rest]

theorem sameMembers_refl : (ms : Members) → sameMembers ms ms
  | [] => by simp [sameMembers]
  | (_, v) :: rest => by simp [sameMembers, same_refl v, sameMembers_refl rest]

end

end Json

end ImportBinding
