/-
  ImportBinding — records in JSON texts.

  A record has named fields in a fixed order.  Its text is an object, whose members may
  come in any order, or an array of the fields in theirs.  In an object a field comes at
  most once, members of other names are passed over, and a field that is missing has
  what stands for it, if anything does; at the end of an array the same holds for the
  fields that may be left off.

  * `Field` says how a field is read and what stands for it;
  * `Fields` are the fields of a record, in order;
  * `Tree.record` is the reader of a record.
-/
import ImportBinding.Json.Reader

namespace ImportBinding.Json

/-- A field of a record. -/
structure Field (α : Type) where
  name : String
  read : Reader α
  /-- What stands for it when an object has no such member. -/
  absent : Option α
  /-- What stands for it when an array ends before it. -/
  leftOff : Option α

/-- The fields of a record, in order; `α` holds their values. -/
inductive Fields : Type → Type 1 where
  | nil : Fields Unit
  | cons {α β : Type} (field : Field α) (rest : Fields β) : Fields (α × β)

namespace Field

/-- A field that must be there. -/
def required {α : Type} (name : String) (read : Reader α) : Field α :=
  ⟨name, read, none, none⟩

/-- A field for which `default` stands when it is missing. -/
def orElse {α : Type} (name : String) (read : Reader α) (default : α) : Field α :=
  ⟨name, read, some default, some default⟩

/-- A field that may be missing or null. -/
def optional {α : Type} (name : String) (read : Reader α) : Field (Option α) :=
  orElse name (Tree.optional read) none

end Field

namespace Fields

def count : {α : Type} → Fields α → Nat
  | _, nil => 0
  | _, cons _ rest => rest.count + 1

/-! ## From an object -/

/-- The values found so far, one place for each field. -/
def Found : {α : Type} → Fields α → Type
  | _, nil => Unit
  | _, cons (α := α) _ rest => Option α × rest.Found

def start : {α : Type} → (fs : Fields α) → fs.Found
  | _, nil => ()
  | _, cons _ rest => (none, rest.start)

/-- Whether the field of a name was found. -/
def has (name : String) : {α : Type} → (fs : Fields α) → fs.Found → Bool
  | _, nil => fun _ => false
  | _, cons field rest => fun (v, vs) => if name = field.name then v.isSome else rest.has name vs

/-- Reads the field of a name; a value of another name is passed over. -/
def put (name : String) (t : Tree) : {α : Type} → (fs : Fields α) → fs.Found → Except Fault fs.Found
  | _, nil => fun _ => t.pass
  | _, cons field rest => fun (v, vs) =>
    if name = field.name then (fun a => (some a, vs)) <$> field.read t
    else (fun vs => (v, vs)) <$> rest.put name t vs

/-- The values of the fields, or the first that is missing. -/
def finish : {α : Type} → (fs : Fields α) → fs.Found → Except Mismatch α
  | _, nil => fun _ => .ok ()
  | _, cons field rest => fun (v, vs) =>
    match v <|> field.absent with
    | some a => (a, ·) <$> rest.finish vs
    | none => .error (.missingField field.name)

/-- Told the key of a member, says how its value is read. -/
def enter {α : Type} (fs : Fields α) (found : fs.Found) (key : String) (offset : Nat) :
    Except Fault (Tree → Except Fault fs.Found) :=
  if fs.has key found then .error (misshapen (.duplicateField key) offset)
  else .ok fun t => fs.put key t found

/-- The values of the fields, from the members of an object. -/
def ofEntries {α : Type} (fs : Fields α) (entries : Entries) : Except Fault α := do
  let (found, offset) ← entries.fold fs.enter fs.start
  (fs.finish found).mapError (misshapen · offset)

/-! ## From an array -/

def counted (n : Nat) (thing : String) : String :=
  Nat.repr n ++ " " ++ thing ++ (if n = 1 then "" else "s")

/-- What a record that is called `name` is from an array. -/
def described {α : Type} (name : String) (fs : Fields α) : String :=
  name ++ " with " ++ counted fs.count "element"

/-- The values of the fields, from the elements of an array, and the elements left; `seen`
    elements went before, and `whole` describes the whole array. -/
def ofElems (whole : String) : {α : Type} → Nat → Fields α → Elems → Except Fault (α × Elems)
  | _, _, nil, elems => .ok ((), elems)
  | _, seen, cons field rest, elems =>
    match elems with
    | .item value more => do
      let a ← field.read value
      let (as, left) ← ofElems whole (seen + 1) rest more
      return ((a, as), left)
    | .stop false offset (some 0x5d) =>
      match field.leftOff with
      | some a => (fun (as, left) => ((a, as), left)) <$> ofElems whole seen rest elems
      | none => .error (misshapen (.wrongLength seen whole) (offset + 1))
    | .stop comma offset next? => .error (Elems.unclosed comma offset next?)

end Fields

/-- The reader of a record that is called `name`.  Its fields are missing when no bracket may
    be opened. -/
def Tree.record {α ρ : Type} (name : String) (fields : Option (Fields α)) (make : α → ρ) : Reader ρ
  | array start elems =>
    match fields with
    | none => .error (tooDeep start)
    | some fs => do
      let (a, left) ← fs.ofElems (fs.described name) 0 elems
      left.close
      return make a
  | object start entries =>
    match fields with
    | none => .error (tooDeep start)
    | some fs => make <$> fs.ofEntries entries
  | t => .error (t.refuse name)

end ImportBinding.Json
