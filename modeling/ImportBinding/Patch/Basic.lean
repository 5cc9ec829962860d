/-
  ImportBinding — patches of JSON documents.

  A patch is a list of operations, each at a pointer.  They are applied in order; the
  first that fails ends the patch, and what was done before it stays.

  * `at?` is the value at a list of tokens, `modify` changes it;
  * `Op.apply` is one operation: it changes the document or gives a fault;
  * `apply` is a whole patch: the document it leaves, and the fault that ended it.
-/
import ImportBinding.Json.Pointer
import ImportBinding.Json.Printer
import ImportBinding.Text.Quoted

namespace ImportBinding.Patch

/-- An operation on a document, at the pointer with the text `path`. -/
inductive Op where
  | add (path : String) (value : Json)
  | remove (path : String)
  | replace (path : String) (value : Json)
  | test (path : String) (value : Json)
  deriving Repr

/-- Why an operation fails. -/
inductive Fault where
  /-- The text is no pointer. -/
  | badPointer (path : String)
  /-- A token on an array is no index. -/
  | badIndex (path token : String)
  /-- Nothing is there. -/
  | notFound (path : String)
  /-- The value to add to holds no others. -/
  | noContainer (path : String)
  /-- The index to add at is beyond the end. -/
  | outOfBounds (path : String) (index : Nat)
  /-- The root was to be removed. -/
  | removesRoot
  /-- There is nothing to remove. -/
  | nothingToRemove (path : String)
  /-- The value is another one. -/
  | differs (path : String) (expected found : Json)
  deriving Repr

def Fault.message : Fault → String
  | badPointer path =>
    "invalid JSON Pointer (must start with '/' or be empty): " ++ Text.quote path
  | badIndex path token =>
    "expected array index in pointer " ++ Text.quote path ++ ", got " ++ Text.quote token
  | notFound path => "path not found: " ++ Text.quote path
  | noContainer path => "add parent is not a container at " ++ Text.quote path
  | outOfBounds path index =>
    "array index out of bounds for add at " ++ Text.quote path ++ ": " ++ Nat.repr index
  | removesRoot => "cannot remove the document root"
  | nothingToRemove path => "remove path not found: " ++ Text.quote path
  | differs path expected found =>
    "test failed at " ++ Text.quote path ++ ": expected " ++ expected.compact ++ " got " ++
      found.compact

/-- Why a token leads nowhere. -/
inductive Miss where
  | notFound
  | badIndex (token : String)
  deriving DecidableEq, Repr

/-- The fault of a token that leads nowhere, in the pointer with the text `path`. -/
def Miss.fault (path : String) : Miss → Fault
  | notFound => .notFound path
  | badIndex token => .badIndex path token

/-! ## Values at pointers -/

/-- The index that a token spells. -/
def index (token : String) : Except Miss Nat :=
  match Json.index? token with
  | some i => .ok i
  | none => .error (.badIndex token)

/-- The value that a token leads to. -/
def child (token : String) : Json → Except Miss Json
  | .object members =>
    match Json.Members.find? token members with
    | some v => .ok v
    | none => .error .notFound
  | .array items => do
    match items[← index token]? with
    | some v => return v
    | none => throw .notFound
  | _ => .error .notFound

/-- The value with the one that a token leads to, if any, put in place of it. -/
def setChild (token : String) (v : Json) : Json → Json
  | .object members => .object (Json.Members.insert token v members)
  | .array items =>
    match Json.index? token with
    | some i => .array (items.set i v)
    | none => .array items
  | u => u

/-- The value at a pointer. -/
def at? : Json.Pointer → Json → Except Miss Json
  | [], u => .ok u
  | token :: rest, u => do at? rest (← child token u)

/-- The value changed at a pointer by `f`; `miss` turns a token that leads nowhere into
    a fault. -/
def modify {ε : Type} (miss : Miss → ε) (f : Json → Except ε Json) :
    Json.Pointer → Json → Except ε Json
  | [], u => f u
  | token :: rest, u =>
    match child token u with
    | .error m => .error (miss m)
    | .ok v => (setChild token · u) <$> modify miss f rest v

/-! ## Operations -/

/-- The tokens of a path. -/
def tokens (path : String) : Except Fault Json.Pointer :=
  match Json.Pointer.tokens? path with
  | some p => .ok p
  | none => .error (.badPointer path)

/-- Adds `v` under the last token of a path to the value that is to hold it. -/
def addChild (path : String) (v : Json) (token : String) : Json → Except Fault Json
  | .object members => .ok (.object (Json.Members.insert token v members))
  | .array items =>
    if token = "-" then .ok (.array (items ++ [v]))
    else
      match Json.index? token with
      | none => .error (.badIndex path token)
      | some i =>
        if i ≤ items.length then .ok (.array (items.insertIdx i v))
        else .error (.outOfBounds path i)
  | _ => .error (.noContainer path)

/-- Puts `v` in place of what the last token of a path leads to. -/
def replaceChild (path : String) (v : Json) (token : String) (u : Json) : Except Fault Json :=
  match child token u with
  | .ok _ => .ok (setChild token v u)
  | .error m => .error (m.fault path)

/-- Removes what the last token of a path leads to. -/
def removeChild (path token : String) : Json → Except Fault Json
  | .object members =>
    if (Json.Members.find? token members).isSome then
      .ok (.object (Json.Members.erase token members))
    else .error (.nothingToRemove path)
  | .array items =>
    match Json.index? token with
    | none => .error (.badIndex path token)
    | some i =>
      if i < items.length then .ok (.array (items.eraseIdx i)) else .error (.nothingToRemove path)
  | _ => .error (.nothingToRemove path)

/-- The tokens of a pointer before the last one, and the last one. -/
def splitLast : Json.Pointer → Option (Json.Pointer × String)
  | [] => none
  | [token] => some ([], token)
  | token :: rest => (splitLast rest).map fun (front, last) => (token :: front, last)

/-- Changes the value that holds the target of a path by `f`, which is given the last token;
    at the root it is `root`. -/
def atParent (path : String) (root : Except Fault Json)
    (f : String → Json → Except Fault Json) (u : Json) : Except Fault Json := do
  match splitLast (← tokens path) with
  | none => root
  | some (front, last) => modify (Miss.fault path) (f last) front u

/-- The document after one operation. -/
def Op.apply : Op → Json → Except Fault Json
  | add path v, u => atParent path (.ok v) (addChild path v) u
  | remove path, u => atParent path (.error .removesRoot) (removeChild path) u
  | replace path v, u => atParent path (.ok v) (replaceChild path v) u
  | test path v, u => do
    let found ← (at? (← tokens path) u).mapError (Miss.fault path)
    if found.same v then return u else throw (.differs path v found)

/-- The document that a patch leaves, and the fault of the operation that ended it. -/
def apply : List Op → Json → Json × Option Fault
  | [], u => (u, none)
  | op :: rest, u =>
    match op.apply u with
    | .ok v => apply rest v
    | .error fault => (u, some fault)

theorem modify_nil {ε : Type} (miss : Miss → ε) (f : Json → Except ε Json) (u : Json) :
    modify miss f [] u = f u := rfl

theorem at?_nil (u : Json) : at? [] u = .ok u := rfl

end ImportBinding.Patch
