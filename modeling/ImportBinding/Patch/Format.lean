/-
  ImportBinding — patches as JSON.

  An operation is an object whose member `op` tells the kind, or an array with the kind
  first and the fields of that kind after it.

  * `Json.Tree.tagged` reads such a value: its kind, and what is left without it;
  * `Op.read` is the reader of an operation, `Op.toJson` its value.
-/
import ImportBinding.Json.Record
import ImportBinding.Patch.Basic

namespace ImportBinding

namespace Json.Tree

/-- One of the `known` names, as the kind of something. -/
def variant (known : List String) : Reader String := fun t => do
  let name ← t.textAs "variant identifier"
  if known.contains name then return name
  else throw (misshapen (.unknownVariant name known) t.start)

/-- A value whose kind, one of `known`, is told by its first element or by its member `tag`.
    The kind comes with the value without it. -/
def tagged (expected tag : String) (known : List String) : Nat → Reader (String × Json)
  | 0, array start _ | 0, object start _ => .error (tooDeep start)
  | d + 1, array start elems =>
    match elems with
    | .item value rest => do
      let kind ← variant known value
      return (kind, .array (← rest.read (content d)))
    | .stop false _ (some 0x5d) => .error (misshapen (.missingField tag) start)
    | .stop comma offset next? => .error (Elems.unclosed comma offset next?)
  | d + 1, object _ entries => do
    let enter (s : Option String × Members) (key : String) (offset : Nat) :
        Except Fault (Tree → Except Fault (Option String × Members)) :=
      if key = tag then
        if s.1.isSome then .error (misshapen (.duplicateField tag) offset)
        else .ok fun t => do return (some (← variant known t), s.2)
      else .ok fun t => do return (s.1, (key, ← t.content d) :: s.2)
    let ((kind?, acc), offset) ← entries.fold enter (none, [])
    match kind? with
    | some kind => return (kind, .object acc.reverse)
    | none => throw (misshapen (.missingField tag) offset)
  | _, t => .error (t.refuse expected)

/-- The fields of a kind that is called `name`, from a value without its kind.  Nothing may
    be left over in an array. -/
def fieldsOf {α : Type} (name : String) (fields : Fields α) (v : Json) : Except Fault α :=
  match ofJson v with
  | array _ elems => do
    let (a, left) ← fields.ofElems (fields.described name) 0 elems
    match left, v with
    | .item _ _, .array items =>
      throw (misshapen
        (.wrongLength items.length (Fields.counted fields.count "element" ++ " in sequence")) 0)
    | _, _ => return a
  | object _ entries => fields.ofEntries entries
  | t => .error (t.refuse name)

end Json.Tree

namespace Patch

open Json (Fields Reader Tree)

def Op.kinds : List String :=
  ["add", "remove", "replace", "test"]

/-- The field `path`. -/
def pathField : Json.Field String :=
  .required "path" Tree.text

def pathAndValue : Fields (String × Json × Unit) :=
  .cons pathField (.cons (.required "value" (Tree.value Json.maxDepth)) .nil)

def pathOnly : Fields (String × Unit) :=
  .cons pathField .nil

def Op.read (depth : Nat) : Reader Op := fun t => do
  let (kind, rest) ← t.tagged "internally tagged enum PatchOp" "op" Op.kinds depth
  let valued (name : String) (make : String → Json → Op) : Except Json.Fault Op := do
    let (path, value, _) ← Tree.fieldsOf ("struct variant PatchOp::" ++ name) pathAndValue rest
    return make path value
  match kind with
  | "add" => valued "Add" .add
  | "replace" => valued "Replace" .replace
  | "test" => valued "Test" .test
  | _ =>
    let (path, _) ← Tree.fieldsOf "struct variant PatchOp::Remove" pathOnly rest
    return .remove path

def read (depth : Nat) : Reader (List Op) :=
  Tree.list (Json.inside depth Op.read)

def Op.toJson : Op → Json
  | add path value => .object [("op", .string "add"), ("path", .string path), ("value", value)]
  | remove path => .object [("op", .string "remove"), ("path", .string path)]
  | replace path value =>
    .object [("op", .string "replace"), ("path", .string path), ("value", value)]
  | test path value => .object [("op", .string "test"), ("path", .string path), ("value", value)]

end Patch

end ImportBinding
