/-
  ImportBinding — surfaces as JSON.

  The readers and the values of metadata, modes, parameters and signatures.  A mode is
  its spelling; a parameter without a mode is passed by value.
-/
import ImportBinding.Json.Record
import ImportBinding.Surface.Basic

namespace ImportBinding

open Json (Fields Reader Tree)

/-- The member of a name, unless its value is left out. -/
def Json.member? (name : String) (value : Option Json) : Json.Members :=
  match value with
  | some v => [(name, v)]
  | none => []

/-! ## Metadata -/

def Metadata.fields : Fields (String × Bool × Unit) :=
  .cons (.required "surface" Tree.text) (.cons (.orElse "required" Tree.boolean false) .nil)

def Metadata.read (depth : Nat) : Reader Metadata :=
  Tree.record "struct Metadata" (Json.inside depth fun _ => fields) fun (surface, required, _) =>
    { surface, required }

def Metadata.toJson (m : Metadata) : Json :=
  .object [("surface", .string m.surface), ("required", .bool m.required)]

/-! ## Modes -/

def Passing.read : Reader Passing := fun t =>
  Passing.ofString <$> t.text

def Passing.toJson (m : Passing) : Json :=
  .string m.spelling

/-! ## Parameters -/

def Parameter.fields : Fields (String × String × Passing × Unit) :=
  .cons (.required "name" Tree.text) (.cons (.required "ty" Tree.text)
    (.cons (.orElse "mode" Passing.read .value) .nil))

def Parameter.read (depth : Nat) : Reader Parameter :=
  Tree.record "struct Parameter" (Json.inside depth fun _ => fields) fun (name, ty, mode, _) =>
    { name, ty, mode }

def Parameter.toJson (p : Parameter) : Json :=
  .object [("name", .string p.name), ("ty", .string p.ty), ("mode", p.mode.toJson)]

def Parameter.readAll (depth : Nat) : Reader (List Parameter) :=
  Tree.list (Json.inside depth Parameter.read)

/-! ## Signatures -/

def Signature.fields (depth : Nat) : Fields (String × List Parameter × Option String × Unit) :=
  .cons (.required "name" Tree.text) (.cons (.orElse "params" (Parameter.readAll depth) [])
    (.cons (.optional "returns" Tree.text) .nil))

def Signature.read (depth : Nat) : Reader Signature :=
  Tree.record "struct Signature" (Json.inside depth fields) fun (name, params, returns, _) =>
    { name, params, returns }

def Signature.toJson (s : Signature) : Json :=
  .object ([("name", .string s.name), ("params", .array (s.params.map Parameter.toJson))] ++
    Json.member? "returns" (s.returns.map .string))

end ImportBinding
