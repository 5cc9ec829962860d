/-
  ImportBinding — declaration documents as JSON.

  The readers and the values of marks, methods, containers and documents.  What is missing
  stands for nothing: no mark, no body, no methods.  An empty list of methods, containers
  or parameters is not written.

  * `Document.parse` reads the bytes of a document and checks its version;
  * `Document.toJson` is the value of a document.
-/
import ImportBinding.Declaration.Basic
import ImportBinding.Surface.Format

namespace ImportBinding

open Json (Fields Reader Tree)

/-- The member of a name with a list for its value, unless the list is empty. -/
def Json.listMember? (name : String) (items : List Json) : Json.Members :=
  Json.member? name (if items.isEmpty then none else some (.array items))

/-! ## Marks -/

def ImportMark.fields : Fields (Option String × Option Bool × Unit) :=
  .cons (.optional "surface" Tree.text) (.cons (.optional "required" Tree.boolean) .nil)

def ImportMark.read (depth : Nat) : Reader ImportMark :=
  Tree.record "struct ImportAttr" (Json.inside depth fun _ => fields) fun (surface, required, _) =>
    { surface, required }

def ImportMark.toJson (m : ImportMark) : Json :=
  .object (Json.member? "surface" (m.surface.map .string) ++
    Json.member? "required" (m.required.map .bool))

/-! ## Methods -/

def Method.fields (depth : Nat) :
    Fields (String × Bool × List Parameter × Option String × Option Json × Unit) :=
  .cons (.required "name" Tree.text) (.cons (.orElse "partial" Tree.boolean false)
    (.cons (.orElse "params" (Parameter.readAll depth) []) (.cons (.optional "returns" Tree.text)
      (.cons (.optional "body" (Tree.value depth)) .nil))))

def Method.read (depth : Nat) : Reader Method :=
  Tree.record "struct MethodDecl" (Json.inside depth fields)
    fun (name, isPartial, params, returns, body, _) => { name, isPartial, params, returns, body }

def Method.toJson (m : Method) : Json :=
  .object ([("name", .string m.name), ("partial", .bool m.isPartial)] ++
    Json.listMember? "params" (m.params.map Parameter.toJson) ++
    Json.member? "returns" (m.returns.map .string) ++ Json.member? "body" m.body)

/-! ## Containers -/

/-- The fields of a container, inside which `depth` brackets may be opened; `nested` reads
    the containers in it. -/
def Container.fields (depth : Nat) (nested : Reader (List Container)) :
    Fields (String × Bool × Option ImportMark × List Method × List Container × Unit) :=
  .cons (.required "name" Tree.text) (.cons (.orElse "partial" Tree.boolean false)
    (.cons (.optional "import" (ImportMark.read depth))
      (.cons (.orElse "methods" (Tree.list (Json.inside depth Method.read)) [])
        (.cons (.orElse "containers" nested []) .nil))))

def Container.ofFields :
    String × Bool × Option ImportMark × List Method × List Container × Unit → Container
  | (name, isPartial, mark, methods, containers, _) =>
    { name, isPartial, mark, methods, containers }

/-- The reader of a container.  Two brackets, its own and that of the list, lie between it
    and a container in it. -/
def Container.read : Nat → Reader Container
  | 0 => Tree.record "struct ContainerDecl" none ofFields
  | 1 => Tree.record "struct ContainerDecl" (some (fields 0 (Tree.list none))) ofFields
  | d + 2 =>
    Tree.record "struct ContainerDecl" (some (fields (d + 1) (Tree.list (some (read d))))) ofFields

mutual

def Container.toJson : Container → Json
  | ⟨name, isPartial, mark, methods, containers⟩ =>
    .object ([("name", .string name), ("partial", .bool isPartial)] ++
      Json.member? "import" (mark.map ImportMark.toJson) ++
      Json.listMember? "methods" (methods.map Method.toJson) ++
      Json.listMember? "containers" (containersToJson containers))

def containersToJson : List Container → List Json
  | [] => []
  | c :: rest => c.toJson :: containersToJson rest

end

/-! ## Documents -/

namespace Document

def fields (depth : Nat) : Fields (String × List Container × Unit) :=
  .cons (.required "schema_version" Tree.text)
    (.cons (.orElse "containers" (Tree.list (Json.inside depth Container.read)) []) .nil)

/-- The reader of a document, of any version. -/
def read (depth : Nat) : Reader Document :=
  Tree.record "struct DeclDocument" (Json.inside depth fields) fun (version, containers, _) =>
    { version, containers }

def toJson (d : Document) : Json :=
  .object [("schema_version", .string d.version),
    ("containers", .array (containersToJson d.containers))]

/-- Why bytes are no document. -/
inductive Fault where
  | json (fault : Json.Fault)
  | version (found : String)
  deriving DecidableEq, Repr

/-- The wording of a version that is not the known one. -/
def versionMessage (what expected found : String) : String :=
  what ++ " schema_version mismatch: expected " ++ expected ++ " got " ++ Text.quote found

/-- The document in some bytes.  Blanks around the version do not count. -/
def parse (text : List UInt8) : Except Fault Document := do
  let d ← (Json.readAll (read Json.maxDepth) text).mapError .json
  if Text.trim d.version = knownVersion then return d else throw (.version d.version)

end Document

end ImportBinding
