/-
  ImportBinding — the plan of a module.

  A surface is checked and named before anything is written.  The checks go in the order
  surface name, module name, then method by method: reserved name, identifier, return
  type, and parameter by parameter: repetition, type, mode, identifier.  Last come the
  types that a generated item would shadow.

  * `Surface.plan` gives the plan of a module or the first rejection;
  * `Plan` holds what the source needs and nothing that can fail.
-/
import ImportBinding.Naming
import ImportBinding.Surface.Basic
import ImportBinding.Text.Blank

namespace ImportBinding

/-- A parameter of a planned method. -/
structure PlannedParameter where
  name : String
  ident : String
  ty : String
  spellings : Projection
  deriving DecidableEq, Repr

/-- A method of a planned module. -/
structure PlannedMethod where
  /-- The name that its signature declares. -/
  plain : String
  /-- The name of its slot, its own in the module. -/
  name : String
  ident : String
  params : List PlannedParameter
  returns : Option String
  deriving DecidableEq, Repr

structure Plan where
  metadata : Metadata
  module : String
  methods : List PlannedMethod
  deriving DecidableEq, Repr

/-- The items that every module generates beside its methods. -/
def reservedItems : List String :=
  ["IMPORTS", "SURFACE_NAME", "REQUIRED", "load", "is_imported", "import_state", "attach"]

/-- The name of the slots of a module. -/
def slotsName : String :=
  "Slots"

namespace PlannedMethod

/-- The name of the type of the method's slot. -/
def typeName (m : PlannedMethod) : String :=
  m.name ++ "Fn"

def types (m : PlannedMethod) : List String :=
  m.params.map PlannedParameter.ty ++ m.returns.toList

/-- Whether one of the types has the identifier `item` in it. -/
def mentions (m : PlannedMethod) (item : String) : Bool :=
  m.types.any fun ty => (Text.runs Identifier.isPart ty).contains item

end PlannedMethod

/-- A text without blanks at its ends, unless nothing is left. -/
def trimmedType? (ty : String) : Option String :=
  some (Text.trim ty) |>.filter (· ≠ "")

/-- The spelling of a name at a place. -/
def spellAt (surface name : String) (place : NamePlace) : Except Rejection String :=
  (Identifier.spell name).mapError (.badIdentifier surface name place)

/-- The plan of a parameter, when those named `seen` went before. -/
def Parameter.plan (surface method : String) (seen : List String) (p : Parameter) :
    Except Rejection PlannedParameter := do
  if seen.contains p.name then throw (.duplicateParameter surface method p.name)
  match trimmedType? p.ty with
  | none => throw (.emptyType surface method (.parameter p.name))
  | some ty =>
    let spellings ← p.projection surface method
    let ident ← spellAt surface p.name (.parameter method)
    return { name := p.name, ident, ty, spellings }

/-- The plans of parameters, when those named `seen` went before. -/
def planParameters (surface method : String) (seen : List String) :
    List Parameter → Except Rejection (List PlannedParameter)
  | [] => .ok []
  | p :: rest => do
    let planned ← p.plan surface method seen
    let more ← planParameters surface method (p.name :: seen) rest
    return planned :: more

def planReturns (surface method : String) : Option String → Except Rejection (Option String)
  | none => .ok none
  | some ty =>
    match trimmedType? ty with
    | none => .error (.emptyType surface method .returns)
    | some ty => .ok (some ty)

/-- The plan of a method that got a name. -/
def Signature.plan (surface name : String) (s : Signature) : Except Rejection PlannedMethod := do
  if reservedItems.contains name then throw (.reservedName surface name)
  let ident ← spellAt surface name .method
  let returns ← planReturns surface s.name s.returns
  let params ← planParameters surface s.name [] s.params
  return { plain := s.name, name, ident, params, returns }

def planMethods (surface : String) :
    List (Signature × String) → Except Rejection (List PlannedMethod)
  | [] => .ok []
  | (s, name) :: rest => do
    let planned ← s.plan surface name
    let more ← planMethods surface rest
    return planned :: more

/-- The types that a module generates, in the order in which they are looked for. -/
def generatedTypes (ms : List PlannedMethod) : List String :=
  ms.map PlannedMethod.typeName ++ [slotsName]

/-- The first generated type that a method mentions, with the first method that does. -/
def shadowed? (ms : List PlannedMethod) : Option (String × String) :=
  (generatedTypes ms).findSome? fun item =>
    (ms.find? (·.mentions item)).map fun m => (item, m.plain)

namespace Surface

/-- The spelling of the module's name, once the surface has a name. -/
def planModule (s : Surface) : Except Rejection String :=
  if Text.Blank s.metadata.surface then
    .error (.metadata s.module "surface name must not be empty")
  else spellAt s.metadata.surface s.module .module

/-- The methods of a module, once they have names. -/
def planNamed (s : Surface) (names : List String) : Except Rejection (List PlannedMethod) := do
  let methods ← planMethods s.metadata.surface (s.signatures.zip names)
  match shadowed? methods with
  | some (item, method) => throw (.shadowedType s.metadata.surface item method)
  | none => return methods

/-- The plan of the module of a surface, and the run of name assignments after it. -/
def plan (s : Surface) (names : Naming) : Except Rejection Plan × Naming :=
  match s.planModule with
  | .error rejection => (.error rejection, names)
  | .ok module =>
    let (assigned, names) := names.assignAll (s.signatures.map Signature.name)
    ((s.planNamed assigned).map fun methods => { metadata := s.metadata, module, methods }, names)

end Surface

end ImportBinding
