/-
  ImportBinding — declaration documents.

  A document holds containers, which nest and declare methods.  A container with a mark
  is a surface; its methods that are partial and have no body are the ones it imports.

  * `Document.sites` are the marked containers in depth-first order, each with its
    pointer and the containers around it;
  * `Site.surface` is the surface of one, or why there is none;
  * `Document.repair` is the document in which every site is well-formed.
-/
import ImportBinding.Json.Pointer
import ImportBinding.Surface.Basic
import ImportBinding.Text.Blank

namespace ImportBinding

/-- The mark that makes a container a surface. -/
structure ImportMark where
  surface : Option String
  required : Option Bool
  deriving DecidableEq, Repr

structure Method where
  name : String
  isPartial : Bool
  params : List Parameter
  returns : Option String
  /-- There is one when the method is implemented. -/
  body : Option Json
  deriving Repr

structure Container where
  name : String
  /-- Whether generated members may be added. -/
  isPartial : Bool
  mark : Option ImportMark
  methods : List Method
  containers : List Container
  deriving Repr

structure Document where
  version : String
  containers : List Container
  deriving Repr

def Document.knownVersion : String :=
  "modimport.decls@0.1.0"

namespace Method

/-- A partial declaration without a body is imported. -/
def isImported (m : Method) : Bool :=
  m.isPartial && m.body.isNone

def signature (m : Method) : Signature :=
  { name := m.name, params := m.params, returns := m.returns }

end Method

/-! ## Sites -/

/-- A container with its pointer. -/
structure Place where
  container : Container
  pointer : Json.Pointer
  deriving Repr

/-- A marked container, where it is, and the containers around it, outermost first. -/
structure Site where
  container : Container
  mark : ImportMark
  pointer : Json.Pointer
  around : List Place
  deriving Repr

/-- The pointer of the `i`-th item of a list that is the member `key` of the value at `p`. -/
def childPointer (p : Json.Pointer) (key : String) (i : Nat) : Json.Pointer :=
  p ++ [key, Nat.repr i]

mutual

/-- The sites in a container and below, the container's own first. -/
def Container.sites (p : Json.Pointer) (around : List Place) : Container → List Site
  | ⟨name, isPartial, mark, methods, containers⟩ =>
    let c : Container := ⟨name, isPartial, mark, methods, containers⟩
    let own := match mark with
      | some mark => [⟨c, mark, p, around⟩]
      | none => []
    own ++ sitesFrom p (around ++ [⟨c, p⟩]) 0 containers

/-- The sites in the containers of the value at `p`, which have the numbers from `i` on. -/
def sitesFrom (p : Json.Pointer) (around : List Place) (i : Nat) : List Container → List Site
  | [] => []
  | c :: rest =>
    c.sites (childPointer p "containers" i) around ++ sitesFrom p around (i + 1) rest

end

def Document.sites (d : Document) : List Site :=
  sitesFrom [] [] 0 d.containers

/-! ## Surfaces -/

/-- The name of the surface that a mark gives, when it gives one that is not blank. -/
def ImportMark.name? (m : ImportMark) : Option String :=
  (m.surface.map Text.trim).filter (· ≠ "")

/-- The surface of a site. -/
def Site.surface (s : Site) : Except Rejection Surface :=
  match s.mark.name? with
  | none => .error (.metadata s.container.name "import surface name is missing or empty")
  | some name => .ok {
      metadata := { surface := name, required := s.mark.required.getD false }
      module := moduleName s.container.name
      signatures := (s.container.methods.filter Method.isImported).map Method.signature }

/-- The surfaces of a document, one for each site. -/
def Document.surfaces (d : Document) : List (Except Rejection Surface) :=
  d.sites.map Site.surface

/-! ## Repair -/

/-- The method as a site needs it. -/
def Method.repair (m : Method) : Method :=
  { m with isPartial := true, body := none }

mutual

/-- Whether a container or one below it is marked. -/
def Container.hasMark : Container → Bool
  | ⟨_, _, mark, _, containers⟩ => mark.isSome || anyMark containers

/-- Whether one of the containers, or one below them, is marked. -/
def anyMark : List Container → Bool
  | [] => false
  | c :: rest => c.hasMark || anyMark rest

end

mutual

/-- The container in which every site is well-formed: the marked ones and those around them
    are partial, and the methods of the marked ones are partial and have no body. -/
def Container.repair : Container → Container
  | ⟨name, isPartial, mark, methods, containers⟩ =>
    { name
      isPartial := isPartial || mark.isSome || anyMark containers
      mark
      methods := if mark.isSome then methods.map Method.repair else methods
      containers := repairAll containers }

/-- The containers in which every site is well-formed. -/
def repairAll : List Container → List Container
  | [] => []
  | c :: rest => c.repair :: repairAll rest

end

/-- The document in which every site is well-formed, and that is otherwise the same. -/
def Document.repair (d : Document) : Document :=
  { d with containers := repairAll d.containers }

end ImportBinding
