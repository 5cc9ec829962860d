/-
  ImportBinding — import surfaces.

  A surface is a set of methods that a provider may or may not supply at run time.  It
  has a name, a policy, the name of the module generated for it, and signatures.

  * `Surface` is all that the generator needs for one module;
  * `Rejection` is why a surface gets no module, `Rejection.message` its wording.
-/
import ImportBinding.Identifier
import ImportBinding.Passing
import ImportBinding.Text.Quoted

namespace ImportBinding

/-- The name and the policy of a surface. -/
structure Metadata where
  surface : String
  /-- Whether loading fails when the surface is absent. -/
  required : Bool
  deriving DecidableEq, Repr

structure Parameter where
  name : String
  ty : String
  mode : Passing
  deriving DecidableEq, Repr

/-- A method of a surface; one without `returns` returns nothing. -/
structure Signature where
  name : String
  params : List Parameter
  returns : Option String
  deriving DecidableEq, Repr

/-- A surface.  The order of the signatures fixes the names of overloads and the order in
    which they are emitted. -/
structure Surface where
  metadata : Metadata
  /-- The name of the generated module. -/
  module : String
  signatures : List Signature
  deriving DecidableEq, Repr

def Signature.returnsNothing (s : Signature) : Bool :=
  s.returns.isNone

/-! ## Rejections -/

/-- A place where a type is written. -/
inductive TypePlace where
  | returns
  | parameter (name : String)
  deriving DecidableEq, Repr

/-- A place where a name is spelled as an identifier. -/
inductive NamePlace where
  | module
  | method
  | parameter (owner : String)
  deriving DecidableEq, Repr

/-- Why a surface gets no module. -/
inductive Rejection where
  | metadata (container reason : String)
  | unsupportedMode (surface method parameter mode : String)
  | emptyType (surface method : String) (place : TypePlace)
  | badIdentifier (surface name : String) (place : NamePlace) (fault : Identifier.Fault)
  | reservedName (surface method : String)
  | shadowedType (surface item method : String)
  | duplicateParameter (surface method parameter : String)
  | duplicateModule (surface module other : String)
  deriving DecidableEq, Repr

def TypePlace.text : TypePlace → String
  | returns => "return type"
  | parameter name => "parameter " ++ Text.quote name

def NamePlace.text : NamePlace → String
  | module => "module name"
  | method => "method name"
  | parameter owner => "parameter of " ++ owner

namespace Rejection

/-- The surface that is rejected, where it is known. -/
def surface? : Rejection → Option String
  | metadata _ _ => none
  | unsupportedMode surface _ _ _ | emptyType surface _ _ | badIdentifier surface _ _ _
  | reservedName surface _ | shadowedType surface _ _ | duplicateParameter surface _ _
  | duplicateModule surface _ _ => some surface

/-- The start of a message about a surface. -/
def about (surface : String) : String :=
  "surface " ++ Text.quote surface ++ ": "

def message : Rejection → String
  | metadata container reason =>
    "malformed import metadata on container " ++ Text.quote container ++ ": " ++ reason
  | unsupportedMode surface method parameter mode =>
    about surface ++ "parameter " ++ Text.quote parameter ++ " of method " ++ Text.quote method ++
      " uses unsupported passing mode " ++ Text.quote mode
  | emptyType surface method place =>
    about surface ++ place.text ++ " of method " ++ Text.quote method ++ " has an empty type"
  | badIdentifier surface name place fault =>
    about surface ++ Text.quote name ++ " cannot be used as a Rust identifier (" ++ place.text ++
      ": " ++ fault.message ++ ")"
  | reservedName surface method =>
    about surface ++ "method " ++ Text.quote method ++
      " collides with a generated item of the same name"
  | shadowedType surface item method =>
    about surface ++ "generated item " ++ Text.quote item ++
      " would shadow the type of the same name used by method " ++ Text.quote method ++
      "; rename the method or the type"
  | duplicateParameter surface method parameter =>
    about surface ++ "method " ++ Text.quote method ++ " declares parameter " ++
      Text.quote parameter ++ " more than once"
  | duplicateModule surface module other =>
    about surface ++ "module name " ++ Text.quote module ++ " is already used by surface " ++
      Text.quote other

end Rejection

/-- The spellings of a parameter's mode in a method of a surface. -/
def Parameter.projection (surface method : String) (p : Parameter) : Except Rejection Projection :=
  match p.mode.projection? with
  | some projection => .ok projection
  | none => .error (.unsupportedMode surface method p.name p.mode.spelling)

end ImportBinding
