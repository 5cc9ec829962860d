/-
  ImportBinding — generated modules and files.

  A surface becomes one module.  Several surfaces are generated each on its own: one that
  is rejected leaves the others as they are, and a module's name belongs to the first
  surface that was generated under it.

  * `Plan.lines` is the source of a planned module, `Surface.generate` that of a surface;
  * `generateAll` gives one result for each surface, `File.generate` one file for all.
-/
import ImportBinding.Source.Calls

namespace ImportBinding

namespace Source

/-- What can be chosen about generated source. -/
structure Options where
  /-- The library that generated code runs with. -/
  runtime : Runtime := ⟨"::modimport_rt"⟩
  /-- Whether items are documented. -/
  docs : Bool := true
  /-- Whether a module sees the items of the module around it. -/
  importParent : Bool := true
  deriving DecidableEq, Repr

/-- The name of a policy. -/
def policy (required : Bool) : String :=
  if required then "required" else "optional"

end Source

open Source

/-- The source of a planned module, documentation included. -/
def Plan.lines (options : Options) (p : Plan) : List Line :=
  let surface := p.metadata.surface
  let required := p.metadata.required
  doc ("Import surface `" ++ surface ++ "` (" ++ policy required ++ ").") ::
  block ("pub mod " ++ p.module ++ " \x7b")
    ([code "#![allow(non_snake_case, non_camel_case_types, dead_code, unused_imports)]", .empty] ++
      (if options.importParent then [code "use super::*;", .empty] else []) ++
      [code ("pub const SURFACE_NAME: &str = " ++ Text.quote surface ++ ";"),
        code ("pub const REQUIRED: bool = " ++ (if required then "true" else "false") ++ ";")] ++
      p.methods.flatMap (typeLines surface) ++
      slotsLines options.runtime p.methods ++
      cellLines options.runtime required ++
      p.methods.flatMap (forwarderLines options.runtime surface))
    "\x7d"

def Plan.source (options : Options) (p : Plan) : String :=
  let lines := p.lines options
  render (if options.docs then lines else withoutDocs lines)

/-- The module of a surface, and the run of name assignments after it. -/
def Surface.generate (options : Options) (s : Surface) (names : Naming) :
    Except Rejection String × Naming :=
  let (plan, names) := s.plan names
  (plan.map (Plan.source options), names)

/-! ## Several surfaces -/

structure Generated where
  surface : String
  module : String
  source : String
  deriving DecidableEq, Repr

/-- The module of a surface when `owners` tells which surfaces own which modules. -/
def generateOne (options : Options) (owners : List (String × String)) (s : Surface) :
    Except Rejection Generated :=
  match owners.lookup s.module with
  | some other => .error (.duplicateModule s.metadata.surface s.module other)
  | none =>
    (s.generate options .empty).1.map fun source =>
      { surface := s.metadata.surface, module := s.module, source }

/-- The results of surfaces, when `owners` tells which surfaces own which modules. -/
def generateFrom (options : Options) (owners : List (String × String)) :
    List (Except Rejection Surface) → List (Except Rejection Generated)
  | [] => []
  | .error rejection :: rest => .error rejection :: generateFrom options owners rest
  | .ok s :: rest =>
    match generateOne options owners s with
    | .error rejection => .error rejection :: generateFrom options owners rest
    | .ok g => .ok g :: generateFrom options ((g.module, g.surface) :: owners) rest

/-- The results of surfaces, one for each, in order. -/
def generateAll (options : Options) (surfaces : List (Except Rejection Surface)) :
    List (Except Rejection Generated) :=
  generateFrom options [] surfaces

/-! ## Files -/

/-- A file of generated modules. -/
structure File where
  source : String
  modules : List String
  /-- The rejections of the surfaces that are not in it. -/
  errors : List Rejection
  deriving DecidableEq, Repr

namespace File

/-- A file without rejections is whole. -/
def isOk (f : File) : Bool :=
  f.errors.isEmpty

/-- The first lines of a file; `digest` is that of the document it comes from. -/
def header (digest : Option String) : String :=
  "// @generated by modimport. Do not edit.\n" ++
    match digest with
    | some d => "// source-sha256: " ++ d ++ "\n"
    | none => ""

/-- The rejection that a result is, if it is one. -/
def rejection? {α : Type} : Except Rejection α → Option Rejection
  | .error rejection => some rejection
  | .ok _ => none

def ofResults (digest : Option String) (results : List (Except Rejection Generated)) : File :=
  let generated := results.filterMap Except.toOption
  { source := header digest ++ String.join (generated.map fun g => "\n" ++ g.source)
    modules := generated.map Generated.module
    errors := results.filterMap rejection? }

def generate (options : Options) (digest : Option String)
    (surfaces : List (Except Rejection Surface)) : File :=
  ofResults digest (generateAll options surfaces)

end File

end ImportBinding
