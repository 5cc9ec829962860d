/-
  ImportBinding — what goes wrong when a surface is bound or called.

  * `CallError` is why a slot did not resolve or a call cannot run;
  * `LoadError` is why a surface did not load: one error for each slot;
  * both have a wording that says what to do about it.
-/
import ImportBinding.Binding.State

namespace ImportBinding.Binding

/-- Why a slot did not resolve or a call cannot run. -/
inductive CallError where
  /-- Nothing was loaded yet. -/
  | notLoaded (surface method : String)
  /-- Loading found no provider. -/
  | notImported (surface method : String)
  /-- The state allows no call, or the slot was emptied. -/
  | unavailable (surface method : String) (state : State)
  /-- The slot was empty when the surface was loaded. -/
  | unresolved (surface method : String) (present : Bool)
  /-- More slots resolved than there are. -/
  | invariantViolation (surface : String) (resolved expected : Nat)
  deriving DecidableEq, Repr

namespace CallError

def surface : CallError → String
  | notLoaded s _ | notImported s _ | unavailable s _ _ | unresolved s _ _
  | invariantViolation s _ _ => s

/-- The method of an error, when there is one. -/
def method? : CallError → Option String
  | notLoaded _ m | notImported _ m | unavailable _ m _ | unresolved _ m _ => some m
  | invariantViolation _ _ _ => none

/-- A name as messages mark it. -/
def marked (name : String) : String :=
  "\"" ++ name ++ "\""

/-- A method of a surface as messages mark it. -/
def call (surface method : String) : String :=
  marked (surface ++ "." ++ method)

/-- Whether the whole surface is missing, in words. -/
def presence (present : Bool) : String :=
  if present then "the surface is present but this method is missing"
  else "the surface is not present at all"

def message : CallError → String
  | notLoaded s m =>
    "import surface " ++ marked s ++ " has not been loaded yet; call load() before calling " ++
      call s m
  | notImported s m =>
    "import surface " ++ marked s ++ " was not successfully imported, so " ++ call s m ++
      " cannot be called; check is_imported() before calling it"
  | unavailable s m state =>
    call s m ++ " is unavailable while import surface " ++ marked s ++ " is in state " ++
      state.name ++ "; inspect import_state() to diagnose the binding"
  | unresolved s m present =>
    call s m ++ " did not resolve (" ++ presence present ++
      "); check that the surface is present and that its method signatures match"
  | invariantViolation s resolved expected =>
    "import surface " ++ marked s ++ " reported " ++ Nat.repr resolved ++
      " resolved slots out of " ++ Nat.repr expected ++
      "; this is a bug in modimport, please report it upstream"

end CallError

/-- Why a surface did not load. -/
structure LoadError where
  surface : String
  state : State
  errors : List CallError
  deriving DecidableEq, Repr

namespace LoadError

/-- The methods whose slots were empty, in their order. -/
def unresolved (e : LoadError) : List String :=
  e.errors.filterMap fun
    | .unresolved _ method _ => some method
    | _ => none

def message (e : LoadError) : String :=
  "failed to load import surface " ++ CallError.marked e.surface ++ " (" ++ e.state.name ++ "): " ++
    "; ".intercalate (e.errors.map CallError.message)

end LoadError

end ImportBinding.Binding
