/-
  ImportBinding — the calls of a module.

  A module holds its slots in a cell and offers the calls on it: load it, ask for its
  state, attach to it; and for each method a function that forwards to its slot.

  * `cellLines` declares the cell and the calls on it;
  * `forwarderLines` declares the function of a method.
-/
import ImportBinding.Source.Slots

namespace ImportBinding

namespace PlannedMethod

def parameterList (m : PlannedMethod) : String :=
  ", ".intercalate (m.params.map fun p => p.ident ++ ": " ++ p.spellings.definition.typeOf p.ty)

/-- The arguments that the forwarding function hands on. -/
def argumentList (m : PlannedMethod) : String :=
  ", ".intercalate (m.params.map fun p => p.spellings.forward.argument p.ident)

end PlannedMethod

namespace Source

/-- What the documentation says of loading. -/
def loadDoc (required : Bool) : String :=
  if required then "Binds the surface. Fails unless every method resolved."
  else "Binds the surface. A wholly absent provider is tolerated; a partial one fails."

/-- The cell of a module and the calls on it. -/
def cellLines (runtime : Runtime) (required : Bool) : List Line :=
  let cell := runtime.item "ImportCell"
  .empty ::
  block ("static IMPORTS: " ++ cell ++ "<Slots> = " ++ cell ++ "::new(")
    [code (runtime.item "SurfaceMeta" ++ "::new(SURFACE_NAME, REQUIRED),"),
      code "Slots::UNRESOLVED,"] ");" ++
  [.empty, doc (loadDoc required)] ++
  block ("pub fn load() -> ::core::result::Result<(), " ++ runtime.item "LoadError" ++ "> \x7b")
    [code "self::IMPORTS.load()"] "\x7d" ++
  [.empty, doc "True once `load()` found every method."] ++
  block "pub fn is_imported() -> bool \x7b" [code "self::IMPORTS.is_imported()"] "\x7d" ++
  [.empty, doc "State derived by the last `load()`; `NotImported` before the first."] ++
  block ("pub fn import_state() -> " ++ runtime.item "ImportState" ++ " \x7b")
    [code "self::IMPORTS.state()"] "\x7d" ++
  [.empty, doc "Writes slots. Call `load()` afterwards to re-derive the import state.", doc "",
    doc "`bind` runs with the surface locked: it must not call back into this module."] ++
  block "pub fn attach<R>(bind: impl FnOnce(&mut Slots) -> R) -> R \x7b"
    [code "self::IMPORTS.attach(bind)"] "\x7d"

/-- The function that forwards to the slot of a method. -/
def forwarderLines (runtime : Runtime) (surface : String) (m : PlannedMethod) : List Line :=
  [.empty, doc ("Forwards to `" ++ m.shape surface ++ "`.")] ++
  block ("pub fn " ++ m.ident ++ "(" ++ m.parameterList ++ ") -> ::core::result::Result<" ++
      m.returns.getD "()" ++ ", " ++ runtime.item "ImportError" ++ "> \x7b")
    [code ("::core::result::Result::Ok((self::IMPORTS.forward(" ++ Text.quote m.name ++
      ", |__slots| __slots." ++ m.ident ++ ")?)(" ++ m.argumentList ++ "))")] "\x7d"

end Source

end ImportBinding
