/-
  ImportBinding — the slots of a module.

  For each method a module declares a type of callables and a slot, which holds such a
  callable or nothing.  The slots start out empty, and tell their names and which of them
  hold something.

  * `typeLines` declares the types;
  * `slotsLines` declares the slots, their empty state and what they tell.
-/
import ImportBinding.Source.Line
import ImportBinding.Surface.Plan

namespace ImportBinding

namespace PlannedMethod

/-- The result of a method behind an arrow, when it returns something. -/
def arrow (m : PlannedMethod) : String :=
  match m.returns with
  | some ty => " -> " ++ ty
  | none => ""

/-- The method as documentation shows it: `Surface.Method(ref i32 b) -> i32`. -/
def shape (surface : String) (m : PlannedMethod) : String :=
  surface ++ "." ++ m.plain ++ "(" ++
    ", ".intercalate (m.params.map fun p => p.spellings.definition.describe p.ty p.name) ++ ")" ++
    m.arrow

/-- The type of what the method's slot holds. -/
def slotType (m : PlannedMethod) : String :=
  "fn(" ++ ", ".intercalate (m.params.map fun p => p.spellings.slot.typeOf p.ty) ++ ")" ++ m.arrow

end PlannedMethod

namespace Source

/-- What the generated code mentions of the library it runs with. -/
structure Runtime where
  path : String
  deriving DecidableEq, Repr

def Runtime.item (r : Runtime) (name : String) : String :=
  r.path ++ "::" ++ name

def typeLines (surface : String) (m : PlannedMethod) : List Line :=
  [.empty, doc ("Callable shape of `" ++ m.shape surface ++ "`."),
    code ("pub type " ++ m.typeName ++ " = " ++ m.slotType ++ ";")]

def slotLine (m : PlannedMethod) : Line :=
  code ("pub " ++ m.ident ++ ": ::core::option::Option<" ++ m.typeName ++ ">,")

/-- The empty state of the slot of a method. -/
def emptySlotLine (m : PlannedMethod) : Line :=
  code (m.ident ++ ": ::core::option::Option::None,")

def namesLine (ms : List PlannedMethod) : Line :=
  code ("const NAMES: &'static [&'static str] = &[" ++
    ", ".intercalate (ms.map fun m => Text.quote m.name) ++ "];")

/-- Which slots hold something. -/
def resolutionLine (ms : List PlannedMethod) : Line :=
  code ("::std::vec![" ++ ", ".intercalate (ms.map fun m => "self." ++ m.ident ++ ".is_some()") ++
    "]")

def slotsLines (runtime : Runtime) (ms : List PlannedMethod) : List Line :=
  [.empty, doc "Binding table: one slot per imported method, empty until attached.",
    code "#[derive(Clone, Copy, Default)]"] ++
  block "pub struct Slots \x7b" (ms.map slotLine) "\x7d" ++
  .empty ::
  block "impl Slots \x7b"
    (block "pub const UNRESOLVED: Self = Self \x7b" (ms.map emptySlotLine) "\x7d;") "\x7d" ++
  .empty ::
  block ("impl " ++ runtime.item "SlotTable" ++ " for Slots \x7b")
    ([namesLine ms, .empty] ++
      block "fn resolution(&self) -> ::std::vec::Vec<bool> \x7b" [resolutionLine ms] "\x7d") "\x7d"

end Source

end ImportBinding
