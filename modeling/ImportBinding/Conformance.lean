/-
  ImportBinding — the conditions on sites.

  Generated members are added to a marked container.  So it and every container around it
  must be partial, and its methods must be partial and have no body.

  * `Site.flaws` are the violations at a site, those of the containers around it first;
  * `Site.diagnostic?` is the diagnostic of a site with flaws, and offers a quickfix with
    one operation for each;
  * `Document.check` is the report of a document.
-/
import ImportBinding.Declaration.Format
import ImportBinding.Report.Basic

namespace ImportBinding

/-- A violation at a site. -/
inductive Flaw where
  /-- A container around the site is not partial. -/
  | around (place : Place)
  /-- The site is not partial. -/
  | container (place : Place)
  /-- A method, with its pointer, is not partial. -/
  | method (method : Method) (pointer : Json.Pointer)
  /-- A method, with its pointer, has a body. -/
  | body (method : Method) (pointer : Json.Pointer)
  deriving Repr

namespace Flaw

def note : Flaw → String
  | around place => "enclosing container " ++ Text.quote place.container.name ++ " is not partial"
  | container place => "container " ++ Text.quote place.container.name ++ " is not partial"
  | method m _ => "method " ++ Text.quote m.name ++ " is not a partial declaration"
  | body m _ => "method " ++ Text.quote m.name ++ " has a body"

/-- Marks the value at a pointer as partial. -/
def markPartial (p : Json.Pointer) : Patch.Op :=
  .add (Json.Pointer.text (p ++ ["partial"])) (.bool true)

def fix : Flaw → Patch.Op
  | around place | container place => markPartial place.pointer
  | method _ p => markPartial p
  | body _ p => .remove (Json.Pointer.text (p ++ ["body"]))

end Flaw

def Method.flaws (m : Method) (p : Json.Pointer) : List Flaw :=
  (if m.isPartial then [] else [.method m p]) ++ if m.body.isNone then [] else [.body m p]

/-- The flaws of the methods of the value at `p`, which have the numbers from `i` on. -/
def methodFlaws (p : Json.Pointer) (i : Nat) : List Method → List Flaw
  | [] => []
  | m :: rest => m.flaws (childPointer p "methods" i) ++ methodFlaws p (i + 1) rest

namespace Site

def flaws (s : Site) : List Flaw :=
  (s.around.filter (!·.container.isPartial)).map .around ++
    (if s.container.isPartial then [] else [.container ⟨s.container, s.pointer⟩]) ++
    methodFlaws s.pointer 0 s.container.methods

/-- The code of the conditions. -/
def code : String :=
  "MI0001"

/-- The quickfix of a site with some flaws. -/
def quickfix (flaws : List Flaw) : Quickfix :=
  { kind := .jsonPatch
    patch := flaws.map Flaw.fix
    note := some "Make container and enclosing containers partial and strip method bodies" }

/-- The diagnostic of a site, if it has flaws. -/
def diagnostic? (s : Site) : Option Diagnostic :=
  match s.flaws with
  | [] => none
  | flaws => some {
      code
      severity := .warning
      stage := .lint
      message := "import container " ++ Text.quote s.container.name ++
        " must be partial, nested only in partial containers, and declare only partial " ++
        "methods without bodies"
      location := some ⟨Json.Pointer.text s.pointer⟩
      notes := flaws.map Flaw.note
      data := [("container", .string s.container.name),
        ("surface", .string (s.mark.surface.getD ""))]
      quickfix := some (quickfix flaws) }

end Site

def Document.check (d : Document) : Report :=
  .ofDiagnostics (d.sites.filterMap Site.diagnostic?)

end ImportBinding
