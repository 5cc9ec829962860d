/-
  ImportBinding — diagnostics and reports.

  A diagnostic may point to a place in a document and may offer a quickfix, a patch that
  removes its cause.  A report lists diagnostics by place, then by code, then by message,
  and otherwise as they came.

  * `Segment` is what places are compared by: indexes as numbers, and before all keys;
  * `Report.ofDiagnostics` sorts diagnostics into a report;
  * `Report.applyQuickfixes` applies the quickfixes of a report to a document.
-/
import ImportBinding.Patch.Basic

namespace ImportBinding

/-- How grave a diagnostic is. -/
inductive Severity where
  | error
  | warning
  | info
  deriving DecidableEq, Repr

/-- The stage that a diagnostic comes from. -/
inductive Stage where
  | lint
  deriving DecidableEq, Repr

/-- A place in a document: the text of a pointer. -/
structure Location where
  pointer : String
  deriving DecidableEq, Repr

inductive QuickfixKind where
  | jsonPatch
  deriving DecidableEq, Repr

/-- A change that removes the cause of a diagnostic. -/
structure Quickfix where
  kind : QuickfixKind
  patch : List Patch.Op
  note : Option String
  deriving Repr

structure Diagnostic where
  code : String
  severity : Severity
  stage : Stage
  message : String
  location : Option Location
  notes : List String
  data : Json.Members
  quickfix : Option Quickfix
  deriving Repr

/-! ## Order -/

/-- A part of a pointer's text, as places are compared by it. -/
inductive Segment where
  | index (n : Nat)
  | key (s : String)
  deriving DecidableEq, Repr

namespace Segment

/-- The segment with a spelling. -/
def ofString (s : String) : Segment :=
  match Json.index? s with
  | some n => index n
  | none => key s

/-- Indexes come before keys; both kinds have the order of what they hold. -/
def order : Segment → Segment → Ordering
  | index m, index n => compare m n
  | index _, key _ => .lt
  | key _, index _ => .gt
  | key s, key t => compare s t

instance : Ord Segment := ⟨order⟩

end Segment

/-- What a place is compared by: the segments behind the first slash. -/
def placeKey (pointer : String) : List Segment :=
  ((Json.Pointer.segments pointer.toList).drop 1).map fun s => Segment.ofString (.ofList s)

namespace Diagnostic

/-- The text of the pointer of a diagnostic, empty when it points nowhere. -/
def pointer (d : Diagnostic) : String :=
  match d.location with
  | some l => l.pointer
  | none => ""

/-- Compares two diagnostics by place, code and message. -/
def order (a b : Diagnostic) : Ordering :=
  ((compare (placeKey a.pointer) (placeKey b.pointer)).then (compare a.code b.code)).then
    (compare a.message b.message)

end Diagnostic

/-! ## Reports -/

/-- Diagnostics in order. -/
structure Report where
  version : String
  /-- Whether no diagnostic is an error. -/
  ok : Bool
  diagnostics : List Diagnostic
  deriving Repr

namespace Report

def knownVersion : String :=
  "modimport.diag@0.1.0"

def ofDiagnostics (ds : List Diagnostic) : Report :=
  { version := knownVersion
    ok := ds.all (·.severity ≠ .error)
    diagnostics := ds.mergeSort fun a b => (a.order b).isLE }

/-- A report without diagnostics is clean. -/
def isClean (r : Report) : Bool :=
  r.diagnostics.isEmpty

/-- The quickfixes of a report, in its order. -/
def quickfixes (r : Report) : List Quickfix :=
  r.diagnostics.filterMap Diagnostic.quickfix

end Report

/-- The document that some quickfixes leave, and how many were applied, or the fault of the
    one that ended the run. -/
def Quickfix.applyAll : List Quickfix → Json → Json × Except Patch.Fault Nat
  | [], u => (u, .ok 0)
  | q :: rest, u =>
    match Patch.apply q.patch u with
    | (v, none) =>
      let (w, result) := applyAll rest v
      (w, result.map (· + 1))
    | (v, some fault) => (v, .error fault)

/-- The document that the quickfixes of a report leave, and how many there were, or the fault
    of the one that ended the run. -/
def Report.applyQuickfixes (r : Report) (u : Json) : Json × Except Patch.Fault Nat :=
  Quickfix.applyAll r.quickfixes u

/-- Sorting loses and adds nothing. -/
theorem Report.diagnostics_perm (ds : List Diagnostic) :
    (ofDiagnostics ds).diagnostics.Perm ds :=
  List.mergeSort_perm ..

end ImportBinding
