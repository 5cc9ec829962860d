/-
  ImportBinding — reports as JSON.

  The values of diagnostics and reports, in which what is missing or empty is not written,
  and the readers and values of places and quickfixes.
-/
import ImportBinding.Declaration.Format
import ImportBinding.Patch.Format
import ImportBinding.Report.Basic

namespace ImportBinding

open Json (Fields Reader Tree)

/-! ## Places -/

/-- The field of a place. -/
def Location.fields : Fields (String × Unit) :=
  .cons (.required "ptr" Tree.text) .nil

def Location.read (depth : Nat) : Reader Location := fun t => do
  let (_, rest) ← t.tagged "internally tagged enum Location" "kind" ["decl"] depth
  let (pointer, _) ← Tree.fieldsOf "struct variant Location::Decl" fields rest
  return { pointer }

def Location.toJson (l : Location) : Json :=
  .object [("kind", .string "decl"), ("ptr", .string l.pointer)]

/-! ## Quickfixes -/

/-- The name of the only kind of quickfix. -/
def QuickfixKind.name : QuickfixKind → String
  | jsonPatch => "json_patch"

/-- The reader of a name without a value: a string, or an object whose only member has the
    name for its key and null for its value.  Nothing else starts one, and nothing but a
    string is a key. -/
def Json.Tree.unitVariant (known : List String) (depth : Nat) : Reader String
  | .string l => variant known (.string l)
  | .scalar l => .error (malformed .value (l.start + 1))
  | .array start _ => .error (malformed .value (start + 1))
  | .absent offset next? => .error (absence offset next?)
  | .object start entries =>
    match depth with
    | 0 => .error (tooDeep start)
    | _ + 1 =>
      match entries with
      | .stop _ offset next? => .error (absence offset next?)
      | .noKey found => .error (malformed .key (found.start + 1))
      | .noColon key offset next? => do
        let _ ← variant known (.string key)
        match next? with
        | none => throw (ended .object offset)
        | some _ => throw (malformed .colon (offset + 1))
      | .member key _ value rest => do
        let name ← variant known (.string key)
        match value with
        | .scalar ⟨_, _, .ok .null, _⟩ =>
          match rest with
          | .stop false _ (some 0x7d) => return name
          | .stop false offset none => throw (ended .object offset)
          | .stop _ offset _ => throw (malformed .value offset)
          | .noKey found => throw (malformed .value found.start)
          | .noColon key _ _ | .member key _ _ _ => throw (malformed .value key.start)
        | _ => throw (value.refuse "unit")

def QuickfixKind.read (depth : Nat) : Reader QuickfixKind := fun t => do
  let _ ← t.unitVariant [QuickfixKind.jsonPatch.name] depth
  return .jsonPatch

/-- The fields of a quickfix.  An array that ends before the note is too short. -/
def Quickfix.fields (depth : Nat) :
    Fields (QuickfixKind × List Patch.Op × Option String × Unit) :=
  .cons (.required "kind" (QuickfixKind.read depth)) (.cons (.required "patch" (Patch.read depth))
    (.cons { Json.Field.optional "note" Tree.text with leftOff := none } .nil))

def Quickfix.read (depth : Nat) : Reader Quickfix :=
  Tree.record "struct Quickfix" (Json.inside depth fields) fun (kind, patch, note, _) =>
    { kind, patch, note }

def Quickfix.toJson (q : Quickfix) : Json :=
  .object ([("kind", .string q.kind.name), ("patch", .array (q.patch.map Patch.Op.toJson))] ++
    Json.member? "note" (q.note.map .string))

/-! ## Diagnostics and reports -/

def Severity.name : Severity → String
  | error => "error"
  | warning => "warning"
  | info => "info"

def Stage.name : Stage → String
  | lint => "lint"

def Diagnostic.toJson (d : Diagnostic) : Json :=
  .object ([("code", .string d.code), ("severity", .string d.severity.name),
      ("stage", .string d.stage.name), ("message", .string d.message)] ++
    Json.member? "loc" (d.location.map Location.toJson) ++
    Json.listMember? "notes" (d.notes.map .string) ++
    Json.member? "data" (if d.data.isEmpty then none else some (.object d.data)) ++
    Json.member? "quickfix" (d.quickfix.map Quickfix.toJson))

def Report.toJson (r : Report) : Json :=
  .object [("schema_version", .string r.version), ("ok", .bool r.ok),
    ("diagnostics", .array (r.diagnostics.map Diagnostic.toJson))]

end ImportBinding
