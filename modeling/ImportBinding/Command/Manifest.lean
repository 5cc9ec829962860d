/-
  ImportBinding — manifests.

  A manifest lists documents and the files to generate from them.  Paths in it start from
  the directory that it lies in.
-/
import ImportBinding.Command.Basic

namespace ImportBinding

open Json (Fields Reader Tree)

/-- A document, the file to generate from it, and the path of the library if it is not the
    usual one. -/
structure Manifest.Entry where
  decls : String
  out : String
  runtime : Option String
  deriving DecidableEq, Repr

structure Manifest where
  version : String
  entries : List Manifest.Entry
  deriving DecidableEq, Repr

namespace Manifest

def knownVersion : String :=
  "modimport.manifest@0.1.0"

def Entry.fields : Fields (String × String × Option String × Unit) :=
  .cons (.required "decls" Tree.text) (.cons (.required "out" Tree.text)
    (.cons (.optional "runtime_path" Tree.text) .nil))

def Entry.read (depth : Nat) : Reader Entry :=
  Tree.record "struct ManifestEntry" (Json.inside depth fun _ => fields)
    fun (decls, out, runtime, _) => { decls, out, runtime }

def fields (depth : Nat) : Fields (String × List Entry × Unit) :=
  .cons (.required "schema_version" Tree.text)
    (.cons (.required "entries" (Tree.list (Json.inside depth Entry.read))) .nil)

/-- The reader of a manifest, of any version. -/
def read (depth : Nat) : Reader Manifest :=
  Tree.record "struct Manifest" (Json.inside depth fields) fun (version, entries, _) =>
    { version, entries }

/-- What is chosen about the source of an entry. -/
def Entry.options (e : Entry) : Source.Options :=
  match e.runtime with
  | some path => { runtime := ⟨path⟩ }
  | none => {}

end Manifest

end ImportBinding
