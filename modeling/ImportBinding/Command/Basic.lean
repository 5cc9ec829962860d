/-
  ImportBinding — commands.

  * `Command` is what can be asked for: generate one file or many, check a document, or fix
    it;
  * `Failure` is why a command fails, `Failure.message` its wording, from the outermost
    circumstance to the cause.
-/
import ImportBinding.Declaration.Format
import ImportBinding.Files.Basic
import ImportBinding.Patch.Basic
import ImportBinding.Source.Module

namespace ImportBinding

inductive Command where
  /-- Generates the file `out` from the document `decls`; a dry run only compares it. -/
  | generate (decls out : String) (options : Source.Options) (dry : Bool)
  | check (decls : String)
  /-- Applies the quickfixes of a document; with `write` in place. -/
  | fix (decls : String) (write : Bool)
  /-- Generates the files of a manifest; a dry run only compares them. -/
  | batch (manifest : String) (dry : Bool)
  deriving Repr

namespace Command

inductive Access where
  | readDocument
  | readOutput
  | readManifest
  | makeDirectory
  | writeOutput
  | writeDocument
  deriving DecidableEq, Repr

def Access.text : Access → String
  | readDocument => "read declarations"
  | readOutput => "read existing output"
  | readManifest => "read manifest"
  | makeDirectory => "create output dir"
  | writeOutput => "write output"
  | writeDocument => "write declarations"

/-- Why a command fails. -/
inductive Failure where
  | file (access : Access) (path : String) (fault : FileFault)
  /-- A file is no document; `text` is what is in it. -/
  | noDocument (path : String) (text : List UInt8) (fault : Document.Fault)
  /-- A file is no JSON text. -/
  | noJson (path : String) (text : List UInt8) (fault : Json.Fault)
  | notFixed (path : String) (fault : Patch.Fault)
  | rejected (path : String) (rejections : List Rejection)
  | differs (path : String)
  | flawed (path : String) (count : Nat)
  /-- A file is no manifest. -/
  | noManifest (path : String) (text : List UInt8) (fault : Json.Fault)
  | manifestVersion (expected found : String)
  /-- An entry of a manifest fails. -/
  | entry (index : Nat) (decls : String) (cause : Failure)
  deriving Repr

/-- The wording of what keeps bytes from being a document.  A fault of the text shows twice,
    as what went wrong and as its cause. -/
def documentMessage (text : List UInt8) : Document.Fault → String
  | .json fault =>
    "parse declaration document JSON: " ++ fault.display text ++ ": " ++ fault.display text
  | .version found =>
    Document.versionMessage "declaration document" Document.knownVersion found

def Failure.message : Failure → String
  | file access path fault => access.text ++ ": " ++ path ++ ": " ++ fault.message
  | noDocument path text fault =>
    "parse declarations: " ++ path ++ ": " ++ documentMessage text fault
  | noJson path text fault => "parse declarations: " ++ path ++ ": " ++ fault.display text
  | notFixed path fault => "apply quickfixes: " ++ path ++ ": " ++ fault.message
  | rejected path rejections =>
    Nat.repr rejections.length ++ " import surface(s) failed to generate from " ++ path ++ ":\n" ++
      "\n".intercalate (rejections.map fun r => "  " ++ r.message)
  | differs path => "generated output differs: " ++ path
  | flawed path count => Nat.repr count ++ " diagnostic(s) reported for " ++ path
  | noManifest path text fault => "parse manifest JSON: " ++ path ++ ": " ++ fault.display text
  | manifestVersion expected found => Document.versionMessage "manifest" expected found
  | entry index decls cause =>
    "manifest entry[" ++ Nat.repr index ++ "] " ++ decls ++ ": " ++ cause.message

end Command

end ImportBinding
