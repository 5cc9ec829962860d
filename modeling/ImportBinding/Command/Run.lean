/-
  ImportBinding — running commands.

  A command reads a document, does its work on it, and writes or puts out what came of it.
  Nothing is written before everything that can fail on the document has been done.

  * `Command.source` and `Command.fixed` are the work on the bytes of a document;
  * `Command.run` is a command, whatever holds the files.
-/
import ImportBinding.Command.Manifest
import ImportBinding.Conformance
import ImportBinding.Digest
import ImportBinding.Report.Format

namespace ImportBinding.Command

/-! ## On the bytes of a document -/

def document (path : String) (text : List UInt8) : Except Failure Document :=
  (Document.parse text).mapError (.noDocument path text)

/-- The source generated from the bytes of a document. -/
def source (options : Source.Options) (path : String) (text : List UInt8) :
    Except Failure String := do
  let d ← document path text
  let file := File.generate options (some (sha256 text)) d.surfaces
  if file.isOk then return file.source else throw (.rejected path file.errors)

/-- The bytes of a document after its quickfixes. -/
def fixed (path : String) (text : List UInt8) : Except Failure String := do
  let d ← document path text
  let v ← (Json.ofText text).mapError (.noJson path text)
  match d.check.applyQuickfixes v with
  | (w, .ok _) => return w.pretty ++ "\n"
  | (_, .error fault) => throw (.notFixed path fault)

/-! ## On files -/

section
variable {m : Type → Type} [Monad m] [Files m]

/-- An access to a file, as a step of a command. -/
def access {α : Type} (what : Access) (path : String) (act : m (Except FileFault α)) :
    ExceptT Failure m α := do
  match ← (act : ExceptT Failure m (Except FileFault α)) with
  | .ok a => return a
  | .error fault => throw (.file what path fault)

def readText (path : String) : m (Except FileFault String) := do
  match ← Files.read path with
  | .error fault => return .error fault
  | .ok bytes =>
    match String.fromUTF8? ⟨bytes.toArray⟩ with
    | some s => return .ok s
    | none => return .error .notText

/-- Writes generated source, or compares it with what is there. -/
def writeSource (out source : String) (dry : Bool) : ExceptT Failure m Unit := do
  if dry then
    let current ← access .readOutput out (readText out)
    if current ≠ source then throw (.differs out)
  else
    match Path.parent? out with
    | some directory => access .makeDirectory directory (Files.makeDirectories directory)
    | none => pure ()
    access .writeOutput out (Files.write out (Json.bytes source))

def runGenerate (decls out : String) (options : Source.Options) (dry : Bool) :
    ExceptT Failure m Unit := do
  let text ← access .readDocument decls (Files.read decls)
  writeSource out (← source options decls text) dry

def runCheck (decls : String) : ExceptT Failure m Unit := do
  let text ← access .readDocument decls (Files.read decls)
  let report := (← document decls text).check
  (Files.print (report.toJson.pretty ++ "\n") : m Unit)
  if !report.isClean then throw (.flawed decls report.diagnostics.length)

def runFix (decls : String) (write : Bool) : ExceptT Failure m Unit := do
  let text ← access .readDocument decls (Files.read decls)
  let out ← fixed decls text
  if write then access .writeDocument decls (Files.write decls (Json.bytes out))
  else (Files.print out : m Unit)

/-- The manifest in the bytes of a file. -/
def manifest (path : String) (text : List UInt8) : Except Failure Manifest := do
  let m ← (Json.readAll (Manifest.read Json.maxDepth) text).mapError (.noManifest path text)
  if Text.trim m.version = Manifest.knownVersion then return m
  else throw (.manifestVersion Manifest.knownVersion m.version)

/-- Generates the file of an entry of a manifest that lies in `base`. -/
def runEntry (base : String) (dry : Bool) (index : Nat) (e : Manifest.Entry) :
    ExceptT Failure m Unit :=
  ExceptT.adapt (.entry index e.decls) <|
    runGenerate (Path.join base e.decls) (Path.join base e.out) e.options dry

/-- Generates the files of entries, which have the numbers from `index` on. -/
def runEntries (base : String) (dry : Bool) (index : Nat) :
    List Manifest.Entry → ExceptT Failure m Unit
  | [] => pure ()
  | e :: rest => do
    runEntry base dry index e
    runEntries base dry (index + 1) rest

def runBatch (path : String) (dry : Bool) : ExceptT Failure m Unit := do
  let text ← access .readManifest path (Files.read path)
  let m ← manifest path text
  runEntries ((Path.parent? path).getD "") dry 0 m.entries

def run : Command → ExceptT Failure m Unit
  | generate decls out options dry => runGenerate decls out options dry
  | check decls => runCheck decls
  | fix decls write => runFix decls write
  | batch manifest dry => runBatch manifest dry

end

end ImportBinding.Command
