/-
  ImportBinding — files, as commands use them.

  * `FileFault` is why an access to a file fails;
  * `Files` are the accesses that a command makes, whatever holds the files;
  * `Path.parent?` and `Path.join` are the operations on paths;
  * `Files.makeDirectories` makes a directory and those it lies in.
-/
namespace ImportBinding

/-- Why an access to a file fails. -/
inductive FileFault where
  | notFound
  | present
  | notDirectory
  | isDirectory
  | nameTooLong
  | nulInName
  | notText
  | other (message : String)
  deriving DecidableEq, Repr

def FileFault.message : FileFault → String
  | notFound => "No such file or directory (os error 2)"
  | present => "File exists (os error 17)"
  | notDirectory => "Not a directory (os error 20)"
  | isDirectory => "Is a directory (os error 21)"
  | nameTooLong => "File name too long (os error 36)"
  | nulInName => "file name contained an unexpected NUL byte"
  | notText => "stream did not contain valid UTF-8"
  | other message => message

/-- The accesses of a command. -/
class Files (m : Type → Type) where
  read : String → m (Except FileFault (List UInt8))
  /-- Replaces the bytes of a file, or makes a new one. -/
  write : String → List UInt8 → m (Except FileFault Unit)
  makeDirectory : String → m (Except FileFault Unit)
  /-- Puts a text out. -/
  print : String → m Unit

/-! ## Paths -/

namespace Path

/-- Whether a path starts at the root. -/
def isAbsolute (path : String) : Bool :=
  path.toList.head? == some '/'

/-- Whether a path ends in a slash, and so asks for a directory. -/
def endsInSlash (path : String) : Bool :=
  path.toList.getLast? == some '/'

/-- The segments of a path between its slashes. -/
def segments (path : String) : List (List Char) :=
  path.toList.splitOnP (· == '/')

/-- The path with the given segments. -/
def ofSegments (ss : List (List Char)) : String :=
  .ofList (['/'].intercalate ss)

/-- The names that a path goes through. -/
def names (path : String) : List String :=
  ((segments path).filter (!·.isEmpty)).map .ofList

/-- A segment that leads nowhere: an empty one, or `.` behind another. -/
def isIdle (first : Bool) (s : List Char) : Bool :=
  s.isEmpty || (!first && s == ['.'])

/-- The segments, given from the last to the first, without the idle ones at the end. -/
def dropIdle : List (List Char) → List (List Char)
  | [] => []
  | s :: rest => if isIdle rest.isEmpty s then dropIdle rest else s :: rest

/-- The path of the directory that a path lies in; none when nothing is left. -/
def parent? (path : String) : Option String :=
  match isAbsolute path, dropIdle (segments path).reverse with
  | _, [] => none
  | absolute, _ :: rest =>
    let front := (dropIdle rest).reverse
    some (if absolute && front.isEmpty then "/" else ofSegments front)

/-- A path seen from another one. -/
def join (base path : String) : String :=
  if isAbsolute path || base = "" then path
  else if endsInSlash base then base ++ path
  else base ++ "/" ++ path

end Path

/-! ## Directories -/

namespace Files

variable {m : Type → Type} [Monad m] [Files m]

/-- Whether a path leads to a directory: reading it fails for that reason. -/
def isDirectory (path : String) : m Bool := do
  match ← read path with
  | .error .isDirectory => return true
  | _ => return false

/-- Takes what came of making a directory: one that was there already will do. -/
def orPresent (path : String) (result : Except FileFault Unit) : m (Except FileFault Unit) := do
  match result with
  | .ok () => return .ok ()
  | .error fault => return if ← isDirectory path then .ok () else .error fault

/-- Makes a directory and those it lies in, `fuel` of them at most.  What was made stays when
    one fails. -/
def makeDirectoriesWith : Nat → String → m (Except FileFault Unit)
  | 0, _ => return .ok ()
  | fuel + 1, path => do
    if path = "" then return .ok ()
    match ← makeDirectory path, Path.parent? path with
    | .error .notFound, none => return .error .notFound
    | .error .notFound, some up =>
      match ← makeDirectoriesWith fuel up with
      | .ok () => orPresent path (← makeDirectory path)
      | .error fault => return .error fault
    | result, _ => orPresent path result

/-- Makes a directory and those it lies in, which have shorter paths. -/
def makeDirectories (path : String) : m (Except FileFault Unit) :=
  makeDirectoriesWith (path.length + 1) path

end Files

end ImportBinding
