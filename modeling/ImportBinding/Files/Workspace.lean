/-
  ImportBinding — a workspace.

  A workspace is a tree of files with a home that relative paths start from.  It answers
  the accesses of commands without a file system.

  * `Workspace.follow` follows a path to its end: every name on the way must be that of a
    directory;
  * `Workspace.read`, `write` and `makeDirectory` are the accesses;
  * `Session` is a workspace with what was put out, and holds files for commands.
-/
import ImportBinding.Files.Basic
import ImportBinding.Files.Node

namespace ImportBinding

/-- A tree of files and a place in it. -/
structure Workspace where
  top : Node
  /-- Where relative paths start. -/
  home : Node.Place
  deriving Repr

namespace Workspace

/-! ## Following a path -/

/-- The bytes of the longest name. -/
def maxName : Nat := 255

/-- The bytes of the longest path. -/
def maxPath : Nat := 4095

/-- The way to a place, with each name what it leads to, the last one first. -/
abbrev Trail := List (String × Option Node)

/-- The place that a trail ends at. -/
def Trail.place (trail : Trail) : Node.Place :=
  (trail.map (·.1)).reverse

/-- What a trail ends at. -/
def reached (w : Workspace) : Trail → Option Node
  | [] => some w.top
  | (_, node?) :: _ => node?

/-- The trail that names prolong a trail to. -/
def walk (w : Workspace) (trail : Trail) : List String → Except FileFault Trail
  | [] => .ok trail
  | name :: rest =>
    match w.reached trail with
    | none => .error .notFound
    | some (.file _) => .error .notDirectory
    | some (.directory entries) =>
      if maxName < name.utf8ByteSize then .error .nameTooLong
      else if name = "." then walk w trail rest
      else if name = ".." then walk w trail.tail rest
      else walk w ((name, entries.lookup name) :: trail) rest

/-- The trail along the given names of a path. -/
def follow (w : Workspace) (path : String) (names : List String) : Except FileFault Trail :=
  if path.toList.contains '\x00' then .error .nulInName
  else if path = "" then .error .notFound
  else if maxPath < path.utf8ByteSize then .error .nameTooLong
  else w.walk [] (if Path.isAbsolute path then names else w.home ++ names)

/-! ## Accesses -/

/-- The bytes of a file.  A slash at the end of a path stands for the directory itself. -/
def read (w : Workspace) (path : String) : Except FileFault (List UInt8) := do
  let itself := if Path.endsInSlash path then ["."] else []
  match w.reached (← w.follow path (Path.names path ++ itself)) with
  | none => throw .notFound
  | some (.directory _) => throw .isDirectory
  | some (.file bytes) => return bytes

/-- The workspace with a node put at the end of a trail. -/
def put (w : Workspace) (trail : Trail) (node : Node) : Workspace :=
  { w with top := w.top.put trail.place node }

/-- The workspace after a file is written.  A path that ends in a slash is never that of a
    file: its last name is not looked up, only the directory that would hold it. -/
def write (w : Workspace) (path : String) (bytes : List UInt8) : Except FileFault Workspace := do
  if Path.endsInSlash path then
    let _ ← w.follow path ((Path.names path).dropLast ++ ["."])
    throw .isDirectory
  let trail ← w.follow path (Path.names path)
  match w.reached trail with
  | some (.directory _) => throw .isDirectory
  | _ => return w.put trail (.file bytes)

/-- The workspace after a directory is made. -/
def makeDirectory (w : Workspace) (path : String) : Except FileFault Workspace := do
  let trail ← w.follow path (Path.names path)
  match w.reached trail with
  | some _ => throw .present
  | none => return w.put trail (.directory [])

/-! ## Building and listing -/

/-- The workspace with the given files, at paths from its home. -/
def ofFiles (home : Node.Place) (files : List (String × List UInt8)) : Workspace :=
  let place (path : String) : Node.Place := home ++ (Path.names path).filter (· ≠ ".")
  { top := files.foldl (fun top (path, bytes) => top.put (place path) (.file bytes))
      (Node.put (.directory []) home (.directory []))
    home }

/-- The files below the home, with their paths from it. -/
def listing (w : Workspace) : List (String × List UInt8) :=
  match w.top.at? w.home with
  | none => []
  | some node => node.files.map fun (p, bytes) => ("/".intercalate p, bytes)

end Workspace

/-- A workspace and what was put out. -/
structure Session where
  workspace : Workspace
  output : String := ""

/-- Puts a changed workspace into a session, unless there is a fault. -/
def Session.update (s : Session) : Except FileFault Workspace → Except FileFault Unit × Session
  | .ok workspace => (.ok (), { s with workspace })
  | .error fault => (.error fault, s)

/-- Accesses to the workspace of a session. -/
instance : Files (StateM Session) where
  read path := do return (← get).workspace.read path
  write path bytes := modifyGet fun s => s.update (s.workspace.write path bytes)
  makeDirectory path := modifyGet fun s => s.update (s.workspace.makeDirectory path)
  print text := modify fun s => { s with output := s.output ++ text }

end ImportBinding
