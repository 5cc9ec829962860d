/-
  ImportBinding — trees of files.

  A node is a file or a directory, and a directory holds nodes by name.  A place in a
  tree is given by the names on the way from its top.

  * `Node.at?` is the node at a place;
  * `Node.put` puts a node at a place;
  * `Node.files` are the files of a tree with their places;
  * `at?_put`: what was put at a place is there, unless a file is in the way.
-/
namespace ImportBinding

/-- A tree of files. -/
inductive Node where
  | file (bytes : List UInt8)
  | directory (entries : List (String × Node))
  deriving Repr

namespace Node

/-- A place in a tree: the names from its top. -/
abbrev Place := List String

/-! ## Entries -/

/-- The entries with one put in place of that of its name. -/
def setEntry (name : String) (node : Node) : List (String × Node) → List (String × Node)
  | [] => [(name, node)]
  | (n, old) :: rest =>
    if name = n then (name, node) :: rest else (n, old) :: setEntry name node rest

theorem lookup_setEntry_self (name : String) (node : Node) (entries : List (String × Node)) :
    (setEntry name node entries).lookup name = some node := by
  induction entries with
  | nil => simp [setEntry]
  | cons entry rest ih =>
    obtain ⟨n, old⟩ := entry
    by_cases h : name = n
    · simp [setEntry, h]
    · simpa [setEntry, h, List.lookup_cons, beq_false_of_ne h] using ih

theorem lookup_setEntry_of_ne {name other : String} (h : other ≠ name) (node : Node)
    (entries : List (String × Node)) :
    (setEntry name node entries).lookup other = entries.lookup other := by
  induction entries with
  | nil => simp [setEntry, List.lookup_cons, beq_false_of_ne h]
  | cons entry rest ih =>
    obtain ⟨n, old⟩ := entry
    by_cases hn : name = n
    · subst hn; simp [setEntry, List.lookup_cons, beq_false_of_ne h]
    · simp [setEntry, hn, List.lookup_cons, ih]

/-! ## Places -/

def at? : Node → Place → Option Node
  | node, [] => some node
  | directory entries, name :: p => (entries.lookup name).bind (at? · p)
  | file _, _ :: _ => none

/-- The tree with a node put at a place.  Directories that are missing on the way are made;
    a file in the way stays, and nothing is put behind it. -/
def put : Node → Place → Node → Node
  | _, [], node => node
  | directory entries, name :: p, node =>
    directory (setEntry name (put ((entries.lookup name).getD (directory [])) p node) entries)
  | file bytes, _ :: _, _ => file bytes

/-- A place is open when no file is in the way to it. -/
def Open : Node → Place → Prop
  | _, [] => True
  | directory entries, name :: p => Open ((entries.lookup name).getD (directory [])) p
  | file _, _ :: _ => False

/-- What was put at an open place is there. -/
theorem at?_put {t : Node} {p : Place} (h : t.Open p) (node : Node) :
    (t.put p node).at? p = some node := by
  induction p generalizing t with
  | nil => simp [put, at?]
  | cons name p ih =>
    match t, h with
    | directory entries, h => simp [put, at?, lookup_setEntry_self, ih h]

/-! ## Files -/

mutual

/-- The files of a tree with their places. -/
def files : Node → List (Place × List UInt8)
  | file bytes => [([], bytes)]
  | directory entries => filesIn entries

/-- The files of entries with their places. -/
def filesIn : List (String × Node) → List (Place × List UInt8)
  | [] => []
  | (name, node) :: rest => node.files.map (fun (p, bytes) => (name :: p, bytes)) ++ filesIn rest

end

end Node

end ImportBinding
