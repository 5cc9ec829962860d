/-
  ImportBinding — what putting a node changes in a tree of files.

  A leaf, which is a file or an empty directory, is put where no directory with entries is.
  Then the other files stay as they are, and directories stay directories.

  * `file?_put_of_ne`: other files stay;
  * `Grows` is the growth of a tree, `grows_put` that by a leaf;
  * `put_of_at?`: what is there already changes nothing when it is put again.
-/
import ImportBinding.Files.Node
import Mathlib.Data.Option.Basic

namespace ImportBinding.Node

/-! ## Places -/

@[simp] theorem at?_nil (t : Node) : t.at? [] = some t := by
  cases t <;> rfl

theorem at?_append (t : Node) (p q : Place) : t.at? (p ++ q) = (t.at? p).bind (at? · q) := by
  induction p generalizing t with
  | nil => simp
  | cons name p ih =>
    cases t with
    | file => rfl
    | directory entries =>
      rw [List.cons_append, at?, at?]
      cases entries.lookup name with
      | none => rfl
      | some u => exact ih u

/-- In a directory, which is at its place, every name is open. -/
theorem open_append {t : Node} {p : Place} {entries : List (String × Node)}
    (h : t.at? p = some (.directory entries)) (name : String) : t.Open (p ++ [name]) := by
  induction p generalizing t with
  | nil =>
    rw [at?_nil] at h
    obtain rfl := Option.some.inj h
    trivial
  | cons n p ih =>
    cases t with
    | file => cases h
    | directory es =>
      obtain ⟨u, hu, h⟩ := Option.bind_eq_some_iff.1 h
      rw [List.cons_append, Open, hu]
      exact ih h

/-! ## Files -/

/-- The bytes of a file at a place. -/
def file? (t : Node) (p : Place) : Option (List UInt8) :=
  match t.at? p with
  | some (.file bytes) => some bytes
  | _ => none

theorem file?_eq_some_iff {t : Node} {p : Place} {bytes : List UInt8} :
    t.file? p = some bytes ↔ t.at? p = some (.file bytes) := by
  unfold file?
  split
  · next he => simp [he]
  · next hne => exact ⟨nofun, fun h => absurd h (hne bytes)⟩

theorem file?_cons (entries : List (String × Node)) (name : String) (p : Place) :
    (directory entries).file? (name :: p) = (entries.lookup name).bind (file? · p) := by
  rw [file?, at?]
  cases entries.lookup name <;> rfl

/-- A file or an empty directory. -/
def Leaf (t : Node) : Prop :=
  ∀ entries, t = .directory entries → entries = []

theorem leaf_file (bytes : List UInt8) : (file bytes).Leaf :=
  nofun

theorem leaf_directory : (directory []).Leaf := by
  rintro _ ⟨⟩
  rfl

theorem Leaf.file?_cons {t : Node} (h : t.Leaf) (name : String) (p : Place) :
    t.file? (name :: p) = none := by
  cases t with
  | file => rfl
  | directory entries =>
    obtain rfl := h entries rfl
    rfl

/-- What is in a place, if anything, is a leaf. -/
def Free (t : Node) (p : Place) : Prop :=
  ∀ u, t.at? p = some u → u.Leaf

theorem free_of_ne {t : Node} {p : Place} (h : ∀ entries, t.at? p ≠ some (.directory entries)) :
    t.Free p := by
  rintro u hu entries rfl
  exact absurd hu (h entries)

theorem Free.of_cons {entries : List (String × Node)} {name : String} {p : Place}
    (h : (directory entries).Free (name :: p)) :
    ((entries.lookup name).getD (directory [])).Free p := by
  intro u hu
  cases he : entries.lookup name with
  | some v =>
    rw [he] at hu
    exact h u (by rw [at?, he]; exact hu)
  | none =>
    rw [he] at hu
    cases p with
    | nil =>
      rw [Option.getD_none, at?_nil] at hu
      exact Option.some.inj hu ▸ leaf_directory
    | cons => cases hu

/-- A leaf that is put in a free place leaves the other files as they are. -/
theorem file?_put_of_ne {node : Node} (hnode : node.Leaf) : ∀ {t : Node} {p q : Place}, t.Free p →
    q ≠ p → (t.put p node).file? q = t.file? q := by
  intro t p
  induction p generalizing t with
  | nil =>
    intro q hfree hne
    obtain ⟨name, q, rfl⟩ := List.exists_cons_of_ne_nil hne
    rw [put, hnode.file?_cons, (hfree t (at?_nil t)).file?_cons]
  | cons name p ih =>
    intro q hfree hne
    cases t with
    | file => rfl
    | directory entries =>
      cases q with
      | nil => rfl
      | cons name' q =>
        rw [put, file?_cons, file?_cons]
        by_cases hname : name' = name
        · subst hname
          have hq : q ≠ p := fun h => hne (congrArg _ h)
          rw [lookup_setEntry_self, Option.bind_some, ih hfree.of_cons hq]
          cases entries.lookup name' with
          | some => rfl
          | none => cases q <;> rfl
        · rw [lookup_setEntry_of_ne hname]

theorem file?_put_self {t : Node} {p : Place} (h : t.Open p) (bytes : List UInt8) :
    (t.put p (.file bytes)).file? p = some bytes :=
  file?_eq_some_iff.2 (at?_put h _)

/-! ## Growth -/

/-- The directories of a tree are directories in another one. -/
def Grows (t t' : Node) : Prop :=
  ∀ p entries, t.at? p = some (.directory entries) →
    ∃ entries', t'.at? p = some (.directory entries')

theorem Grows.refl (t : Node) : t.Grows t :=
  fun _ entries h => ⟨entries, h⟩

theorem Grows.trans {t t' t'' : Node} (h : t.Grows t') (h' : t'.Grows t'') : t.Grows t'' := by
  intro p entries hp
  obtain ⟨entries', hp'⟩ := h p entries hp
  exact h' p entries' hp'

/-- A tree grows when something is put where no directory is. -/
theorem grows_put (node : Node) : ∀ {t : Node} {p : Place},
    (∀ entries, t.at? p ≠ some (.directory entries)) → t.Grows (t.put p node) := by
  intro t p
  induction p generalizing t with
  | nil =>
    intro hp q entries hq
    cases t with
    | directory es => exact absurd (at?_nil _) (hp es)
    | file => cases q <;> cases hq
  | cons name p ih =>
    intro hp q entries hq
    cases t with
    | file => exact ⟨entries, hq⟩
    | directory es =>
      cases q with
      | nil => exact ⟨_, at?_nil _⟩
      | cons name' q =>
        obtain ⟨u, hu, hq⟩ := Option.bind_eq_some_iff.1 hq
        rw [put, at?]
        by_cases hname : name' = name
        · subst hname
          have hu' : ∀ entries, u.at? p ≠ some (.directory entries) := fun entries h =>
            hp entries (by rw [at?, hu]; exact h)
          rw [lookup_setEntry_self, hu]
          exact ih hu' q entries hq
        · rw [lookup_setEntry_of_ne hname, hu]
          exact ⟨entries, hq⟩

/-! ## The same again -/

theorem setEntry_of_lookup {name : String} {node : Node} {entries : List (String × Node)}
    (h : entries.lookup name = some node) : setEntry name node entries = entries := by
  induction entries with
  | nil => cases h
  | cons entry rest ih =>
    obtain ⟨n, old⟩ := entry
    by_cases hn : name = n
    · subst hn
      rw [List.lookup_cons, beq_self_eq_true] at h
      obtain rfl := Option.some.inj h
      rw [setEntry, if_pos rfl]
    · rw [List.lookup_cons, beq_false_of_ne hn] at h
      rw [setEntry, if_neg hn, ih h]

theorem put_of_at? {t : Node} {p : Place} {node : Node} (h : t.at? p = some node) :
    t.put p node = t := by
  induction p generalizing t with
  | nil =>
    rw [at?_nil] at h
    rw [put, Option.some.inj h]
  | cons name p ih =>
    cases t with
    | file => rfl
    | directory entries =>
      obtain ⟨u, hu, h⟩ := Option.bind_eq_some_iff.1 h
      rw [put, hu, Option.getD_some, ih h, setEntry_of_lookup hu]

end ImportBinding.Node
