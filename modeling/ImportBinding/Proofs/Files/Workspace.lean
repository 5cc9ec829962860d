/-
  ImportBinding — accesses to a workspace.

  A path leads to a place, and accesses are about what is in the place.  Whatever they
  change, directories stay directories, so a path that has led to a place leads there for
  good.

  * `locate` is the place that a path leads to;
  * `read_eq_ok_iff`, `write_eq_ok_iff` and `makeDirectory_eq_ok_iff` are the accesses;
  * `Extends` is what the workspaces of a session have in common, and `Extends.locate` the
    stability of places;
  * `write_spec` and `makeDirectory_spec`: accesses extend a workspace.
-/
import ImportBinding.Files.Workspace
import ImportBinding.Proofs.Files.Node
import ImportBinding.Proofs.Outcome

namespace ImportBinding.Workspace

open Node (Place)

variable {w w' : Workspace} {path : String} {p : Place}

/-! ## Trails -/

/-- Every name of a trail stands with what it leads to in a directory. -/
def Sound (w : Workspace) : Trail → Prop
  | [] => True
  | (name, node?) :: rest =>
    w.Sound rest ∧ ∃ entries, w.reached rest = some (.directory entries) ∧
      node? = entries.lookup name

theorem Trail.place_cons (name : String) (node? : Option Node) (rest : Trail) :
    Trail.place ((name, node?) :: rest) = Trail.place rest ++ [name] := by
  simp [Trail.place]

/-- A trail ends at what is in its place. -/
theorem Sound.reached_eq : {trail : Trail} → w.Sound trail →
    w.reached trail = w.top.at? trail.place
  | [], _ => (Node.at?_nil _).symm
  | (name, node?) :: rest, ⟨h, entries, hrest, hnode⟩ => by
    rw [h.reached_eq] at hrest
    rw [reached, Trail.place_cons, Node.at?_append, hrest, hnode, Option.bind_some, Node.at?]
    cases entries.lookup name with
    | none => rfl
    | some u => exact (Node.at?_nil u).symm

theorem Sound.tail : {trail : Trail} → w.Sound trail → w.Sound trail.tail
  | [], _ => trivial
  | _ :: _, h => h.1

theorem Sound.open : {trail : Trail} → w.Sound trail → w.top.Open trail.place
  | [], _ => trivial
  | (name, node?) :: rest, ⟨h, entries, hrest, _⟩ => by
    rw [h.reached_eq] at hrest
    rw [Trail.place_cons]
    exact Node.open_append hrest name

/-- The trail that a name prolongs a trail to, which ends at a directory of some entries. -/
def Trail.advance (name : String) (entries : List (String × Node)) (trail : Trail) : Trail :=
  if name = "." then trail
  else if name = ".." then trail.tail
  else (name, entries.lookup name) :: trail

theorem Sound.advance {trail : Trail} {entries : List (String × Node)} (h : w.Sound trail)
    (hd : w.reached trail = some (.directory entries)) (name : String) :
    w.Sound (trail.advance name entries) := by
  unfold Trail.advance
  split
  · exact h
  · split
    · exact h.tail
    · exact ⟨h, entries, hd, rfl⟩

theorem walk_cons_eq_ok_iff {trail after : Trail} {name : String} {names : List String} :
    w.walk trail (name :: names) = .ok after ↔
      ∃ entries, w.reached trail = some (.directory entries) ∧ ¬ maxName < name.utf8ByteSize ∧
        w.walk (trail.advance name entries) names = .ok after := by
  rw [walk]
  cases hd : w.reached trail with
  | none => simp
  | some u =>
    cases u with
    | file => simp
    | directory entries =>
      by_cases hname : maxName < name.utf8ByteSize
      · simp [hname]
      · simp only [hname, if_false, not_false_eq_true, true_and, Option.some.injEq,
          Node.directory.injEq, exists_eq_left', Trail.advance]
        split
        · rfl
        · split <;> rfl

theorem Sound.walk {names : List String} : ∀ {trail after : Trail}, w.Sound trail →
    w.walk trail names = .ok after → w.Sound after := by
  induction names with
  | nil => intro trail after h hw; cases hw; exact h
  | cons name names ih =>
    intro trail after h hw
    obtain ⟨entries, hd, -, hw⟩ := walk_cons_eq_ok_iff.1 hw
    exact ih (h.advance hd name) hw

theorem walk_append_eq_ok_iff {ns ms : List String} : ∀ {trail after : Trail},
    w.walk trail (ns ++ ms) = .ok after ↔
      ∃ middle, w.walk trail ns = .ok middle ∧ w.walk middle ms = .ok after := by
  induction ns with
  | nil => intro trail after; simp [walk]
  | cons name ns ih =>
    intro trail after
    simp only [List.cons_append, walk_cons_eq_ok_iff, ih]
    constructor
    · rintro ⟨entries, hd, hname, middle, hns, hms⟩
      exact ⟨middle, ⟨entries, hd, hname, hns⟩, hms⟩
    · rintro ⟨middle, ⟨entries, hd, hname, hns⟩, hms⟩
      exact ⟨entries, hd, hname, middle, hns, hms⟩

/-! ## Growth -/

/-- The same home, and every directory of one workspace in the other one. -/
structure Extends (w w' : Workspace) : Prop where
  home : w'.home = w.home
  grows : w.top.Grows w'.top

theorem Extends.refl (w : Workspace) : w.Extends w :=
  ⟨rfl, .refl _⟩

theorem Extends.trans {w'' : Workspace} (h : w.Extends w') (h' : w'.Extends w'') :
    w.Extends w'' :=
  ⟨h'.home.trans h.home, h.grows.trans h'.grows⟩

/-- The names of a trail. -/
def Trail.names (trail : Trail) : List String :=
  trail.map (·.1)

/-- In a workspace that extends another one, names lead to the same place. -/
theorem Extends.walk (hw : w.Extends w') {names : List String} : ∀ {trail trail' after : Trail},
    w.Sound trail → w'.Sound trail' → trail'.names = trail.names →
    w.walk trail names = .ok after →
    ∃ after', w'.walk trail' names = .ok after' ∧ after'.names = after.names := by
  induction names with
  | nil =>
    intro trail trail' after _ _ hnames h
    cases h
    exact ⟨trail', rfl, hnames⟩
  | cons name names ih =>
    intro trail trail' after hs hs' hnames h
    obtain ⟨entries, hd, hname, h⟩ := walk_cons_eq_ok_iff.1 h
    have hplace : trail'.place = trail.place := congrArg List.reverse hnames
    have hd' := hd
    rw [hs.reached_eq] at hd'
    obtain ⟨entries', hd'⟩ := hw.grows _ _ hd'
    rw [← hplace, ← hs'.reached_eq] at hd'
    have hnext : (trail'.advance name entries').names = (trail.advance name entries).names := by
      unfold Trail.advance
      split
      · exact hnames
      · split
        · simp only [Trail.names, List.map_tail] at hnames ⊢
          rw [hnames]
        · simp only [Trail.names, List.map_cons] at hnames ⊢
          rw [hnames]
    obtain ⟨after', h', he⟩ := ih (hs.advance hd name) (hs'.advance hd' name) hnext h
    exact ⟨after', walk_cons_eq_ok_iff.2 ⟨entries', hd', hname, h'⟩, he⟩

/-! ## Places -/

theorem follow_eq_ok_iff {names : List String} {trail : Trail} :
    w.follow path names = .ok trail ↔
      ¬ path.toList.contains '\x00' ∧ path ≠ "" ∧ ¬ maxPath < path.utf8ByteSize ∧
        w.walk [] (if Path.isAbsolute path then names else w.home ++ names) = .ok trail := by
  unfold follow
  split
  · next hnul => exact ⟨nofun, fun h => absurd hnul h.1⟩
  · next hnul =>
    split
    · next hempty => exact ⟨nofun, fun h => absurd hempty h.2.1⟩
    · next hempty =>
      split
      · next hmax => exact ⟨nofun, fun h => absurd hmax h.2.2.1⟩
      · next hmax => exact ⟨fun h => ⟨hnul, hempty, hmax, h⟩, fun h => h.2.2.2⟩

theorem sound_follow {names : List String} {trail : Trail}
    (h : w.follow path names = .ok trail) : w.Sound trail :=
  have hroot : w.Sound [] := trivial
  hroot.walk (follow_eq_ok_iff.1 h).2.2.2

theorem Extends.follow (hw : w.Extends w') {names : List String} {trail : Trail}
    (h : w.follow path names = .ok trail) :
    ∃ trail', w'.follow path names = .ok trail' ∧ trail'.names = trail.names := by
  obtain ⟨hnul, hempty, hmax, h⟩ := follow_eq_ok_iff.1 h
  have hroot : w.Sound [] := trivial
  have hroot' : w'.Sound [] := trivial
  obtain ⟨trail', h', hnames⟩ := hw.walk hroot hroot' rfl h
  rw [← hw.home] at h'
  exact ⟨trail', follow_eq_ok_iff.2 ⟨hnul, hempty, hmax, h'⟩, hnames⟩

/-- A path that asks for the end itself ends at a directory. -/
theorem reached_follow_itself {names : List String} {trail : Trail}
    (h : w.follow path (names ++ ["."]) = .ok trail) :
    ∃ entries, w.reached trail = some (.directory entries) := by
  have hwalk : ∀ ns, w.walk [] (ns ++ ["."]) = .ok trail →
      ∃ entries, w.reached trail = some (.directory entries) := by
    intro ns hns
    obtain ⟨middle, -, hlast⟩ := walk_append_eq_ok_iff.1 hns
    obtain ⟨entries, hd, -, he⟩ := walk_cons_eq_ok_iff.1 hlast
    cases he
    exact ⟨entries, hd⟩
  obtain ⟨-, -, -, h⟩ := follow_eq_ok_iff.1 h
  split at h
  · exact hwalk names h
  · exact hwalk (w.home ++ names) (by rw [List.append_assoc]; exact h)

/-- The place that a path leads to. -/
def locate (w : Workspace) (path : String) : Except FileFault Place :=
  Trail.place <$> w.follow path (Path.names path)

theorem open_of_locate (h : w.locate path = .ok p) : w.top.Open p := by
  obtain ⟨trail, ht, rfl⟩ := Except.map_eq_ok_iff.1 h
  exact (sound_follow ht).open

/-- A path that has led to a place leads there for good. -/
theorem Extends.locate (hw : w.Extends w') (h : w.locate path = .ok p) :
    w'.locate path = .ok p := by
  obtain ⟨trail, ht, rfl⟩ := Except.map_eq_ok_iff.1 h
  obtain ⟨trail', ht', hnames⟩ := hw.follow ht
  exact Except.map_eq_ok_iff.2 ⟨trail', ht', congrArg List.reverse hnames⟩

/-- What is at the end of a path is in its place. -/
theorem locate_eq_ok_iff : w.locate path = .ok p ↔
    ∃ trail, w.follow path (Path.names path) = .ok trail ∧ trail.place = p ∧
      w.reached trail = w.top.at? p := by
  constructor
  · intro h
    obtain ⟨trail, ht, rfl⟩ := Except.map_eq_ok_iff.1 h
    exact ⟨trail, ht, rfl, (sound_follow ht).reached_eq⟩
  · rintro ⟨trail, ht, rfl, -⟩
    exact Except.map_eq_ok_iff.2 ⟨trail, ht, rfl⟩

/-! ## Accesses -/

/-- A file is read in its place, and by no path that ends in a slash. -/
theorem read_eq_ok_iff {bytes : List UInt8} : w.read path = .ok bytes ↔
    Path.endsInSlash path = false ∧ ∃ p, w.locate path = .ok p ∧ w.top.file? p = some bytes := by
  unfold read
  cases hslash : Path.endsInSlash path with
  | true =>
    refine ⟨fun h => ?_, fun h => nomatch h.1⟩
    obtain ⟨trail, ht, h⟩ := Except.bind_eq_ok_iff.1 h
    obtain ⟨entries, hd⟩ := reached_follow_itself ht
    rw [hd] at h
    cases h
  | false =>
    simp only [Bool.false_eq_true, if_false, List.append_nil, Except.bind_eq_ok_iff,
      locate_eq_ok_iff, true_and]
    constructor
    · rintro ⟨trail, ht, h⟩
      refine ⟨_, ⟨trail, ht, rfl, (sound_follow ht).reached_eq⟩, ?_⟩
      rw [Node.file?_eq_some_iff, ← (sound_follow ht).reached_eq]
      split at h
      · cases h
      · cases h
      · next he => cases h; exact he
    · rintro ⟨_, ⟨trail, ht, rfl, he⟩, hfile⟩
      refine ⟨trail, ht, ?_⟩
      rw [he, Node.file?_eq_some_iff.1 hfile]
      rfl

/-- A file is written in its place, unless that is a directory. -/
theorem write_eq_ok_iff {bytes : List UInt8} : w.write path bytes = .ok w' ↔
    Path.endsInSlash path = false ∧ ∃ p, w.locate path = .ok p ∧
      (∀ entries, w.top.at? p ≠ some (.directory entries)) ∧
      { w with top := w.top.put p (.file bytes) } = w' := by
  unfold write
  cases hslash : Path.endsInSlash path with
  | true =>
    refine ⟨fun h => ?_, fun h => nomatch h.1⟩
    obtain ⟨_, -, h⟩ := Except.bind_eq_ok_iff.1 h
    cases h
  | false =>
    simp only [Bool.false_eq_true, if_false, Except.bind_eq_ok_iff, locate_eq_ok_iff, true_and]
    constructor
    · rintro ⟨trail, ht, h⟩
      refine ⟨_, ⟨trail, ht, rfl, (sound_follow ht).reached_eq⟩, ?_⟩
      rw [← (sound_follow ht).reached_eq]
      split at h
      · cases h
      · next hne => cases h; exact ⟨hne, rfl⟩
    · rintro ⟨_, ⟨trail, ht, rfl, he⟩, hne, rfl⟩
      refine ⟨trail, ht, ?_⟩
      split
      · next entries hd => exact absurd (he.symm.trans hd) (hne entries)
      · rfl

/-- A directory is made in its place, where nothing is. -/
theorem makeDirectory_eq_ok_iff : w.makeDirectory path = .ok w' ↔
    ∃ p, w.locate path = .ok p ∧ w.top.at? p = none ∧
      { w with top := w.top.put p (.directory []) } = w' := by
  unfold makeDirectory
  simp only [Except.bind_eq_ok_iff, locate_eq_ok_iff]
  constructor
  · rintro ⟨trail, ht, h⟩
    refine ⟨_, ⟨trail, ht, rfl, (sound_follow ht).reached_eq⟩, ?_⟩
    rw [← (sound_follow ht).reached_eq]
    split at h
    · cases h
    · next hnone => cases h; exact ⟨hnone, rfl⟩
  · rintro ⟨_, ⟨trail, ht, rfl, he⟩, hnone, rfl⟩
    refine ⟨trail, ht, ?_⟩
    rw [he, hnone]
    rfl

/-! ## What accesses change -/

/-- A written file is in its place, the other files are as they were, and paths lead where
    they led. -/
theorem write_spec {bytes : List UInt8} (h : w.write path bytes = .ok w') :
    w.Extends w' ∧ ∃ p, w.locate path = .ok p ∧ w'.top.file? p = some bytes ∧
      ∀ q, q ≠ p → w'.top.file? q = w.top.file? q := by
  obtain ⟨-, p, hp, hne, rfl⟩ := write_eq_ok_iff.1 h
  exact ⟨⟨rfl, Node.grows_put _ hne⟩, p, hp, Node.file?_put_self (open_of_locate hp) bytes,
    fun q hq => Node.file?_put_of_ne (Node.leaf_file _) (Node.free_of_ne hne) hq⟩

/-- A new directory leaves all files as they were, and paths lead where they led. -/
theorem makeDirectory_spec (h : w.makeDirectory path = .ok w') :
    w.Extends w' ∧ w'.top.file? = w.top.file? := by
  obtain ⟨p, hp, hnone, rfl⟩ := makeDirectory_eq_ok_iff.1 h
  have hne : ∀ entries, w.top.at? p ≠ some (.directory entries) := by simp [hnone]
  refine ⟨⟨rfl, Node.grows_put _ hne⟩, funext fun q => ?_⟩
  by_cases hq : q = p
  · subst hq
    rw [Node.file?, Node.file?, Node.at?_put (open_of_locate hp), hnone]
  · exact Node.file?_put_of_ne Node.leaf_directory (Node.free_of_ne hne) hq

/-- Writing what is in a file changes nothing. -/
theorem write_of_read {bytes : List UInt8} (h : w.read path = .ok bytes) :
    w.write path bytes = .ok w := by
  obtain ⟨hslash, p, hp, hfile⟩ := read_eq_ok_iff.1 h
  have hat := Node.file?_eq_some_iff.1 hfile
  refine write_eq_ok_iff.2 ⟨hslash, p, hp, by simp [hat], ?_⟩
  rw [Node.put_of_at? hat]

/-- What has been written is read. -/
theorem read_of_write {bytes : List UInt8} (h : w.write path bytes = .ok w') :
    w'.read path = .ok bytes := by
  obtain ⟨hext, p, hp, hfile, -⟩ := write_spec h
  exact read_eq_ok_iff.2 ⟨(write_eq_ok_iff.1 h).1, p, hext.locate hp, hfile⟩

end ImportBinding.Workspace
