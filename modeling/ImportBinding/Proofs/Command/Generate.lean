/-
  ImportBinding — generating a file and checking it.

  A run that writes a file and a dry run make the same source of a document, and fail alike
  when there is none.  The first then writes what the second looks for, so the dry run
  behind it succeeds unless the document itself was written over.

  * `Workspace.Same`: two paths lead to the same place, and `Workspace.Puts` is the writing of
    a file;
  * `Session.makeParent` makes the directory of a path, and `Session.CanWrite` says that a file
    can be written there;
  * `runGenerate_ok` and `runGenerate_dry_ok_iff` are the two runs;
  * `source_ne_document`: a generated file is no document;
  * `generate_agrees` puts the two runs together.
-/
import ImportBinding.Proofs.Command.Session
import ImportBinding.Proofs.Declaration.Reading
import ImportBinding.Proofs.Json.Quoted

namespace ImportBinding

open Json (bytes)

/-! ## Paths that lead to one place -/

namespace Workspace

variable {w w' w'' : Workspace} {a b c : String}

/-- Two paths lead to the same place. -/
def Same (w : Workspace) (a b : String) : Prop :=
  ∃ p, w.locate a = .ok p ∧ w.locate b = .ok p

theorem Same.trans (h : w.Same a b) (h' : w.Same b c) : w.Same a c := by
  obtain ⟨p, ha, hb⟩ := h
  obtain ⟨q, hb', hc⟩ := h'
  obtain rfl := Except.ok.inj (hb.symm.trans hb')
  exact ⟨p, ha, hc⟩

theorem Extends.same (hw : w.Extends w') (h : w.Same a b) : w'.Same a b := by
  obtain ⟨p, ha, hb⟩ := h
  exact ⟨p, hw.locate ha, hw.locate hb⟩

theorem same_of_read {x : List UInt8} (h : w.read a = .ok x) : w.Same a a := by
  obtain ⟨-, p, hp, -⟩ := read_eq_ok_iff.1 h
  exact ⟨p, hp, hp⟩

/-- Paths that lead to the same place lead to the same bytes. -/
theorem Same.read {x : List UInt8} (h : w.Same a b) (ha : w.read a = .ok x)
    (hb : Path.endsInSlash b = false) : w.read b = .ok x := by
  obtain ⟨p, hp, hq⟩ := h
  obtain ⟨-, p', hp', hx⟩ := read_eq_ok_iff.1 ha
  obtain rfl := Except.ok.inj (hp.symm.trans hp')
  exact read_eq_ok_iff.2 ⟨hb, p, hq, hx⟩

theorem Same.read_eq {x y : List UInt8} (h : w.Same a b) (ha : w.read a = .ok x)
    (hb : w.read b = .ok y) : x = y :=
  Except.ok.inj ((h.read ha (read_eq_ok_iff.1 hb).1).symm.trans hb)

/-- The writing of a file, with the directories that it needs. -/
structure Puts (w : Workspace) (path : String) (text : List UInt8) (w' : Workspace) : Prop where
  growth : w.Extends w'
  read : w'.read path = .ok text
  others : ∀ {other x}, w.read other = .ok x → ¬ w'.Same path other → w'.read other = .ok x

/-- The file of a path has these bytes, and the other files are as they were. -/
def Replaces (w : Workspace) (path : String) (text : List UInt8) (w' : Workspace) : Prop :=
  ∃ p, w'.locate path = .ok p ∧ w'.top.file? p = some text ∧
    ∀ q, q ≠ p → w'.top.file? q = w.top.file? q

theorem replaces_of_write {path : String} {text : List UInt8} (h : w.Adds w')
    (hw : w'.write path text = .ok w'') : w.Replaces path text w'' := by
  obtain ⟨hext, p, hp, hfile, hothers⟩ := write_spec hw
  exact ⟨p, hext.locate hp, hfile, fun q hq => by rw [hothers q hq, h.2]⟩

theorem puts_of_write {path : String} {text : List UInt8} (h : w.Adds w')
    (hw : w'.write path text = .ok w'') : w.Puts path text w'' := by
  have hext := h.1.trans (write_spec hw).1
  obtain ⟨p, hp, -, hothers⟩ := replaces_of_write h hw
  refine ⟨hext, read_of_write hw, fun {other x} ho hne => ?_⟩
  obtain ⟨hslash, q, hq, hx⟩ := read_eq_ok_iff.1 ho
  have hq' := hext.locate hq
  have hpq : q ≠ p := by
    rintro rfl
    exact hne ⟨q, hp, hq'⟩
  exact read_eq_ok_iff.2 ⟨hslash, q, hq', (hothers q hpq).trans hx⟩

/-- Where some bytes can be written, others can be. -/
theorem exists_write {path : String} {text : List UInt8} (text' : List UInt8)
    (h : w.write path text = .ok w') : ∃ w'', w.write path text' = .ok w'' := by
  obtain ⟨hslash, p, hp, hne, -⟩ := write_eq_ok_iff.1 h
  exact ⟨_, write_eq_ok_iff.2 ⟨hslash, p, hp, hne, rfl⟩⟩

end Workspace

/-! ## The directory of a file -/

namespace Session

/-- What comes of making the directory that a path lies in. -/
def makeParent (s : Session) (path : String) : Except FileFault Unit × Session :=
  match Path.parent? path with
  | some directory =>
    (Files.makeDirectories directory : StateM Session (Except FileFault Unit)).run s
  | none => (.ok (), s)

/-- The directory of a path can be made, and then a file written. -/
def CanWrite (s : Session) (path : String) : Prop :=
  (s.makeParent path).1 = .ok () ∧
    ∃ text w, (s.makeParent path).2.workspace.write path text = .ok w

theorem adds_makeParent (s : Session) (path : String) :
    s.workspace.Adds (s.makeParent path).2.workspace := by
  unfold makeParent
  split
  · next directory _ => exact Adding.makeDirectoriesWith (directory.length + 1) directory s
  · exact .refl _

end Session

/-! ## One file -/

namespace Command

variable {s s' : Session} {decls out src : String} {options : Source.Options}

/-- Text is read where its bytes are. -/
theorem exists_run_readText (s : Session) (path : String) : ∃ r,
    (readText path : StateM Session (Except FileFault String)).run s = (r, s) ∧
      ∀ text, r = .ok text ↔ s.workspace.read path = .ok (bytes text) := by
  have hread : (Files.read path : StateM Session (Except FileFault (List UInt8))).run s =
      (s.workspace.read path, s) := rfl
  rw [readText, StateT.run_bind, hread]
  cases s.workspace.read path with
  | error fault => exact ⟨.error fault, rfl, by simp⟩
  | ok x =>
    dsimp only [bind]
    cases hx : String.fromUTF8? ⟨x.toArray⟩ with
    | none =>
      refine ⟨.error .notText, rfl, fun text => ⟨nofun, fun h => ?_⟩⟩
      rw [Except.ok.inj h, Json.fromUTF8?_bytes] at hx
      cases hx
    | some text =>
      refine ⟨.ok text, rfl, fun text' => ?_⟩
      rw [← Json.bytes_of_fromUTF8? hx, Except.ok.injEq, Except.ok.injEq]
      exact ⟨congrArg bytes, fun h => Json.bytes_inj h⟩

theorem inert_readText (what : Access) (path : String) : Inert (access what path (readText path)) :=
    fun s => by
  obtain ⟨r, hr, -⟩ := exists_run_readText s path
  rw [Session.perform_access, hr]

theorem perform_readText_eq_ok_iff {what : Access} {path text : String} :
    s.perform (access what path (readText path)) = (.ok text, s') ↔
      s.workspace.read path = .ok (bytes text) ∧ s' = s := by
  obtain ⟨r, hr, htext⟩ := exists_run_readText s path
  rw [Session.perform_access, hr, Prod.mk.injEq, Except.mapError_eq_ok_iff, htext, eq_comm (a := s)]

/-- A file is written once its directory is made, and nothing else is done. -/
theorem perform_writeSource (s : Session) (out src : String) :
    ∃ fail : FileFault → Failure,
      s.perform (writeSource out src false) = match s.makeParent out with
        | (.ok (), s₁) => s₁.perform (access .writeOutput out (Files.write out (bytes src)))
        | (.error fault, s₁) => (.error (fail fault), s₁) := by
  cases hparent : Path.parent? out with
  | none =>
    refine ⟨.file .makeDirectory out, ?_⟩
    simp only [writeSource, Bool.false_eq_true, if_false, hparent, Session.makeParent]
  | some directory =>
    simp only [writeSource, Bool.false_eq_true, if_false, Session.makeParent, hparent]
    refine ⟨.file .makeDirectory directory, ?_⟩
    rw [Session.perform_bind, Session.perform_access]
    rcases (Files.makeDirectories directory : StateM Session _).run s with ⟨fault | u, s₁⟩
    · rfl
    · rfl

theorem perform_write_eq_ok_iff {what : Access} {path : String} {text : List UInt8} :
    s.perform (access what path (Files.write path text)) = (.ok (), s') ↔
      ∃ w, s.workspace.write path text = .ok w ∧ s' = { s with workspace := w } := by
  rw [Session.perform_write]
  cases s.workspace.write path text with
  | error fault => exact ⟨nofun, nofun⟩
  | ok w =>
    refine ⟨fun h => ?_, fun ⟨_, hw, h⟩ => ?_⟩
    · cases h
      exact ⟨w, rfl, rfl⟩
    · cases hw
      rw [h]
      rfl

theorem perform_write_error {what : Access} {path : String} {text : List UInt8}
    (h : (s.perform (access what path (Files.write path text))).1 ≠ .ok ()) :
    (s.perform (access what path (Files.write path text))).2 = s := by
  rw [Session.perform_write] at h ⊢
  cases hw : s.workspace.write path text with
  | error fault => rfl
  | ok w =>
    rw [hw] at h
    exact absurd rfl h

theorem writeSource_ok_iff : s.perform (writeSource out src false) = (.ok (), s') ↔
    ∃ s₁, s.makeParent out = (.ok (), s₁) ∧ ∃ w, s₁.workspace.write out (bytes src) = .ok w ∧
      s' = { s₁ with workspace := w } := by
  obtain ⟨fail, h⟩ := perform_writeSource s out src
  rw [h]
  rcases s.makeParent out with ⟨fault | u, s₁⟩
  · exact ⟨nofun, nofun⟩
  · refine ⟨fun hs => ⟨s₁, rfl, perform_write_eq_ok_iff.1 hs⟩, fun ⟨s₂, hs₂, hw⟩ => ?_⟩
    obtain rfl := congrArg Prod.snd hs₂
    exact perform_write_eq_ok_iff.2 hw

/-- A source is written where a file can be written. -/
theorem writeSource_ok_iff_canWrite :
    (s.perform (writeSource out src false)).1 = .ok () ↔ s.CanWrite out := by
  constructor
  · intro h
    obtain ⟨s₁, hs₁, w, hw, -⟩ := writeSource_ok_iff.1 (Prod.ext h rfl)
    rw [Session.CanWrite, hs₁]
    exact ⟨rfl, bytes src, w, hw⟩
  · rintro ⟨hparent, text, w, hw⟩
    obtain ⟨w', hw'⟩ := Workspace.exists_write (bytes src) hw
    exact congrArg Prod.fst (writeSource_ok_iff.2 ⟨_, Prod.ext hparent rfl, w', hw', rfl⟩)

/-- A source that is not written leaves all files as they were. -/
theorem file?_writeSource (h : (s.perform (writeSource out src false)).1 ≠ .ok ()) :
    (s.perform (writeSource out src false)).2.workspace.top.file? = s.workspace.top.file? := by
  have hadds := s.adds_makeParent out
  obtain ⟨fail, hperform⟩ := perform_writeSource s out src
  rw [hperform] at h ⊢
  rcases hs₁ : s.makeParent out with ⟨fault | u, s₁⟩
  · rw [hs₁] at hadds
    exact hadds.2
  · rw [hs₁] at hadds h
    exact (congrArg (·.workspace.top.file?) (perform_write_error h)).trans hadds.2

theorem writeSource_ok (h : s.perform (writeSource out src false) = (.ok (), s')) :
    s.workspace.Puts out (bytes src) s'.workspace ∧
      s.workspace.Replaces out (bytes src) s'.workspace := by
  obtain ⟨s₁, hs₁, w, hw, rfl⟩ := writeSource_ok_iff.1 h
  have hadds := s.adds_makeParent out
  rw [hs₁] at hadds
  exact ⟨Workspace.puts_of_write hadds hw, Workspace.replaces_of_write hadds hw⟩

theorem writeSource_dry_ok_iff : s.perform (writeSource out src true) = (.ok (), s') ↔
    s' = s ∧ s.workspace.read out = .ok (bytes src) := by
  simp only [writeSource, if_true, Session.perform_bind_eq_ok_iff, perform_readText_eq_ok_iff]
  constructor
  · rintro ⟨current, s₁, ⟨hread, rfl⟩, h⟩
    by_cases he : current = src
    · subst he
      rw [if_neg (by simp)] at h
      cases h
      exact ⟨rfl, hread⟩
    · rw [if_pos he] at h
      cases h
  · rintro ⟨rfl, hread⟩
    exact ⟨src, s', ⟨hread, rfl⟩, by simp⟩

theorem inert_writeSource_dry : Inert (writeSource out src true) := by
  simp only [writeSource, if_true]
  refine (inert_readText _ _).bind fun current => ?_
  split
  · exact Inert.throw _
  · exact Inert.pure _

/-- A document that is there is worked on, and then its source is written or compared. -/
theorem perform_runGenerate {text : List UInt8} (hread : s.workspace.read decls = .ok text)
    (dry : Bool) : s.perform (runGenerate decls out options dry) =
      match source options decls text with
      | .ok src => s.perform (writeSource out src dry)
      | .error e => (.error e, s) := by
  rw [runGenerate, Session.perform_bind, Session.perform_read, hread]
  change s.perform (liftM (source options decls text) >>= _) = _
  rw [Session.perform_bind, Session.perform_liftM]
  cases source options decls text with
  | error e => rfl
  | ok src => rfl

theorem runGenerate_ok (h : s.perform (runGenerate decls out options false) = (.ok (), s')) :
    ∃ text src, s.workspace.read decls = .ok text ∧ source options decls text = .ok src ∧
      s.workspace.Puts out (bytes src) s'.workspace := by
  simp only [runGenerate, Session.perform_bind_eq_ok_iff, Session.perform_read,
    Session.perform_liftM, Prod.mk.injEq, Except.mapError_eq_ok_iff] at h
  obtain ⟨text, s₁, ⟨hread, rfl⟩, src, s₂, ⟨hsrc, rfl⟩, h⟩ := h
  exact ⟨text, src, hread, hsrc, (writeSource_ok h).1⟩

theorem runGenerate_dry_ok_iff :
    s.perform (runGenerate decls out options true) = (.ok (), s') ↔
      s' = s ∧ ∃ text src, s.workspace.read decls = .ok text ∧ source options decls text = .ok src ∧
        s.workspace.read out = .ok (bytes src) := by
  simp only [runGenerate, Session.perform_bind_eq_ok_iff, Session.perform_read,
    Session.perform_liftM, Prod.mk.injEq, Except.mapError_eq_ok_iff]
  constructor
  · rintro ⟨text, s₁, ⟨hread, rfl⟩, src, s₂, ⟨hsrc, rfl⟩, h⟩
    obtain ⟨hs, hout⟩ := writeSource_dry_ok_iff.1 h
    exact ⟨hs, text, src, hread, hsrc, hout⟩
  · rintro ⟨rfl, text, src, hread, hsrc, hout⟩
    exact ⟨text, s', ⟨hread, rfl⟩, src, s', ⟨hsrc, rfl⟩, writeSource_dry_ok_iff.2 ⟨rfl, hout⟩⟩

theorem inert_runGenerate_dry : Inert (runGenerate decls out options true) :=
  (Inert.read _ _).bind fun _ => (Inert.liftM _).bind fun _ => inert_writeSource_dry

/-! ## Generated source -/

theorem exists_bytes_header (digest : Option String) :
    ∃ rest, bytes (File.header digest) = 0x2f :: rest := by
  have hfirst : "// @generated by modimport. Do not edit.\n" =
      "/" ++ "/ @generated by modimport. Do not edit.\n" := by decide
  have hslash : bytes "/" = [0x2f] := by decide
  unfold File.header
  rw [hfirst, Json.bytes_append, Json.bytes_append, hslash]
  exact ⟨_, rfl⟩

/-- A generated file starts as a comment. -/
theorem exists_bytes_ofResults (digest : Option String)
    (results : List (Except Rejection Generated)) :
    ∃ rest, bytes (File.ofResults digest results).source = 0x2f :: rest := by
  obtain ⟨rest, hrest⟩ := exists_bytes_header digest
  rw [File.ofResults, Json.bytes_append, hrest]
  exact ⟨_, rfl⟩

theorem exists_bytes_source {path : String} {text : List UInt8}
    (h : source options path text = .ok src) : ∃ rest, bytes src = 0x2f :: rest := by
  obtain ⟨d, -, h⟩ := Except.bind_eq_ok_iff.1 h
  generalize hfile : File.generate options (some (sha256 text)) d.surfaces = file at h
  by_cases hok : file.isOk = true
  · rw [if_pos hok] at h
    cases h
    exact hfile ▸ exists_bytes_ofResults ..
  · rw [if_neg hok] at h
    cases h

/-- No record is read from a comment. -/
theorem record_comment_ne_ok {α ρ : Type} {name : String} {fields : Option (Json.Fields α)}
    {make : α → ρ} {rest : List UInt8} {r : ρ} :
    Json.readAll (Json.Tree.record name fields make) (0x2f :: rest) ≠ .ok r := by
  intro h
  have hread : ∃ after, Json.Tree.read (0x2f :: rest) = (.absent 0 (some 0x2f), after) := by
    rw [Json.Tree.read, List.length_cons, Nat.mul_succ]
    exact ⟨_, rfl⟩
  obtain ⟨after, hread⟩ := hread
  have := Json.readAll_eq_ok h
  rw [hread] at this
  cases this

theorem source_ne_document {path path' : String} {text : List UInt8} {d : Document}
    (h : source options path text = .ok src) : document path' (bytes src) ≠ .ok d := by
  intro hd
  obtain ⟨rest, hrest⟩ := exists_bytes_source h
  obtain ⟨hread, -⟩ := Document.parse_eq_ok_iff.1 (Except.mapError_eq_ok_iff.1 hd)
  rw [hrest] at hread
  exact record_comment_ne_ok hread

/-- A dry run that succeeds has read its document elsewhere. -/
theorem not_same_of_dry_ok (h : s.perform (runGenerate decls out options true) = (.ok (), s')) :
    ¬ s.workspace.Same out decls := by
  obtain ⟨-, text, src, hread, hsrc, hout⟩ := runGenerate_dry_ok_iff.1 h
  intro hsame
  obtain rfl := hsame.read_eq hout hread
  obtain ⟨d, hd, -⟩ := Except.bind_eq_ok_iff.1 hsrc
  exact source_ne_document hsrc hd

end Command

/-! ## Both runs -/

/-- Every surface of a document gets a module. -/
def Document.Generates (options : Source.Options) (d : Document) : Prop :=
  ∀ result ∈ generateAll options d.surfaces, ∃ g, result = .ok g

theorem Document.isOk_generate_iff {options : Source.Options} {d : Document}
    (digest : Option String) :
    (File.generate options digest d.surfaces).isOk = true ↔ d.Generates options := by
  rw [File.isOk, File.generate, File.ofResults, List.isEmpty_iff, List.filterMap_eq_nil_iff]
  refine forall₂_congr fun result _ => ?_
  cases result with
  | error rejection => exact ⟨nofun, nofun⟩
  | ok g => exact iff_of_true rfl ⟨g, rfl⟩

namespace Command

variable {s : Session} {decls : String} {text : List UInt8}

/-- A document gives a source when all of its surfaces get modules. -/
theorem source_eq_ok_iff {options : Source.Options} {src : String} :
    source options decls text = .ok src ↔ ∃ d, Document.parse text = .ok d ∧ d.Generates options ∧
      src = (File.generate options (some (sha256 text)) d.surfaces).source := by
  simp only [source, Except.bind_eq_ok_iff, document, Except.mapError_eq_ok_iff]
  refine exists_congr fun d => and_congr_right fun _ => ?_
  rw [← Document.isOk_generate_iff (some (sha256 text))]
  split
  · next hok => exact ⟨fun h => ⟨hok, (Except.ok.inj h).symm⟩, fun h => by rw [h.2]; rfl⟩
  · next hbad => exact ⟨nofun, fun h => absurd h.1 hbad⟩

theorem runGenerate_dry_iff {out src : String} {options : Source.Options}
    (hread : s.workspace.read decls = .ok text) (hsrc : source options decls text = .ok src) :
    (s.perform (runGenerate decls out options true)).1 = .ok () ↔
      s.workspace.read out = .ok (bytes src) := by
  rw [perform_runGenerate hread, hsrc]
  exact ⟨fun h => (writeSource_dry_ok_iff.1 (Prod.ext h rfl)).2,
    fun h => congrArg Prod.fst (writeSource_dry_ok_iff.2 ⟨rfl, h⟩)⟩

section
variable {s' : Session} {out src : String} {options : Source.Options}

/-- After a source has been written the dry run succeeds unless the document was written over. -/
theorem runGenerate_dry_after (hread : s.workspace.read decls = .ok text)
    (hsrc : source options decls text = .ok src)
    (hputs : s.workspace.Puts out (bytes src) s'.workspace) :
    (s'.perform (runGenerate decls out options true)).1 = .ok () ↔
      ¬ s'.workspace.Same out decls := by
  constructor
  · exact fun h => not_same_of_dry_ok (Prod.ext h rfl)
  · exact fun hne => (runGenerate_dry_iff (hputs.others hread hne) hsrc).2 hputs.read

/-- The dry run fails on any other file in the place of the source. -/
theorem runGenerate_dry_changed (hread : s.workspace.read decls = .ok text)
    (hsrc : source options decls text = .ok src)
    (hputs : s.workspace.Puts out (bytes src) s'.workspace) {text' : List UInt8} {w : Workspace}
    (hne : text' ≠ bytes src) (hw : s'.workspace.write out text' = .ok w) :
    (Session.perform { s' with workspace := w } (runGenerate decls out options true)).1 ≠
      .ok () := by
  intro h
  have hsame := not_same_of_dry_ok (Prod.ext h rfl)
  have hputs' := Workspace.puts_of_write (.refl _) hw
  have hkept := hputs'.others (hputs.others hread fun h => hsame (hputs'.growth.same h)) hsame
  have hout := (runGenerate_dry_iff hkept hsrc).1 h
  exact hne (Except.ok.inj (hputs'.read.symm.trans hout))

end

/-- Generating a file and checking it agree on a document that is there.  When it is none, or
    one of its surfaces is rejected, both fail alike and change nothing.  Else there is a
    source, which is written where a file can be written, and no other file changes; the dry
    run never changes anything and succeeds iff the file holds that source.  After the source
    has been written the dry run succeeds unless the document was written over, and it fails
    once the file has been changed. -/
theorem generate_agrees (hread : s.workspace.read decls = .ok text) (out : String)
    (options : Source.Options) :
    let gen (s : Session) := s.execute (.generate decls out options false)
    let verify (s : Session) := s.execute (.generate decls out options true)
    ((¬ ∃ d, Document.parse text = .ok d ∧ d.Generates options) →
        ∃ e, gen s = (.error e, s) ∧ verify s = (.error e, s)) ∧
      ∀ d, Document.parse text = .ok d → d.Generates options →
        let src := (File.generate options (some (sha256 text)) d.surfaces).source
        ((gen s).1 = .ok () ↔ s.CanWrite out) ∧
        ((gen s).1 ≠ .ok () → (gen s).2.workspace.top.file? = s.workspace.top.file?) ∧
        ((verify s).2 = s ∧ ((verify s).1 = .ok () ↔ s.workspace.read out = .ok (bytes src))) ∧
        ∀ s', gen s = (.ok (), s') → s.workspace.Replaces out (bytes src) s'.workspace ∧
          ((verify s').2 = s' ∧ ((verify s').1 = .ok () ↔ ¬ s'.workspace.Same out decls)) ∧
          ∀ text' w, text' ≠ bytes src → s'.workspace.write out text' = .ok w →
            (verify { s' with workspace := w }).1 ≠ .ok () := by
  intro gen verify
  have hgen (s : Session) : gen s = s.perform (runGenerate decls out options false) := rfl
  have hverify (s : Session) : verify s = s.perform (runGenerate decls out options true) := rfl
  have hinert (s : Session) : (verify s).2 = s := inert_runGenerate_dry s
  constructor
  · intro hnone
    rw [hgen, hverify, perform_runGenerate hread, perform_runGenerate hread]
    cases hsrc : source options decls text with
    | error e => exact ⟨e, rfl, rfl⟩
    | ok src =>
      obtain ⟨d, hd, hgenerates, -⟩ := source_eq_ok_iff.1 hsrc
      exact absurd ⟨d, hd, hgenerates⟩ hnone
  · intro d hd hgenerates src
    have hsrc : source options decls text = .ok src :=
      source_eq_ok_iff.2 ⟨d, hd, hgenerates, rfl⟩
    have hwrite : gen s = s.perform (writeSource out src false) := by
      rw [hgen, perform_runGenerate hread, hsrc]
    refine ⟨?_, fun hfail => ?_, ⟨hinert s, runGenerate_dry_iff hread hsrc⟩, fun s' h => ?_⟩
    · rw [hwrite]
      exact writeSource_ok_iff_canWrite
    · rw [hwrite] at hfail ⊢
      exact file?_writeSource hfail
    · rw [hwrite] at h
      obtain ⟨hputs, hreplaces⟩ := writeSource_ok h
      exact ⟨hreplaces, ⟨hinert s', runGenerate_dry_after hread hsrc hputs⟩,
        fun text' w hne hw => runGenerate_dry_changed hread hsrc hputs hne hw⟩

end Command

namespace Scored

/-- The text of a marked container with a method. -/
def text : List UInt8 :=
  bytes ("\x7b\"schema_version\":\"modimport.decls@0.1.0\",\"containers\":[" ++
    "\x7b\"name\":\"Score\",\"partial\":true,\"import\":\x7b\"surface\":\"Score\"\x7d," ++
    "\"methods\":[\x7b\"name\":\"Add\",\"partial\":true,\"returns\":\"i32\"\x7d]\x7d]\x7d")

/-- A workspace with the text in a file. -/
def session : Session :=
  { workspace := .ofFiles [] [("a.json", text)] }

/-- Its document. -/
def document : Document :=
  ⟨"modimport.decls@0.1.0", [⟨"Score", true, some ⟨some "Score", none⟩,
    [⟨"Add", true, [], some "i32", none⟩], []⟩]⟩

set_option maxRecDepth 10000 in
theorem parse_text : Document.parse text = .ok document := by rfl

/-- The file generated from it beside it is found to be right. -/
theorem generate_agrees_score : ∃ s' src,
    session.execute (.generate "a.json" "gen/o.rs" {} false) = (.ok (), s') ∧
      session.workspace.Replaces "gen/o.rs" (bytes src) s'.workspace ∧
      s'.execute (.generate "a.json" "gen/o.rs" {} true) = (.ok (), s') := by
  have hread : session.workspace.read "a.json" = .ok text := by decide +kernel
  have hgenerates : document.Generates {} :=
    (Document.isOk_generate_iff none).1 (by decide +kernel)
  have hcan : session.CanWrite "gen/o.rs" := ⟨by rfl, [], _, by rfl⟩
  obtain ⟨hgen, -, -, hafter⟩ :=
    (Command.generate_agrees hread "gen/o.rs" {}).2 document parse_text hgenerates
  have hout : (((session.execute (.generate "a.json" "gen/o.rs" {} false)).2.workspace.locate
      "gen/o.rs").toOption == some ["gen", "o.rs"]) = true := by decide +kernel
  have hdecls : (((session.execute (.generate "a.json" "gen/o.rs" {} false)).2.workspace.locate
      "a.json").toOption == some ["a.json"]) = true := by decide +kernel
  rcases h : session.execute (.generate "a.json" "gen/o.rs" {} false) with ⟨r, s'⟩
  rw [h] at hout hdecls
  obtain rfl : r = .ok () := (congrArg Prod.fst h).symm.trans (hgen.2 hcan)
  obtain ⟨hreplaces, ⟨hkept, hsame⟩, -⟩ := hafter s' h
  refine ⟨s', _, rfl, hreplaces, Prod.ext (hsame.2 ?_) hkept⟩
  rintro ⟨p, hp, hq⟩
  rw [hp] at hout
  rw [hq] at hdecls
  exact absurd ((beq_iff_eq.1 hout).symm.trans (beq_iff_eq.1 hdecls)) (by decide)

end Scored

end ImportBinding
