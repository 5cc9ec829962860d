/-
  ImportBinding — checking a batch that has been generated.

  A batch writes its files one after the other, and a file that is written twice keeps
  what was written last.  So what the dry run of the batch finds depends on where the
  paths of the entries lead.

  * `Builds` is the writing of the files of entries;
  * `Builds.read_kept` and `Builds.exists_last` are what is in a file after all have been
    written;
  * `Clear`: nothing that is read is written, and what is written twice is the same;
  * `batch_verifies`: the dry run after a batch succeeds iff the batch is clear.
-/
import ImportBinding.Proofs.Command.Generate

namespace ImportBinding

open Json (bytes)

/-! ## The files of entries -/

/-- No manifest is generated. -/
theorem Command.source_ne_manifest {path path' : String} {text : List UInt8} {m : Manifest}
    (h : source options path text = .ok src) : manifest path' (bytes src) ≠ .ok m := by
  intro hm
  obtain ⟨rest, hrest⟩ := exists_bytes_source h
  obtain ⟨m', hm', -⟩ := Except.bind_eq_ok_iff.1 hm
  rw [hrest] at hm'
  exact record_comment_ne_ok (Except.mapError_eq_ok_iff.1 hm')

namespace Manifest.Entry

/-- The path of the document of an entry. -/
def document (base : String) (e : Entry) : String :=
  Path.join base e.decls

/-- The path of the file of an entry. -/
def output (base : String) (e : Entry) : String :=
  Path.join base e.out

/-- The bytes of a document give the source of an entry. -/
def Gives (base : String) (e : Entry) (text : List UInt8) (src : String) : Prop :=
  Command.source e.options (e.document base) text = .ok src

end Manifest.Entry

open Manifest (Entry)

namespace Workspace

variable {w w' : Workspace} {base : String} {e : Entry} {es : List Entry}

/-- The writing of the files of entries, one after the other. -/
inductive Builds (base : String) : Workspace → List Entry → Workspace → Prop where
  | nil {w : Workspace} : Builds base w [] w
  | cons {w w₁ w' : Workspace} {e : Entry} {es : List Entry} {text : List UInt8} {src : String}
      (hread : w.read (e.document base) = .ok text) (hgives : e.Gives base text src)
      (hputs : w.Puts (e.output base) (bytes src) w₁) (h : Builds base w₁ es w') :
      Builds base w (e :: es) w'

/-- The file of an entry holds the source of its document. -/
def Current (w : Workspace) (base : String) (e : Entry) : Prop :=
  ∃ text src, w.read (e.document base) = .ok text ∧ e.Gives base text src ∧
    w.read (e.output base) = .ok (bytes src)

namespace Builds

theorem growth (h : Builds base w es w') : w.Extends w' := by
  induction h with
  | nil => exact .refl _
  | cons _ _ hputs _ ih => exact hputs.growth.trans ih

/-- A file that no entry leads to stays as it was. -/
theorem read_kept (h : Builds base w es w') {path : String} {x : List UInt8}
    (hx : w.read path = .ok x) (hne : ∀ e ∈ es, ¬ w'.Same (e.output base) path) :
    w'.read path = .ok x := by
  induction h with
  | nil => exact hx
  | cons _ _ hputs h ih =>
    refine ih (hputs.others hx fun hsame => ?_) fun e he => hne e (List.mem_cons_of_mem _ he)
    exact hne _ List.mem_cons_self (h.growth.same hsame)

/-- The source of every entry came from its document, which is still the same unless an
    entry leads there. -/
theorem exists_gives (h : Builds base w es w') (he : e ∈ es) : ∃ text src, e.Gives base text src ∧
    ((∀ e' ∈ es, ¬ w'.Same (e'.output base) (e.document base)) →
      w'.read (e.document base) = .ok text) := by
  induction h with
  | nil => exact absurd he (by simp)
  | @cons w w₁ w' e₀ es text src hread hgives hputs h ih =>
    rcases List.mem_cons.1 he with rfl | he
    · exact ⟨text, src, hgives, (Builds.cons hread hgives hputs h).read_kept hread⟩
    · obtain ⟨text, src, hgives, hkept⟩ := ih he
      exact ⟨text, src, hgives, fun hne =>
        hkept fun e' he' => hne e' (List.mem_cons_of_mem _ he')⟩

/-- The file of every entry holds what was written there last. -/
theorem exists_last (h : Builds base w es w') (he : e ∈ es) : ∃ e' ∈ es, ∃ text src,
    w'.Same (e'.output base) (e.output base) ∧ e'.Gives base text src ∧
      w'.read (e.output base) = .ok (bytes src) ∧
      ((∀ e'' ∈ es, ¬ w'.Same (e''.output base) (e'.document base)) →
        w'.read (e'.document base) = .ok text) := by
  induction h generalizing e with
  | nil => exact absurd he (by simp)
  | @cons w w₁ w' e₀ es text src hread hgives hputs h ih =>
    -- what is written behind the first file is written last
    have hrest : ∀ e ∈ es, ∃ e' ∈ e₀ :: es, ∃ text src,
        w'.Same (e'.output base) (e.output base) ∧ e'.Gives base text src ∧
          w'.read (e.output base) = .ok (bytes src) ∧
          ((∀ e'' ∈ e₀ :: es, ¬ w'.Same (e''.output base) (e'.document base)) →
            w'.read (e'.document base) = .ok text) := by
      intro e he
      obtain ⟨e', he', text, src, hsame, hgives, hsrc, hkept⟩ := ih he
      exact ⟨e', List.mem_cons_of_mem _ he', text, src, hsame, hgives, hsrc, fun hne =>
        hkept fun e'' he'' => hne e'' (List.mem_cons_of_mem _ he'')⟩
    rcases List.mem_cons.1 he with rfl | he
    · have hslash := (read_eq_ok_iff.1 hputs.read).1
      by_cases hlater : ∃ e₁ ∈ es, w'.Same (e₁.output base) (e.output base)
      · obtain ⟨e₁, he₁, hsame₁⟩ := hlater
        obtain ⟨e', he', text, src, hsame, hgives, hsrc, hkept⟩ := hrest e₁ he₁
        exact ⟨e', he', text, src, hsame.trans hsame₁, hgives, hsame₁.read hsrc hslash, hkept⟩
      · refine ⟨e, List.mem_cons_self, text, src, ?_, hgives, ?_, ?_⟩
        · exact h.growth.same (same_of_read hputs.read)
        · exact h.read_kept hputs.read fun e₁ he₁ hsame => hlater ⟨e₁, he₁, hsame⟩
        · exact (Builds.cons hread hgives hputs h).read_kept hread
    · exact hrest e he

end Builds

/-! ## Clear batches -/

/-- No entry leads to the manifest or to a document, and entries that lead to the same file
    have the same source. -/
structure Clear (w : Workspace) (path base : String) (es : List Entry) : Prop where
  manifest : ∀ e ∈ es, ¬ w.Same (e.output base) path
  documents : ∀ e ∈ es, ∀ e' ∈ es, ¬ w.Same (e.output base) (e'.document base)
  sources : ∀ e ∈ es, ∀ e' ∈ es, w.Same (e.output base) (e'.output base) →
    ∀ text src text' src', w.read (e.document base) = .ok text → e.Gives base text src →
      w.read (e'.document base) = .ok text' → e'.Gives base text' src' → src = src'

/-- The files of a clear batch are current. -/
theorem Builds.current (h : Builds base w es w') {path : String} (hc : w'.Clear path base es)
    (he : e ∈ es) : w'.Current base e := by
  obtain ⟨text, src, hgives, hkept⟩ := h.exists_gives he
  obtain ⟨e', he', text', src', hsame, hgives', hsrc, hkept'⟩ := h.exists_last he
  have hread := hkept fun e'' he'' => hc.documents e'' he'' e he
  have hread' := hkept' fun e'' he'' => hc.documents e'' he'' e' he'
  obtain rfl := hc.sources e' he' e he hsame _ _ _ _ hread' hgives' hread hgives
  exact ⟨text, src', hread, hgives, hsrc⟩

/-- Where a manifest is left, no entry leads. -/
theorem Builds.not_same_manifest (h : Builds base w es w') {path : String} {x : List UInt8}
    {m : Manifest} (hx : w'.read path = .ok x) (hm : Command.manifest path x = .ok m) :
    ∀ e ∈ es, ¬ w'.Same (e.output base) path := by
  intro e he hsame
  obtain ⟨e', -, text, src, -, hgives, hsrc, -⟩ := h.exists_last he
  obtain rfl := hsame.read_eq hsrc hx
  exact Command.source_ne_manifest hgives hm

/-- A batch whose files are current, and whose manifest is one, is clear. -/
theorem Builds.clear (h : Builds base w es w') {path : String} {x : List UInt8} {m : Manifest}
    (hx : w'.read path = .ok x) (hm : Command.manifest path x = .ok m)
    (hcurrent : ∀ e ∈ es, w'.Current base e) : w'.Clear path base es where
  manifest := h.not_same_manifest hx hm
  documents := by
    intro e he e₁ he₁ hsame
    obtain ⟨e', -, text, src, -, hgives, hsrc, -⟩ := h.exists_last he
    obtain ⟨text₁, src₁, hread₁, hgives₁, -⟩ := hcurrent e₁ he₁
    obtain rfl := hsame.read_eq hsrc hread₁
    obtain ⟨d, hd, -⟩ := Except.bind_eq_ok_iff.1 hgives₁
    exact Command.source_ne_document hgives hd
  sources := by
    intro e he e₁ he₁ hsame text src text₁ src₁ hread hgives hread₁ hgives₁
    obtain ⟨x, y, hx, hy, hsrc⟩ := hcurrent e he
    obtain ⟨x₁, y₁, hx₁, hy₁, hsrc₁⟩ := hcurrent e₁ he₁
    cases hread.symm.trans hx
    cases hread₁.symm.trans hx₁
    cases hgives.symm.trans hy
    cases hgives₁.symm.trans hy₁
    exact Json.bytes_inj (hsame.read_eq hsrc hsrc₁)

end Workspace

/-! ## Batches -/

namespace Command

variable {s s' : Session} {base path : String} {es : List Entry}

theorem runEntry_ok {i : Nat} {e : Entry} (h : s.perform (runEntry base false i e) = (.ok (), s')) :
    ∃ text src, s.workspace.read (e.document base) = .ok text ∧ e.Gives base text src ∧
      s.workspace.Puts (e.output base) (bytes src) s'.workspace := by
  rw [runEntry, Session.perform_adapt, Prod.mk.injEq, Except.mapError_eq_ok_iff] at h
  exact runGenerate_ok (Prod.ext h.1 h.2)

theorem runEntry_dry_ok_iff {i : Nat} {e : Entry} :
    s.perform (runEntry base true i e) = (.ok (), s') ↔ s' = s ∧ s.workspace.Current base e := by
  rw [runEntry, Session.perform_adapt, Prod.mk.injEq, Except.mapError_eq_ok_iff]
  exact Prod.ext_iff.symm.trans runGenerate_dry_ok_iff

theorem runEntries_ok : ∀ {es : List Entry} {i : Nat} {s : Session},
    s.perform (runEntries base false i es) = (.ok (), s') →
      s.workspace.Builds base es s'.workspace
  | [], _, _, h => by cases h; exact .nil
  | e :: es, i, s, h => by
    obtain ⟨_, s₁, he, h⟩ := Session.perform_bind_eq_ok_iff.1 h
    obtain ⟨text, src, hread, hgives, hputs⟩ := runEntry_ok he
    exact .cons hread hgives hputs (runEntries_ok h)

theorem runEntries_dry_ok_iff {i : Nat} : s.perform (runEntries base true i es) = (.ok (), s') ↔
    s' = s ∧ ∀ e ∈ es, s.workspace.Current base e := by
  induction es generalizing i with
  | nil =>
    rw [runEntries, Session.perform_pure]
    simp [eq_comm]
  | cons e es ih =>
    rw [runEntries, Session.perform_bind_eq_ok_iff, List.forall_mem_cons]
    constructor
    · rintro ⟨_, s₁, he, h⟩
      obtain ⟨rfl, hcurrent⟩ := runEntry_dry_ok_iff.1 he
      obtain ⟨rfl, hrest⟩ := ih.1 h
      exact ⟨rfl, hcurrent, hrest⟩
    · rintro ⟨rfl, hcurrent, hrest⟩
      exact ⟨(), s', runEntry_dry_ok_iff.2 ⟨rfl, hcurrent⟩, ih.2 ⟨rfl, hrest⟩⟩

theorem inert_runEntries_dry : (es : List Entry) → (i : Nat) → Inert (runEntries base true i es)
  | [], _ => Inert.pure ()
  | _ :: es, i =>
    (inert_runGenerate_dry.adapt _).bind fun _ => inert_runEntries_dry es (i + 1)

/-- The directory that the paths of a manifest start from. -/
def manifestBase (path : String) : String :=
  (Path.parent? path).getD ""

/-- A batch that succeeds has read its manifest and built its files. -/
theorem execute_batch_ok (h : s.execute (.batch path false) = (.ok (), s')) :
    ∃ x m, s.workspace.read path = .ok x ∧ manifest path x = .ok m ∧
      s.workspace.Builds (manifestBase path) m.entries s'.workspace := by
  change s.perform (runBatch path false) = _ at h
  simp only [runBatch, Session.perform_bind_eq_ok_iff, Session.perform_read,
    Session.perform_liftM, Prod.mk.injEq, Except.mapError_eq_ok_iff] at h
  obtain ⟨x, s₁, ⟨hread, rfl⟩, m, s₂, ⟨hm, rfl⟩, h⟩ := h
  exact ⟨x, m, hread, hm, runEntries_ok h⟩

/-- The dry run of a batch succeeds where its files are current. -/
theorem execute_batch_dry_ok_iff : s.execute (.batch path true) = (.ok (), s') ↔
    s' = s ∧ ∃ x m, s.workspace.read path = .ok x ∧ manifest path x = .ok m ∧
      ∀ e ∈ m.entries, s.workspace.Current (manifestBase path) e := by
  change s.perform (runBatch path true) = _ ↔ _
  simp only [runBatch, Session.perform_bind_eq_ok_iff, Session.perform_read,
    Session.perform_liftM, Prod.mk.injEq, Except.mapError_eq_ok_iff]
  constructor
  · rintro ⟨x, s₁, ⟨hread, rfl⟩, m, s₂, ⟨hm, rfl⟩, h⟩
    obtain ⟨hs, hcurrent⟩ := runEntries_dry_ok_iff.1 h
    exact ⟨hs, x, m, hread, hm, hcurrent⟩
  · rintro ⟨rfl, x, m, hread, hm, hcurrent⟩
    exact ⟨x, s', ⟨hread, rfl⟩, m, s', ⟨hm, rfl⟩, runEntries_dry_ok_iff.2 ⟨rfl, hcurrent⟩⟩

theorem inert_runBatch_dry (path : String) : Inert (runBatch path true) :=
  (Inert.read _ _).bind fun _ => (Inert.liftM _).bind fun _ => inert_runEntries_dry _ _

/-- After a batch its dry run changes nothing, and it succeeds iff the batch is clear in the
    workspace that was left. -/
theorem batch_verifies (h : s.execute (.batch path false) = (.ok (), s')) :
    (s'.execute (.batch path true)).2 = s' ∧
      ∃ x m, s.workspace.read path = .ok x ∧ manifest path x = .ok m ∧
        ((s'.execute (.batch path true)).1 = .ok () ↔
          s'.workspace.Clear path (manifestBase path) m.entries) := by
  have hinert : (s'.execute (.batch path true)).2 = s' := inert_runBatch_dry path s'
  obtain ⟨x, m, hread, hm, hbuilds⟩ := execute_batch_ok h
  refine ⟨hinert, x, m, hread, hm, fun hok => ?_, fun hclear => ?_⟩
  · obtain ⟨-, x', m', hread', hm', hcurrent⟩ := execute_batch_dry_ok_iff.1 (Prod.ext hok hinert)
    cases (hbuilds.read_kept hread (hbuilds.not_same_manifest hread' hm')).symm.trans hread'
    cases hm.symm.trans hm'
    exact hbuilds.clear hread' hm hcurrent
  · have hkept := hbuilds.read_kept hread hclear.manifest
    have hcurrent : ∀ e ∈ m.entries, s'.workspace.Current (manifestBase path) e :=
      fun _ he => hbuilds.current hclear he
    exact congrArg Prod.fst (execute_batch_dry_ok_iff.2 ⟨rfl, x, m, hkept, hm, hcurrent⟩)

end Command

namespace TwoDocuments

/-- A document without containers, with blanks behind it. -/
def document (blanks : String) : List UInt8 :=
  bytes ("\x7b\"schema_version\":\"modimport.decls@0.1.0\"\x7d" ++ blanks)

/-- A manifest with an entry for each of two documents. -/
def manifest (out : String) : List UInt8 :=
  bytes ("\x7b\"schema_version\":\"modimport.manifest@0.1.0\",\"entries\":[" ++
    "\x7b\"decls\":\"a.json\",\"out\":\"o.rs\"\x7d," ++
    "\x7b\"decls\":\"b.json\",\"out\":\"" ++ out ++ "\"\x7d]\x7d")

/-- A workspace with the manifest and two documents that differ in their digests. -/
def session (out : String) : Session :=
  { workspace := .ofFiles []
      [("a.json", document ""), ("b.json", document " "), ("m.json", manifest out)] }

/-- With a file for each document the batch is clear. -/
theorem batch_verifies_apart : ∃ (s' : Session) (x : List UInt8) (m : Manifest),
    (session "gen/p.rs").execute (.batch "m.json" false) = (.ok (), s') ∧
      (s'.execute (.batch "m.json" true)).2 = s' ∧
      (session "gen/p.rs").workspace.read "m.json" = .ok x ∧
      Command.manifest "m.json" x = .ok m ∧
      s'.workspace.Clear "m.json" (Command.manifestBase "m.json") m.entries := by
  have hboth : (match (session "gen/p.rs").execute (.batch "m.json" false) with
      | (r, s') => r.isOk && (s'.execute (.batch "m.json" true)).1.isOk) = true := by
    decide +kernel
  rcases h : (session "gen/p.rs").execute (.batch "m.json" false) with ⟨e | u, s'⟩
  · rw [h] at hboth
    cases hboth
  · rw [h] at hboth
    have hdry : (s'.execute (.batch "m.json" true)).1.isOk = true := hboth
    obtain ⟨hsame, x, m, hx, hm, hclear⟩ := Command.batch_verifies h
    refine ⟨s', x, m, rfl, hsame, hx, hm, hclear.1 ?_⟩
    rcases hr : (s'.execute (.batch "m.json" true)).1 with e | u
    · rw [hr] at hdry
      cases hdry
    · rfl

/-- With one file for both documents the batch succeeds and its dry run fails. -/
theorem batch_shared : ((session "o.rs").execute (.batch "m.json" false)).1.isOk = true ∧
    (((session "o.rs").execute (.batch "m.json" false)).2.execute
      (.batch "m.json" true)).1.isOk = false := by
  decide +kernel

end TwoDocuments

end ImportBinding
