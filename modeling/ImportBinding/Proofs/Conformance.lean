/-
  ImportBinding — quickfixes repair documents.

  The quickfixes of a report are found on a document and applied, one after the other, to
  the value of its text.  Each was found before any was applied.

  * `Mended` is what holds between two operations: the value is mended at the targets that
    were met and holds the document mended there, and its records have the forms they had;
  * `Mended.step` and `Mended.apply_eq` are one operation and one patch, `Mended.applyAll_eq`
    is a list of quickfixes, each with what makes it fail;
  * `Document.applyQuickfixes_repairs` is the whole run on a report.
-/
import ImportBinding.Proofs.Declaration.Simulation
import ImportBinding.Proofs.Patch.Mend

namespace ImportBinding

open Json (Pointer Tree)
open Patch (Op)

/-! ## Targets as a selection -/

/-- The selection of some pointers. -/
def Selection.ofList (ps : List Pointer) : Selection := fun p =>
  decide (p ∈ ps)

theorem Selection.ofList_nil : ofList [] = fun _ => false := by
  funext p
  simp [ofList]

theorem Selection.insert_ofList (ps : List Pointer) (T : Pointer) :
    (ofList ps).insert T = ofList (ps ++ [T]) := by
  funext p
  simp [insert, ofList, Bool.decide_or, Bool.beq_eq_decide_eq]

theorem Container.Target.editPath {c : Container} {T : Pointer} (h : c.Target T) :
    Patch.EditPath T := by
  induction h with
  | notPartial => exact .setPartial
  | method _ _ h => cases h <;> exact .item (Or.inr rfl) (by constructor)
  | nested _ _ ih => exact .item (Or.inl rfl) ih

theorem Document.Target.editPath {d : Document} {T : Pointer} (h : d.Target T) :
    Patch.EditPath T := by
  obtain ⟨_, h⟩ := h
  exact .item (Or.inl rfl) h.editPath

/-! ## Runs -/

/-- The value `u` comes from `v`, the value of the document `d`, by the operations at the
    targets of `done`. -/
structure Mended (D : Nat) (d : Document) (v : Json) (done : List Pointer) (u : Json) : Prop where
  origin : v.Addressable
  value : u = v.mend (.ofList done)
  addressable : u.Addressable
  reads : Document.read D (.ofJson u) = .ok (d.mend (.ofList done))
  forms : ∀ p, u.MeetsArray p ↔ v.MeetsArray p

namespace Mended

variable {D : Nat} {d : Document} {v u : Json} {done : List Pointer}

theorem start (hv : v.Addressable) (hr : Document.read D (.ofJson v) = .ok d) :
    Mended D d v [] v where
  origin := hv
  value := by rw [Selection.ofList_nil, v.mend_empty]
  addressable := hv
  reads := by rw [Selection.ofList_nil, d.mend_empty, hr]
  forms := fun _ => Iff.rfl

/-- An operation mends the document at its target. -/
theorem step (h : Mended D d v done u) {T : Pointer} (hT : d.Target T) (hm : ¬ v.MeetsArray T)
    (hfresh : T.isBody = true → T ∉ done) :
    (Op.mending T).apply u = .ok (Patch.edit T u) ∧
      Mended D d v (done ++ [T]) (Patch.edit T u) := by
  have hnew : T.isBody = true → Selection.ofList done T = false := fun hb => by
    simpa [Selection.ofList] using hfresh hb
  obtain ⟨u', he, hr⟩ := hT.exists_edits hnew h.addressable
    (fun hu => hm ((h.forms T).1 hu)) h.reads
  obtain rfl := he.eq_edit
  refine ⟨he.apply_eq, h.origin, ?_, he.addressable h.addressable, ?_, fun p => ?_⟩
  · rw [he.eq_mend h.origin h.value, Selection.insert_ofList]
  · rw [hr, Selection.insert_ofList]
  · exact he.meetsArray_iff.trans (h.forms p)

/-- An operation fails when a record in array form is in its way. -/
theorem step_error (h : Mended D d v done u) {T : Pointer} (hT : d.Target T)
    (hm : v.MeetsArray T) : ∃ fault, (Op.mending T).apply u = .error fault :=
  Patch.apply_meetsArray ((h.forms T).2 hm) h.addressable hT.editPath

theorem not_mem_of_nodup {T : Pointer} {rest : List Pointer}
    (h : ((done ++ T :: rest).filter Pointer.isBody).Nodup) (hb : T.isBody = true) :
    T ∉ done := by
  intro hT
  rw [List.filter_append, List.filter_cons_of_pos hb] at h
  exact (List.nodup_append'.1 h).2.2 (List.mem_filter.2 ⟨hT, hb⟩) List.mem_cons_self

/-- A patch mends the document at its targets. -/
theorem apply_eq {ts : List Pointer} : ∀ {done : List Pointer} {u : Json}, Mended D d v done u →
    (∀ T ∈ ts, d.Target T) → ((done ++ ts).filter Pointer.isBody).Nodup →
    (∀ T ∈ ts, ¬ v.MeetsArray T) →
    Patch.apply (ts.map Op.mending) u = (Patch.editAll ts u, none) ∧
      Mended D d v (done ++ ts) (Patch.editAll ts u) := by
  induction ts with
  | nil =>
    intro done u h _ _ _
    exact ⟨rfl, by rwa [List.append_nil]⟩
  | cons T rest ih =>
    intro done u h hT hn hm
    obtain ⟨hu₁, h₁⟩ := h.step (hT T List.mem_cons_self) (hm T List.mem_cons_self)
      (not_mem_of_nodup hn)
    rw [List.append_cons] at hn ⊢
    obtain ⟨hu', h'⟩ := ih h₁ (fun T' h => hT T' (List.mem_cons_of_mem _ h)) hn
      (fun T' h => hm T' (List.mem_cons_of_mem _ h))
    refine ⟨?_, h'⟩
    rw [List.map_cons, Patch.apply, hu₁]
    exact hu'

theorem apply {ts : List Pointer} {done : List Pointer} {u : Json} (h : Mended D d v done u)
    (hT : ∀ T ∈ ts, d.Target T) (hn : ((done ++ ts).filter Pointer.isBody).Nodup)
    (hm : ∀ T ∈ ts, ¬ v.MeetsArray T) :
    ∃ u', Patch.apply (ts.map Op.mending) u = (u', none) ∧ Mended D d v (done ++ ts) u' :=
  ⟨_, h.apply_eq hT hn hm⟩

/-- A patch fails when a record in array form is in the way of one of its operations. -/
theorem apply_error {ts : List Pointer} : ∀ {done : List Pointer} {u : Json},
    Mended D d v done u → (∀ T ∈ ts, d.Target T) →
    ((done ++ ts).filter Pointer.isBody).Nodup → (∃ T ∈ ts, v.MeetsArray T) →
    ∃ fault, (Patch.apply (ts.map Op.mending) u).2 = some fault := by
  induction ts with
  | nil => rintro done u h _ _ ⟨T, hT, -⟩; exact absurd hT (by simp)
  | cons T rest ih =>
    intro done u h hT hn hm
    rw [List.map_cons, Patch.apply]
    by_cases hhead : v.MeetsArray T
    · obtain ⟨fault, hf⟩ := h.step_error (hT T List.mem_cons_self) hhead
      rw [hf]
      exact ⟨fault, rfl⟩
    · obtain ⟨hu₁, h₁⟩ := h.step (hT T List.mem_cons_self) hhead (not_mem_of_nodup hn)
      obtain ⟨T', hT', hm'⟩ := hm
      have hrest : T' ∈ rest := by
        rcases List.mem_cons.1 hT' with rfl | hT'
        · exact absurd hm' hhead
        · exact hT'
      rw [List.append_cons] at hn
      rw [hu₁]
      exact ih h₁ (fun T' h => hT T' (List.mem_cons_of_mem _ h)) hn ⟨T', hrest, hm'⟩

end Mended

/-! ## Quickfixes -/

/-- The pointers that a quickfix edits. -/
def Quickfix.targets (q : Quickfix) : List Pointer :=
  q.patch.map fun op => (Pointer.tokens? op.path).getD []

/-- A quickfix that only mends. -/
def Quickfix.Mends (q : Quickfix) : Prop :=
  q.patch = q.targets.map Op.mending

namespace Mended

variable {D : Nat} {d : Document} {v : Json}

/-- Quickfixes mend the document at their targets. -/
theorem applyAll_eq {qs : List Quickfix} : ∀ {done : List Pointer} {u : Json},
    Mended D d v done u → (∀ q ∈ qs, q.Mends) → (∀ T ∈ qs.flatMap Quickfix.targets, d.Target T) →
    ((done ++ qs.flatMap Quickfix.targets).filter Pointer.isBody).Nodup →
    (∀ T ∈ qs.flatMap Quickfix.targets, ¬ v.MeetsArray T) →
    Quickfix.applyAll qs u =
        (Patch.editAll (qs.flatMap Quickfix.targets) u, .ok qs.length) ∧
      Mended D d v (done ++ qs.flatMap Quickfix.targets)
        (Patch.editAll (qs.flatMap Quickfix.targets) u) := by
  induction qs with
  | nil =>
    intro done u h _ _ _ _
    refine ⟨rfl, ?_⟩
    rw [List.flatMap_nil, List.append_nil]
    exact h
  | cons q rest ih =>
    intro done u h hq hT hn hm
    rw [List.flatMap_cons] at hT hm hn ⊢
    rw [← List.append_assoc] at hn ⊢
    have hhead : ((done ++ q.targets).filter Pointer.isBody).Nodup := by
      rw [List.filter_append] at hn
      exact (List.nodup_append'.1 hn).1
    obtain ⟨hu₁, h₁⟩ := h.apply_eq (fun T h => hT T (List.mem_append_left _ h)) hhead
      (fun T h => hm T (List.mem_append_left _ h))
    obtain ⟨hw, hmended⟩ := ih h₁ (fun q h => hq q (List.mem_cons_of_mem _ h))
      (fun T h => hT T (List.mem_append_right _ h)) hn (fun T h => hm T (List.mem_append_right _ h))
    rw [Patch.editAll_append]
    refine ⟨?_, hmended⟩
    rw [← hq q List.mem_cons_self] at hu₁
    rw [Quickfix.applyAll, hu₁]
    dsimp only
    rw [hw]
    rfl

theorem applyAll {qs : List Quickfix} {done : List Pointer} {u : Json} (h : Mended D d v done u)
    (hq : ∀ q ∈ qs, q.Mends) (hT : ∀ T ∈ qs.flatMap Quickfix.targets, d.Target T)
    (hn : ((done ++ qs.flatMap Quickfix.targets).filter Pointer.isBody).Nodup)
    (hm : ∀ T ∈ qs.flatMap Quickfix.targets, ¬ v.MeetsArray T) :
    ∃ w, Quickfix.applyAll qs u = (w, .ok qs.length) ∧
      Mended D d v (done ++ qs.flatMap Quickfix.targets) w :=
  ⟨_, h.applyAll_eq hq hT hn hm⟩

/-- Quickfixes fail when a record in array form is in the way of one of them. -/
theorem applyAll_error {qs : List Quickfix} : ∀ {done : List Pointer} {u : Json},
    Mended D d v done u → (∀ q ∈ qs, q.Mends) →
    (∀ T ∈ qs.flatMap Quickfix.targets, d.Target T) →
    ((done ++ qs.flatMap Quickfix.targets).filter Pointer.isBody).Nodup →
    (∃ T ∈ qs.flatMap Quickfix.targets, v.MeetsArray T) →
    ∃ fault, (Quickfix.applyAll qs u).2 = .error fault := by
  induction qs with
  | nil => rintro done u h _ _ _ ⟨T, hT, -⟩; exact absurd hT (by simp)
  | cons q rest ih =>
    intro done u h hq hT hn hm
    rw [List.flatMap_cons] at hT hm hn
    rw [← List.append_assoc] at hn
    have hhead : ((done ++ q.targets).filter Pointer.isBody).Nodup := by
      rw [List.filter_append] at hn
      exact (List.nodup_append'.1 hn).1
    have hpatch : q.patch = q.targets.map Op.mending := hq q List.mem_cons_self
    rw [Quickfix.applyAll]
    by_cases hblocked : ∃ T ∈ q.targets, v.MeetsArray T
    · obtain ⟨fault, hf⟩ :=
        h.apply_error (fun T h => hT T (List.mem_append_left _ h)) hhead hblocked
      rw [← hpatch] at hf
      rw [show Patch.apply q.patch u = ((Patch.apply q.patch u).1, some fault) from Prod.ext rfl hf]
      exact ⟨fault, rfl⟩
    · obtain ⟨u₁, hu₁, h₁⟩ := h.apply (fun T h => hT T (List.mem_append_left _ h)) hhead
        (fun T hT hm => hblocked ⟨T, hT, hm⟩)
      obtain ⟨T, hT', hm'⟩ := hm
      have hrest : T ∈ rest.flatMap Quickfix.targets := by
        rcases List.mem_append.1 hT' with hT' | hT'
        · exact absurd ⟨T, hT', hm'⟩ hblocked
        · exact hT'
      obtain ⟨fault, hf⟩ := ih h₁ (fun q h => hq q (List.mem_cons_of_mem _ h))
        (fun T h => hT T (List.mem_append_right _ h)) hn ⟨T, hrest, hm'⟩
      rw [hpatch, hu₁]
      dsimp only
      rw [hf]
      exact ⟨fault, rfl⟩

end Mended

/-! ## Reports -/

/-- The operation of a flaw mends its target. -/
theorem Flaw.fix_eq (f : Flaw) : f.fix = Op.mending f.target := by
  cases f <;> simp [fix, target, markPartial, Op.mending]

theorem Flaw.tokens?_fix (f : Flaw) : Pointer.tokens? f.fix.path = some f.target := by
  cases f <;> exact Pointer.tokens?_text _

theorem Site.targets_quickfix (flaws : List Flaw) :
    (Site.quickfix flaws).targets = flaws.map Flaw.target := by
  simp [Quickfix.targets, quickfix, Flaw.tokens?_fix]

theorem Site.mends_quickfix (flaws : List Flaw) : (Site.quickfix flaws).Mends := by
  rw [Quickfix.Mends, targets_quickfix, quickfix, List.map_map]
  exact List.map_congr_left fun f _ => f.fix_eq

/-- A site has a diagnostic unless it has no flaws, and the diagnostic has a quickfix. -/
theorem Site.diagnostic?_eq (s : Site) :
    (s.flaws = [] ∧ s.diagnostic? = none) ∨
      ∃ x, s.diagnostic? = some x ∧ x.quickfix = some (quickfix s.flaws) := by
  unfold diagnostic?
  split
  · next h => exact Or.inl ⟨h, rfl⟩
  · exact Or.inr ⟨_, rfl, rfl⟩

/-- The quickfixes of diagnostics of sites. -/
theorem filterMap_quickfix (ss : List Site) :
    ((ss.filterMap Site.diagnostic?).filterMap Diagnostic.quickfix).length =
        (ss.filterMap Site.diagnostic?).length ∧
      (∀ q ∈ (ss.filterMap Site.diagnostic?).filterMap Diagnostic.quickfix, q.Mends) ∧
      ((ss.filterMap Site.diagnostic?).filterMap Diagnostic.quickfix).flatMap Quickfix.targets =
        flawTargets ss := by
  induction ss with
  | nil => simp [flawTargets]
  | cons s rest ih =>
    obtain ⟨hlen, hmends, htargets⟩ := ih
    rcases s.diagnostic?_eq with ⟨hnil, hnone⟩ | ⟨x, hsome, hq⟩
    · rw [List.filterMap_cons_none hnone]
      refine ⟨hlen, hmends, ?_⟩
      rw [htargets, flawTargets, flawTargets, List.flatMap_cons, hnil]
      rfl
    · rw [List.filterMap_cons_some hsome, List.filterMap_cons_some hq]
      refine ⟨by rw [List.length_cons, List.length_cons, hlen], ?_, ?_⟩
      · intro q' hq'
        rcases List.mem_cons.1 hq' with rfl | hq'
        · exact Site.mends_quickfix _
        · exact hmends q' hq'
      · rw [List.flatMap_cons, htargets, Site.targets_quickfix]
        rfl

namespace Document

theorem quickfixes_check_perm (d : Document) :
    d.check.quickfixes.Perm
      ((d.sites.filterMap Site.diagnostic?).filterMap Diagnostic.quickfix) :=
  (Report.diagnostics_perm _).filterMap _

theorem length_quickfixes_check (d : Document) :
    d.check.quickfixes.length = d.check.diagnostics.length := by
  rw [d.quickfixes_check_perm.length_eq, (filterMap_quickfix d.sites).1]
  exact (Report.diagnostics_perm _).length_eq.symm

theorem mends_of_mem_quickfixes {d : Document} {q : Quickfix} (h : q ∈ d.check.quickfixes) :
    q.Mends :=
  (filterMap_quickfix d.sites).2.1 q (d.quickfixes_check_perm.mem_iff.1 h)

/-- In the order of the report the quickfixes have the targets of the document. -/
theorem targets_check_perm (d : Document) :
    (d.check.quickfixes.flatMap Quickfix.targets).Perm (flawTargets d.sites) := by
  rw [← (filterMap_quickfix d.sites).2.2]
  exact d.quickfixes_check_perm.flatMap_right _

theorem target_iff_mem_check {d : Document} {T : Pointer} :
    T ∈ d.check.quickfixes.flatMap Quickfix.targets ↔ d.Target T :=
  d.targets_check_perm.mem_iff.trans mem_targets_iff

theorem nodup_bodies_check (d : Document) :
    ((d.check.quickfixes.flatMap Quickfix.targets).filter Pointer.isBody).Nodup :=
  (d.targets_check_perm.filter _).nodup_iff.2 d.nodup_bodies

/-- The report of a repaired document is clean. -/
theorem diagnostics_check_repair (d : Document) : d.repair.check.diagnostics = [] := by
  have hsites : d.repair.sites.filterMap Site.diagnostic? = [] := by
    refine List.filterMap_eq_nil_iff.2 fun s hs => ?_
    rcases s.diagnostic?_eq with ⟨-, hnone⟩ | ⟨x, hsome, -⟩
    · exact hnone
    · cases hf : s.flaws with
      | nil => rw [Site.diagnostic?, hf]
      | cons f rest =>
        have hmem : f.target ∈ flawTargets d.repair.sites :=
          List.mem_flatMap.2 ⟨s, hs, by rw [hf]; exact List.mem_cons_self⟩
        exact absurd (mem_targets_iff.1 hmem) (d.not_target_repair _)
  exact List.perm_nil.1 (hsites ▸ Report.diagnostics_perm _)

end Document

/-- An operation of a quickfix has a record in array form in its way. -/
def Report.Blocked (r : Report) (v : Json) : Prop :=
  ∃ q ∈ r.quickfixes, ∃ op ∈ q.patch, ∃ p, Pointer.tokens? op.path = some p ∧ v.MeetsArray p

theorem Document.blocked_check_iff {d : Document} {v : Json} :
    d.check.Blocked v ↔ ∃ T ∈ d.check.quickfixes.flatMap Quickfix.targets, v.MeetsArray T := by
  constructor
  · rintro ⟨q, hq, op, hop, p, hp, hm⟩
    refine ⟨p, List.mem_flatMap.2 ⟨q, hq, List.mem_map.2 ⟨op, hop, ?_⟩⟩, hm⟩
    rw [hp]
    rfl
  · rintro ⟨T, hT, hm⟩
    obtain ⟨q, hq, hTq⟩ := List.mem_flatMap.1 hT
    have hop : Op.mending T ∈ q.patch := by
      rw [show q.patch = q.targets.map Op.mending from mends_of_mem_quickfixes hq]
      exact List.mem_map_of_mem hTq
    refine ⟨q, hq, Op.mending T, hop, T, ?_, hm⟩
    unfold Op.mending
    split <;> exact Pointer.tokens?_text T

/-- Quickfixes that succeed have no record in array form in their way. -/
theorem Document.not_blocked_of_ok {D n : Nat} {d : Document} {v : Json} (hv : v.Addressable)
    (hr : Document.read D (.ofJson v) = .ok d) (hn : (d.check.applyQuickfixes v).2 = .ok n) :
    ¬ d.check.Blocked v := by
  intro hblocked
  obtain ⟨fault, hf⟩ := (Mended.start hv hr).applyAll_error
    (fun _ => mends_of_mem_quickfixes) (fun _ => target_iff_mem_check.1) d.nodup_bodies_check
    (blocked_check_iff.1 hblocked)
  cases hf.symm.trans hn

/-- The quickfixes of a document repair its text: they fail iff a record in array form is in
    the way of one, and else leave a value that holds the repaired document, whose report is
    clean.  No text has more bytes than the machine has addresses. -/
theorem Document.applyQuickfixes_repairs {text : List UInt8} {d : Document} {v : Json}
    (hsize : text.length < UInt64.size) (hd : Document.parse text = .ok d)
    (hv : Json.ofText text = .ok v) :
    ((∃ fault, (d.check.applyQuickfixes v).2 = .error fault) ↔ d.check.Blocked v) ∧
    (¬ d.check.Blocked v → ∃ w, d.check.applyQuickfixes v = (w, .ok d.check.diagnostics.length) ∧
      Document.read Json.maxDepth (.ofJson w) = .ok d.repair) ∧
    d.repair.check.diagnostics = [] := by
  obtain ⟨w₀, hw₀, hcanonical⟩ := Json.content_of_ofText hv
  have haddressable : v.Addressable := hcanonical ▸ Json.addressable_of_read hsize hw₀
  have hstart := Mended.start haddressable (Document.read_value_of_parse hd hv)
  have hmends : ∀ q ∈ d.check.quickfixes, q.Mends := fun q hq => mends_of_mem_quickfixes hq
  have htargets : ∀ T ∈ d.check.quickfixes.flatMap Quickfix.targets, d.Target T :=
    fun T hT => target_iff_mem_check.1 hT
  have hbodies : (([] ++ d.check.quickfixes.flatMap Quickfix.targets).filter
      Pointer.isBody).Nodup :=
    (d.targets_check_perm.filter _).nodup_iff.2 d.nodup_bodies
  have hclear : ¬ d.check.Blocked v → ∃ w, d.check.applyQuickfixes v =
      (w, .ok d.check.diagnostics.length) ∧
      Document.read Json.maxDepth (.ofJson w) = .ok d.repair := by
    intro hblocked
    obtain ⟨w, hw, hmended⟩ := hstart.applyAll hmends htargets hbodies
      (fun T hT hm => hblocked (blocked_check_iff.2 ⟨T, hT, hm⟩))
    refine ⟨w, by rw [Report.applyQuickfixes, hw, d.length_quickfixes_check], ?_⟩
    rw [hmended.reads, List.nil_append]
    refine congrArg _ (Document.mend_eq_repair fun p => ?_)
    rw [Selection.ofList, decide_eq_true_iff]
    exact target_iff_mem_check
  refine ⟨⟨?_, fun hblocked => ?_⟩, hclear, d.diagnostics_check_repair⟩
  · rintro ⟨fault, hf⟩
    apply Classical.byContradiction
    intro hblocked
    obtain ⟨w, hw, -⟩ := hclear hblocked
    rw [hw] at hf
    cases hf
  · exact hstart.applyAll_error hmends htargets hbodies (blocked_check_iff.1 hblocked)

namespace Implemented

/-- The text of a marked container with an implemented method, none of them partial. -/
def text : List UInt8 :=
  Json.bytes ("\x7b\"schema_version\":\"modimport.decls@0.1.0\",\"containers\":[" ++
    "\x7b\"name\":\"A\",\"import\":\x7b\x7d,\"methods\":[\x7b\"name\":\"f\",\"body\":1\x7d]\x7d]\x7d")

/-- Its document. -/
def document : Document :=
  ⟨"modimport.decls@0.1.0", [⟨"A", false, some ⟨none, none⟩,
    [⟨"f", false, [], none, some (.number (.integer 1))⟩], []⟩]⟩

/-- Its value. -/
def value : Json :=
  .object [("containers", .array [.object [("import", .object []),
    ("methods", .array [.object [("body", .number (.integer 1)), ("name", .string "f")]]),
    ("name", .string "A")]]), ("schema_version", .string "modimport.decls@0.1.0")]

set_option maxRecDepth 10000 in
theorem parse_text : Document.parse text = .ok document := by rfl

set_option maxRecDepth 10000 in
theorem ofText_text : Json.ofText text = .ok value := by rfl

/-- Three operations repair it. -/
theorem applyQuickfixes_repairs_value : ∃ w,
    document.check.applyQuickfixes value = (w, .ok 1) ∧
      Document.read Json.maxDepth (.ofJson w) = .ok document.repair := by
  have hone : document.check.diagnostics.length = 1 := by
    rw [← document.length_quickfixes_check, document.quickfixes_check_perm.length_eq]
    rfl
  have hsize : text.length < UInt64.size := by decide +kernel
  obtain ⟨hfault, hrepairs, -⟩ :=
    Document.applyQuickfixes_repairs hsize parse_text ofText_text
  have hclear : ¬ document.check.Blocked value := fun h => by
    obtain ⟨fault, hf⟩ := hfault.2 h
    have hok : (document.check.applyQuickfixes value).2.isOk = true := by decide +kernel
    rw [hf] at hok
    cases hok
  obtain ⟨w, hw, hr⟩ := hrepairs hclear
  exact ⟨w, hone ▸ hw, hr⟩

end Implemented

end ImportBinding
