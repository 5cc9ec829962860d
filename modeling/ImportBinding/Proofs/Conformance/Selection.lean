/-
  ImportBinding — some of the quickfixes of a report.

  The quickfixes of a report can be applied one without the other, and in any order.  They
  share the marks of containers around more than one site, and nothing else, so what is left
  to report is what none of those applied has mended.

  * `Address.ReportedIn`: some diagnostics tell of the container at an address;
  * `Document.At.reported_mend_iff`: what is reported of a mended document;
  * `Document.method_not_mem_selectedTargets`: what is wrong with methods is for one quickfix;
  * `Document.apply_selected` is any choice of quickfixes in any order.
-/
import ImportBinding.Proofs.Conformance.Exactness
import Mathlib.Data.List.Flatten

namespace ImportBinding

open Json (Pointer Tree)
open Patch (Op)

/-! ## What is reported -/

/-- Some of the diagnostics tell of the container at an address. -/
def Address.ReportedIn (a : Address) (xs : List Diagnostic) : Prop :=
  ∃ x ∈ xs, x.location = some ⟨a.pointer.text⟩

namespace Document

variable {d : Document} {a : Address} {around : List Place} {c : Container} {S : Selection}

theorem reported_iff : a.ReportedIn d.check.diagnostics ↔
    ∃ s ∈ d.sites, s.pointer = a.pointer ∧ s.flaws ≠ [] := by
  constructor
  · rintro ⟨x, hx, hloc⟩
    obtain ⟨s, hs, hsx⟩ := mem_check_iff.1 hx
    rw [Site.location_of_diagnostic? hsx, Option.some.injEq, Location.mk.injEq] at hloc
    exact ⟨s, hs, text_inj hloc, Site.diagnostic?_eq_some_iff.1 ⟨x, hsx⟩⟩
  · rintro ⟨s, hs, hp, hflaws⟩
    obtain ⟨x, hsx⟩ := Site.diagnostic?_eq_some_iff.2 hflaws
    exact ⟨x, mem_check_iff.2 ⟨s, hs, hsx⟩, by rw [Site.location_of_diagnostic? hsx, hp]⟩

/-- A mended document is reported where a target is left. -/
theorem reported_mend_iff_sites : a.ReportedIn (d.mend S).check.diagnostics ↔
    ∃ s ∈ d.sites, s.pointer = a.pointer ∧ ∃ T ∈ s.flaws.map Flaw.target, S T = false := by
  rw [reported_iff, sites_mend]
  constructor
  · rintro ⟨_, hmended, hp, hflaws⟩
    obtain ⟨s, hs, rfl⟩ := List.mem_map.1 hmended
    obtain ⟨f, hf⟩ := List.exists_mem_of_ne_nil _ hflaws
    exact ⟨s, hs, hp, _, Site.mem_targets_mend_iff.1 (List.mem_map_of_mem hf)⟩
  · rintro ⟨s, hs, hp, T, hT⟩
    exact ⟨s.mend S, List.mem_map_of_mem hs, hp,
      Site.flaws_ne_nil_of_target (Site.mem_targets_mend_iff.2 hT)⟩

/-- A container of a mended document is reported when it is marked, and it or one around it is
    not partial, or one of its methods breaks a condition, and this was not mended. -/
theorem At.reported_mend_iff (h : d.At a around c) :
    a.ReportedIn (d.mend S).check.diagnostics ↔ c.mark.isSome = true ∧
      ((∃ e ∈ around ++ [⟨c, a.pointer⟩], e.container.isPartial = false ∧
          S (e.pointer ++ ["partial"]) = false) ∨
        ∃ i m q, c.methods[i]? = some m ∧ m.Target q ∧
          S (a.pointer ++ "methods" :: Nat.repr i :: q) = false) := by
  rw [reported_mend_iff_sites]
  simp only [mem_flaws_iff, List.mem_append, List.mem_singleton]
  constructor
  · rintro ⟨s, hs, hp, T, hT, hS⟩
    obtain ⟨b, hb⟩ := exists_siteAt hs
    obtain rfl := Address.pointer_inj.1 (hb.pointer.symm.trans hp)
    obtain ⟨rfl, rfl⟩ := h.unique hb.container
    refine ⟨by rw [hb.mark]; rfl, ?_⟩
    rcases hT with ⟨e, he, hpartial, rfl⟩ | ⟨hpartial, rfl⟩ | ⟨i, m, q, hi, hq, rfl⟩
    · exact Or.inl ⟨e, Or.inl he, hpartial, hS⟩
    · exact Or.inl ⟨_, Or.inr rfl, hpartial, hp ▸ hS⟩
    · exact Or.inr ⟨i, m, q, hi, hq, hp ▸ hS⟩
  · rintro ⟨hmark, hleft⟩
    obtain ⟨mark, hmark⟩ := Option.isSome_iff_exists.1 hmark
    refine ⟨_, h.site_mem hmark, rfl, ?_⟩
    rcases hleft with ⟨e, he | rfl, hpartial, hS⟩ | ⟨i, m, q, hi, hq, hS⟩
    · exact ⟨_, Or.inl ⟨e, he, hpartial, rfl⟩, hS⟩
    · exact ⟨_, Or.inr (Or.inl ⟨hpartial, rfl⟩), hS⟩
    · exact ⟨_, Or.inr (Or.inr ⟨i, m, q, hi, hq, rfl⟩), hS⟩

end Document

/-! ## Selected quickfixes -/

/-- The targets of the quickfixes of some diagnostics. -/
def selectedTargets (xs : List Diagnostic) : List Pointer :=
  (xs.filterMap Diagnostic.quickfix).flatMap Quickfix.targets

/-- A quickfix of some diagnostics marks the container at a pointer as partial. -/
def MarksPartial (xs : List Diagnostic) (p : Pointer) : Prop :=
  ∃ x ∈ xs, ∃ q, x.quickfix = some q ∧ Flaw.markPartial p ∈ q.patch

theorem mem_selectedTargets_iff {xs : List Diagnostic} {T : Pointer} :
    T ∈ selectedTargets xs ↔ ∃ x ∈ xs, ∃ q, x.quickfix = some q ∧ T ∈ q.targets := by
  simp only [selectedTargets, List.mem_flatMap, List.mem_filterMap]
  constructor
  · rintro ⟨q, ⟨x, hx, hq⟩, hT⟩
    exact ⟨x, hx, q, hq, hT⟩
  · rintro ⟨x, hx, q, hq, hT⟩
    exact ⟨q, ⟨x, hx, hq⟩, hT⟩

namespace Document

variable {d : Document} {xs : List Diagnostic}

/-- A diagnostic of a report is that of a site. -/
theorem exists_site {x : Diagnostic} (hx : x ∈ d.check.diagnostics) :
    ∃ s ∈ d.sites, x.location = some ⟨s.pointer.text⟩ ∧
      x.quickfix = some (Site.quickfix s.flaws) := by
  obtain ⟨s, hs, hsx⟩ := mem_check_iff.1 hx
  refine ⟨s, hs, Site.location_of_diagnostic? hsx, ?_⟩
  rcases s.diagnostic?_eq with ⟨-, hnone⟩ | ⟨y, hsome, hq⟩
  · cases hnone.symm.trans hsx
  · obtain rfl := Option.some.inj (hsome.symm.trans hsx)
    exact hq

theorem target_of_mem_selectedTargets (hxs : ∀ x ∈ xs, x ∈ d.check.diagnostics) {T : Pointer}
    (hT : T ∈ selectedTargets xs) : d.Target T := by
  obtain ⟨x, hx, q, hq, hTq⟩ := mem_selectedTargets_iff.1 hT
  exact target_iff_mem_check.1
    (List.mem_flatMap.2 ⟨q, List.mem_filterMap.2 ⟨x, hxs x hx, hq⟩, hTq⟩)

theorem marksPartial_iff (hxs : ∀ x ∈ xs, x ∈ d.check.diagnostics) {p : Pointer} :
    MarksPartial xs p ↔ p ++ ["partial"] ∈ selectedTargets xs := by
  rw [mem_selectedTargets_iff]
  refine exists_congr fun x => and_congr_right fun hx => exists_congr fun q =>
    and_congr_right fun hq => ?_
  obtain ⟨s, -, -, hs⟩ := exists_site (hxs x hx)
  obtain rfl := Option.some.inj (hs.symm.trans hq)
  have hmark : Flaw.markPartial p = Op.mending (p ++ ["partial"]) := by
    simp [Flaw.markPartial, Op.mending]
  rw [Site.targets_quickfix]
  constructor
  · intro h
    obtain ⟨f, hf, hfix⟩ := List.mem_map.1 h
    have htokens := f.tokens?_fix
    rw [hfix] at htokens
    rw [Option.some.inj ((Pointer.tokens?_text _).symm.trans htokens)]
    exact List.mem_map_of_mem hf
  · intro h
    obtain ⟨f, hf, htarget⟩ := List.mem_map.1 h
    rw [hmark, ← htarget, ← f.fix_eq]
    exact List.mem_map_of_mem hf

/-- The quickfix of one container does nothing to the methods of another. -/
theorem method_not_mem_selectedTargets (hxs : ∀ x ∈ xs, x ∈ d.check.diagnostics) {a : Address}
    (ha : ¬ a.ReportedIn xs) (p : Pointer) : a.pointer ++ "methods" :: p ∉ selectedTargets xs := by
  intro hT
  obtain ⟨x, hx, q, hq, hT⟩ := mem_selectedTargets_iff.1 hT
  obtain ⟨s, hs, hloc, hq'⟩ := exists_site (hxs x hx)
  obtain rfl := Option.some.inj (hq'.symm.trans hq)
  obtain ⟨b, hb⟩ := exists_siteAt hs
  rw [Site.targets_quickfix, mem_flaws_iff, hb.pointer] at hT
  rcases hT with ⟨e, he, -, hT⟩ | ⟨-, hT⟩ | ⟨i, m, q, -, -, hT⟩
  · obtain ⟨e', he'⟩ := hb.container.exists_pointer_around e he
    rw [he'] at hT
    exact absurd (Address.pointer_append_inj (by decide) (by decide) hT).2 (by decide)
  · exact absurd (Address.pointer_append_inj (by decide) (by decide) hT).2 (by decide)
  · obtain ⟨rfl, -⟩ := Address.pointer_append_inj (by decide) (by decide) hT
    exact ha ⟨x, hx, by rw [hloc, hb.pointer]⟩

theorem site_inj {s s' : Site} (hs : s ∈ d.sites) (hs' : s' ∈ d.sites)
    (hp : s.pointer = s'.pointer) : s = s' :=
  List.inj_on_of_nodup_map (List.pairwise_map.2 (pairwise_sitesFrom d.containers)) hs hs' hp

/-- The quickfix of a container does all that there is to do for it. -/
theorem mem_selectedTargets_of_reportedIn (hxs : ∀ x ∈ xs, x ∈ d.check.diagnostics) {a : Address}
    (ha : a.ReportedIn xs) {s : Site} (hs : s ∈ d.sites) (hp : s.pointer = a.pointer) {T : Pointer}
    (hT : T ∈ s.flaws.map Flaw.target) : T ∈ selectedTargets xs := by
  obtain ⟨x, hx, hloc⟩ := ha
  obtain ⟨s', hs', hloc', hq⟩ := exists_site (hxs x hx)
  rw [hloc', Option.some.injEq, Location.mk.injEq] at hloc
  obtain rfl := site_inj hs hs' (hp.trans (text_inj hloc).symm)
  exact mem_selectedTargets_iff.2 ⟨x, hx, _, hq, by rwa [Site.targets_quickfix]⟩

/-! ## Runs -/

/-- Some quickfixes of a report mend the document at their targets. -/
theorem applyAll_selected {D : Nat} {v : Json} (hv : v.Addressable)
    (hr : read D (.ofJson v) = .ok d) (hclear : ¬ d.check.Blocked v)
    (hxs : xs.Subperm d.check.diagnostics) :
    Quickfix.applyAll (xs.filterMap Diagnostic.quickfix) v =
        (Patch.editAll (selectedTargets xs) v, .ok xs.length) ∧
      Mended D d v (selectedTargets xs) (Patch.editAll (selectedTargets xs) v) := by
  obtain ⟨zs, hperm, hsub⟩ := hxs
  have hquickfixes : ∀ q ∈ xs.filterMap Diagnostic.quickfix, q ∈ d.check.quickfixes :=
    fun q hq => (hsub.filterMap _).subset ((hperm.filterMap _).mem_iff.2 hq)
  have htargets : ∀ T ∈ selectedTargets xs, d.Target T := fun T =>
    target_of_mem_selectedTargets fun x hx => hsub.subset (hperm.mem_iff.2 hx)
  have hbodies : (([] ++ selectedTargets xs).filter Pointer.isBody).Nodup := by
    have hsome := d.nodup_bodies_check.sublist
      (((hsub.filterMap _).flatMap Quickfix.targets).filter _)
    exact (((hperm.filterMap _).flatMap_right Quickfix.targets).filter _).nodup_iff.1 hsome
  have hlength : (xs.filterMap Diagnostic.quickfix).length = xs.length := by
    refine List.filterMap_length_eq_length.2 fun x hx => ?_
    obtain ⟨s, -, -, hq⟩ := exists_site (hsub.subset (hperm.mem_iff.2 hx))
    rw [hq]
    rfl
  obtain ⟨hrun, hmended⟩ := (Mended.start hv hr).applyAll_eq
    (fun q hq => mends_of_mem_quickfixes (hquickfixes q hq)) htargets hbodies
    (fun T hT hm => hclear (blocked_check_iff.2 ⟨T, target_iff_mem_check.2 (htargets T hT), hm⟩))
  exact ⟨by rw [hrun, hlength]; rfl, hmended⟩

/-- When all quickfixes of a report succeed, they mend the document at all its targets. -/
theorem mended_of_ok {D n : Nat} {v w : Json} (hv : v.Addressable)
    (hr : read D (.ofJson v) = .ok d) (h : d.check.applyQuickfixes v = (w, .ok n)) :
    Mended D d v (selectedTargets d.check.diagnostics) w := by
  have hn : (d.check.applyQuickfixes v).2 = .ok n := by rw [h]
  obtain ⟨hrun, hmended⟩ :=
    applyAll_selected hv hr (not_blocked_of_ok hv hr hn) (List.Subperm.refl d.check.diagnostics)
  have hrun' : (w, Except.ok n) = _ := h.symm.trans hrun
  rwa [(Prod.mk.inj hrun').1]

theorem mem_selectedTargets_check {T : Pointer} :
    T ∈ selectedTargets d.check.diagnostics ↔ d.Target T :=
  target_iff_mem_check

theorem mend_selectedTargets_check (d : Document) :
    d.mend (.ofList (selectedTargets d.check.diagnostics)) = d.repair :=
  mend_eq_repair fun _ => decide_eq_true_iff.trans mem_selectedTargets_check

/-- When all quickfixes of a report succeed, so do some of them, in any order, and each order
    leaves the same value.  It holds a document of which no container is reported whose quickfix
    was applied, and none that was not reported before.  A container whose quickfix was not
    applied is reported iff it is marked, and it or one around it is not partial and was not
    marked as partial by any of those applied, or one of its methods is not partial or has a
    body. -/
theorem apply_selected {D : Nat} {v : Json} (hv : v.Addressable)
    (hr : read D (.ofJson v) = .ok d) {n : Nat} (hn : (d.check.applyQuickfixes v).2 = .ok n)
    (hxs : xs.Sublist d.check.diagnostics) :
    ∃ w d', read D (.ofJson w) = .ok d' ∧
      (∀ ys : List Diagnostic, ys.Perm xs →
        Quickfix.applyAll (ys.filterMap Diagnostic.quickfix) v = (w, .ok xs.length)) ∧
      (∀ a : Address, a.ReportedIn xs → ¬ a.ReportedIn d'.check.diagnostics) ∧
      (∀ a : Address, a.ReportedIn d'.check.diagnostics → a.ReportedIn d.check.diagnostics) ∧
      ∀ a around c, d.At a around c → ¬ a.ReportedIn xs →
        (a.ReportedIn d'.check.diagnostics ↔ c.mark.isSome = true ∧
          ((∃ e ∈ around ++ [⟨c, a.pointer⟩], e.container.isPartial = false ∧
              ¬ MarksPartial xs e.pointer) ∨
            ∃ m ∈ c.methods, m.isPartial = false ∨ m.body.isSome = true)) := by
  have hclear : ¬ d.check.Blocked v := not_blocked_of_ok hv hr hn
  have hreport : ∀ x ∈ xs, x ∈ d.check.diagnostics := fun x hx => hxs.subset hx
  have hleft : ∀ T, Selection.ofList (selectedTargets xs) T = false ↔ T ∉ selectedTargets xs :=
    fun T => decide_eq_false_iff_not
  obtain ⟨-, hmended⟩ := applyAll_selected hv hr hclear hxs.subperm
  refine ⟨_, _, hmended.reads, fun ys hys => ?_, fun a ha => ?_, fun a ha => ?_,
    fun a around c hat ha => ?_⟩
  · obtain ⟨hrun, -⟩ := applyAll_selected hv hr hclear (hys.subperm.trans hxs.subperm)
    have hsame : Patch.editAll (selectedTargets ys) v = Patch.editAll (selectedTargets xs) v := by
      refine Patch.editAll_perm ((hys.filterMap _).flatMap_right _) (fun T hT => ?_) hv
      exact (target_of_mem_selectedTargets (fun x hx => hreport x (hys.mem_iff.1 hx)) hT).editPath
    rw [hrun, hsame, hys.length_eq]
  · rw [reported_mend_iff_sites]
    rintro ⟨s, hs, hp, T, hT, hout⟩
    exact (hleft T).1 hout (mem_selectedTargets_of_reportedIn hreport ha hs hp hT)
  · obtain ⟨s, hs, hp, T, hT, -⟩ := reported_mend_iff_sites.1 ha
    exact reported_iff.2 ⟨s, hs, hp, Site.flaws_ne_nil_of_target hT⟩
  · rw [hat.reported_mend_iff]
    refine and_congr_right fun _ => or_congr ?_ ?_
    · refine exists_congr fun e => and_congr_right fun _ => and_congr_right fun _ => ?_
      rw [hleft, marksPartial_iff hreport]
    · constructor
      · rintro ⟨i, m, q, hi, hq, -⟩
        exact ⟨m, List.mem_of_getElem? hi, Method.exists_target_iff.1 ⟨q, hq⟩⟩
      · rintro ⟨m, hm, hbreaks⟩
        obtain ⟨i, hi⟩ := List.getElem?_of_mem hm
        obtain ⟨q, hq⟩ := Method.exists_target_iff.2 hbreaks
        exact ⟨i, m, q, hi, hq, (hleft _).2 (method_not_mem_selectedTargets hreport ha _)⟩

end Document

namespace Overlapping

/-- A marked container with an implemented method in another marked one, and one beside them,
    none of them partial. -/
def document : Document :=
  ⟨"modimport.decls@0.1.0", [
    ⟨"N", false, some ⟨none, none⟩, [], [⟨"A", false, some ⟨none, none⟩,
      [⟨"f", false, [], none, some (.bool true)⟩], []⟩]⟩,
    ⟨"B", false, some ⟨none, none⟩, [], []⟩]⟩

/-- Its value. -/
def value : Json :=
  .object [("containers", .array [
      .object [("containers", .array [.object [("import", .object []),
        ("methods", .array [.object [("body", .bool true), ("name", .string "f")]]),
        ("name", .string "A")]]), ("import", .object []), ("name", .string "N")],
      .object [("import", .object []), ("name", .string "B")]]),
    ("schema_version", .string "modimport.decls@0.1.0")]

theorem addressable_value : value.Addressable := by
  simp only [value, Json.Addressable, Json.AddressableItems, Json.AddressableMembers,
    Json.Members.Sorted]
  decide

theorem read_value : Document.read Json.maxDepth (.ofJson value) = .ok document := by
  rfl

theorem diagnostics_check :
    document.check.diagnostics = document.sites.filterMap Site.diagnostic? := by
  refine Document.diagnostics_check ?_
  simp only [document, Document.Addressable, AllAddressable, Container.Addressable]
  decide

/-- All its quickfixes succeed. -/
theorem exists_applyQuickfixes : ∃ n, (document.check.applyQuickfixes value).2 = .ok n := by
  have hok : (document.check.applyQuickfixes value).2.isOk = true := by
    rw [Report.applyQuickfixes, Report.quickfixes, diagnostics_check]
    decide +kernel
  cases h : (document.check.applyQuickfixes value).2 with
  | ok n => exact ⟨n, rfl⟩
  | error => rw [h] at hok; cases hok

theorem exists_inner : ∃ y ∈ document.check.diagnostics,
    y.location = some ⟨"/containers/0/containers/0"⟩ ∧
    selectedTargets [y] = [["containers", "0", "partial"],
      ["containers", "0", "containers", "0", "partial"],
      ["containers", "0", "containers", "0", "methods", "0", "partial"],
      ["containers", "0", "containers", "0", "methods", "0", "body"]] := by
  rw [diagnostics_check]
  exact ⟨_, List.mem_cons_of_mem _ List.mem_cons_self, by decide +kernel, by decide +kernel⟩

/-- The quickfix of the inner container also mends the one around it, but not the one beside
    them. -/
theorem apply_selected_inner : ∃ y ∈ document.check.diagnostics, ∃ w d',
    y.location = some ⟨"/containers/0/containers/0"⟩ ∧
    Quickfix.applyAll (([y] : List Diagnostic).filterMap Diagnostic.quickfix) value = (w, .ok 1) ∧
    Document.read Json.maxDepth (.ofJson w) = .ok d' ∧
    ¬ Address.ReportedIn [0, 0] d'.check.diagnostics ∧
    ¬ Address.ReportedIn [0] d'.check.diagnostics ∧
    Address.ReportedIn [1] d'.check.diagnostics := by
  obtain ⟨y, hy, hloc, htargets⟩ := exists_inner
  obtain ⟨n, hn⟩ := exists_applyQuickfixes
  obtain ⟨w, d', hread, hrun, hfixed, -, hothers⟩ :=
    Document.apply_selected addressable_value read_value hn (List.singleton_sublist.2 hy)
  have hselected : ∀ a : Address,
      a.ReportedIn [y] ↔ a.pointer.text = "/containers/0/containers/0" := fun a => by
    simp [Address.ReportedIn, hloc, eq_comm]
  have hmarks : ∀ p, MarksPartial [y] p ↔ p ++ ["partial"] ∈ selectedTargets [y] := fun p =>
    Document.marksPartial_iff fun x hx => by rwa [List.mem_singleton.1 hx]
  have haround : MarksPartial [y] (Address.pointer [0]) := by
    rw [hmarks, htargets]
    decide +kernel
  have hbeside : ¬ MarksPartial [y] (Address.pointer [1]) := by
    rw [hmarks, htargets]
    decide +kernel
  refine ⟨y, hy, w, d', hloc, hrun [y] (.refl _), hread,
    hfixed [0, 0] ((hselected _).2 (by decide +kernel)), ?_, ?_⟩
  · rw [hothers [0] [] _ (.outermost rfl) (by rw [hselected]; decide +kernel)]
    rintro ⟨-, ⟨e, he, -, hmark⟩ | ⟨m, hm, -⟩⟩
    · obtain rfl := List.mem_singleton.1 he
      exact hmark haround
    · exact absurd hm List.not_mem_nil
  · rw [hothers [1] [] _ (.outermost rfl) (by rw [hselected]; decide +kernel)]
    exact ⟨rfl, Or.inl ⟨_, List.mem_singleton_self _, rfl, hbeside⟩⟩

end Overlapping

end ImportBinding
