/-
  ImportBinding — no method is left out of a surface without being reported.

  A surface has the methods of its site that are partial and have no body.  The conditions on
  sites are violated by exactly the other methods.

  * `Surface.Lists`: the methods of a surface by their positions in the container;
  * `Document.operatesOn_iff`: a report has an operation for exactly the methods left out;
  * `Document.imported_of_isClean`: a clean report leaves none out;
  * `Document.surfaces_complete`: so the surfaces of a repaired document list every method, and
    are otherwise those of the document.
-/
import ImportBinding.Proofs.Conformance.Selection
import ImportBinding.Proofs.Declaration.Resolution
import ImportBinding.Proofs.Text.Blank

namespace ImportBinding

open Json (Pointer Tree)

/-! ## Positions -/

/-- The items that a filter keeps, by their positions. -/
theorem exists_positions_filter {α : Type*} (p : α → Bool) (as : List α) :
    ∃ kept : List Nat, kept.Pairwise (· < ·) ∧
      List.Forall₂ (fun i a => as[i]? = some a) kept (as.filter p) ∧
      ∀ i a, as[i]? = some a → (i ∈ kept ↔ p a = true) := by
  induction as with
  | nil => exact ⟨[], .nil, .nil, fun i a h => by simp at h⟩
  | cons b rest ih =>
    obtain ⟨kept, horder, hitems, hkept⟩ := ih
    have hshift : (kept.map (· + 1)).Pairwise (· < ·) :=
      List.pairwise_map.2 (horder.imp Nat.succ_lt_succ)
    have hitems' : List.Forall₂ (fun i a => (b :: rest)[i]? = some a) (kept.map (· + 1))
        (rest.filter p) := List.forall₂_map_left_iff.2 hitems
    have hsucc : ∀ i, i + 1 ∈ kept.map (· + 1) ↔ i ∈ kept := fun i => by simp
    have hzero : 0 ∉ kept.map (· + 1) := by simp
    cases hb : p b with
    | true =>
      refine ⟨0 :: kept.map (· + 1), List.pairwise_cons.2 ⟨?_, hshift⟩, ?_, fun i a hi => ?_⟩
      · simp
      · rw [List.filter_cons_of_pos hb]
        exact .cons rfl hitems'
      · cases i with
        | zero =>
          obtain rfl := Option.some.inj hi
          simp [hb]
        | succ i =>
          rw [← hkept i a hi, ← hsucc, List.mem_cons]
          exact or_iff_right (Nat.succ_ne_zero i)
    | false =>
      refine ⟨kept.map (· + 1), hshift, ?_, fun i a hi => ?_⟩
      · rw [List.filter_cons_of_neg (by simp [hb])]
        exact hitems'
      · cases i with
        | zero =>
          obtain rfl := Option.some.inj hi
          simp [hb]
        | succ i => rw [← hkept i a hi, hsucc]

/-- The surface has the signatures of the methods at some positions, in declaration order. -/
def Surface.Lists (f : Surface) (c : Container) (kept : List Nat) : Prop :=
  kept.Pairwise (· < ·) ∧
    List.Forall₂ (fun i s => ∃ m, c.methods[i]? = some m ∧ s = m.signature) kept f.signatures

/-! ## Methods of sites -/

theorem Method.isImported_eq_true_iff {m : Method} :
    m.isImported = true ↔ m.isPartial = true ∧ m.body = none := by
  rw [isImported, Bool.and_eq_true, Option.isNone_iff_eq_none]

/-- A method is left out when it has a target. -/
theorem Method.isImported_eq_false_iff {m : Method} :
    m.isImported = false ↔ ∃ q, m.Target q := by
  rw [exists_target_iff, isImported, Bool.and_eq_false_iff, Option.isNone_eq_false_iff]

namespace Document

variable {d : Document} {s : Site}

/-- The diagnostic of a site has an operation under the pointer of its `i`-th method. -/
def OperatesOn (d : Document) (s : Site) (i : Nat) : Prop :=
  ∃ x ∈ d.check.diagnostics, x.location = some ⟨s.pointer.text⟩ ∧
    ∃ q, x.quickfix = some q ∧ ∃ op ∈ q.patch, ∃ p,
      Pointer.tokens? op.path = some (childPointer s.pointer "methods" i ++ p)

/-- A target under the pointer of a method is one of this method. -/
theorem SiteAt.target_of_mem_flaws {a : Address} (h : d.SiteAt a s) {i : Nat} {p : Pointer}
    (hT : childPointer s.pointer "methods" i ++ p ∈ s.flaws.map Flaw.target) :
    ∃ m, s.container.methods[i]? = some m ∧ m.Target p := by
  rw [childPointer_append, mem_flaws_iff, h.pointer] at hT
  rcases hT with ⟨e, he, -, hT⟩ | ⟨-, hT⟩ | ⟨j, m, q, hj, hq, hT⟩
  · obtain ⟨b, hb⟩ := h.container.exists_pointer_around e he
    rw [hb] at hT
    exact absurd (Address.pointer_append_inj (by decide) (by decide) hT).2 (by decide)
  · exact absurd (Address.pointer_append_inj (by decide) (by decide) hT).2 (by decide)
  · simp only [List.append_cancel_left_eq, List.cons.injEq, Json.repr_inj, true_and] at hT
    obtain ⟨rfl, rfl⟩ := hT
    exact ⟨m, hj, hq⟩

/-- The report has an operation for exactly the methods that are left out. -/
theorem operatesOn_iff (hs : s ∈ d.sites) {i : Nat} {m : Method}
    (hi : s.container.methods[i]? = some m) : d.OperatesOn s i ↔ m.isImported = false := by
  rw [Method.isImported_eq_false_iff]
  constructor
  · rintro ⟨x, hx, hloc, q, hq, op, hop, p, hp⟩
    obtain ⟨s', hs', hloc', hq'⟩ := exists_site hx
    rw [hloc', Option.some.injEq, Location.mk.injEq] at hloc
    obtain rfl := site_inj hs' hs (text_inj hloc)
    obtain rfl := Option.some.inj (hq'.symm.trans hq)
    obtain ⟨f, hf, rfl⟩ := List.mem_map.1 hop
    obtain ⟨a, ha⟩ := exists_siteAt hs
    have htarget := List.mem_map_of_mem (f := Flaw.target) hf
    rw [Option.some.inj (f.tokens?_fix.symm.trans hp)] at htarget
    obtain ⟨m', hi', hm'⟩ := ha.target_of_mem_flaws htarget
    obtain rfl := Option.some.inj (hi.symm.trans hi')
    exact ⟨p, hm'⟩
  · rintro ⟨p, hp⟩
    have hT : s.pointer ++ "methods" :: Nat.repr i :: p ∈ s.flaws.map Flaw.target :=
      mem_flaws_iff.2 (Or.inr (Or.inr ⟨i, m, p, hi, hp, rfl⟩))
    obtain ⟨f, hf, htarget⟩ := List.mem_map.1 hT
    obtain ⟨x, hx⟩ := Site.diagnostic?_eq_some_iff.2 (Site.flaws_ne_nil_of_target hT)
    rcases s.diagnostic?_eq with ⟨-, hnone⟩ | ⟨y, hy, hq⟩
    · cases hnone.symm.trans hx
    · refine ⟨y, mem_check_iff.2 ⟨s, hs, hy⟩, Site.location_of_diagnostic? hy, _, hq, f.fix,
        List.mem_map_of_mem hf, p, ?_⟩
      rw [f.tokens?_fix, htarget, childPointer_append]

/-- A clean report leaves no method out. -/
theorem imported_of_isClean (h : d.check.isClean = true) (hs : s ∈ d.sites) :
    ∀ m ∈ s.container.methods, m.isImported = true := by
  intro m hm
  obtain ⟨i, hi⟩ := List.getElem?_of_mem hm
  refine Bool.eq_true_of_not_eq_false fun hout => ?_
  obtain ⟨x, hx, -⟩ := (operatesOn_iff hs hi).2 hout
  rw [List.isEmpty_iff.1 h] at hx
  exact absurd hx List.not_mem_nil

end Document

/-! ## Surfaces of sites -/

/-- The surface that lists all methods of a container. -/
def Surface.ofMethods (c : Container) (f : Surface) : Surface :=
  { f with signatures := c.methods.map Method.signature }

namespace Site

variable {s : Site} {f : Surface}

/-- A mark gives no name when it has none, or a blank one. -/
theorem name?_eq_none_iff {m : ImportMark} :
    m.name? = none ↔ ∀ name, m.surface = some name → Text.Blank name := by
  rw [ImportMark.name?]
  cases m.surface with
  | none => simp
  | some name =>
    simp only [Option.map_some, Option.filter_eq_none_iff, Option.some.injEq, forall_eq',
      decide_eq_true_eq, not_not]
    exact Text.trim_eq_empty_iff

theorem surface_eq_error_iff : (∃ e, s.surface = .error e) ↔
    ∀ name, s.mark.surface = some name → Text.Blank name := by
  rw [← name?_eq_none_iff, surface]
  cases s.mark.name? with
  | none => exact iff_of_true ⟨_, rfl⟩ rfl
  | some name => exact iff_of_false (fun ⟨_, h⟩ => nomatch h) (by simp)

theorem signatures_of_surface (h : s.surface = .ok f) :
    f.signatures = (s.container.methods.filter Method.isImported).map Method.signature := by
  rw [surface] at h
  split at h
  · cases h
  · cases h
    rfl

/-- When no method is left out the surface lists them all. -/
theorem surface_of_imported (h : ∀ m ∈ s.container.methods, m.isImported = true) :
    s.surface = s.surface.map (Surface.ofMethods s.container) := by
  rw [surface]
  cases s.mark.name? with
  | none => rfl
  | some name =>
    dsimp only [Except.map, Surface.ofMethods]
    rw [List.filter_eq_self.2 h]

/-- Mending changes nothing of a surface but which methods it lists. -/
theorem surface_mend (S : Selection) (s : Site) :
    (s.mend S).surface.map (Surface.ofMethods (s.mend S).container) =
      s.surface.map (Surface.ofMethods s.container) := by
  have hname : (s.mend S).container.name = s.container.name := Container.name_mend ..
  have hsignatures : (s.mend S).container.methods.map Method.signature =
      s.container.methods.map Method.signature := by
    rw [mend, Container.methods_mend]
    refine List.ext_getElem? fun i => ?_
    rw [List.getElem?_map, List.getElem?_mapIdx, List.getElem?_map]
    cases s.container.methods[i]? <;> rfl
  have hmark : (s.mend S).mark = s.mark := rfl
  rw [surface, surface, hmark, hname]
  cases s.mark.name? with
  | none => rfl
  | some name =>
    dsimp only [Except.map, Surface.ofMethods]
    rw [hsignatures]

end Site

/-! ## Surfaces of documents -/

/-- What a site of a document gives: an error exactly when its mark has no name or a blank one,
    and else a surface with the methods that are partial and have no body, while the report has
    an operation for exactly the others. -/
structure Document.Extracts (d : Document) (s : Site) (r : Except Rejection Surface) : Prop where
  error : (∃ e, r = .error e) ↔ ∀ name, s.mark.surface = some name → Text.Blank name
  methods : ∀ f, r = .ok f → ∃ kept, f.Lists s.container kept ∧
    ∀ i m, s.container.methods[i]? = some m →
      (i ∈ kept ↔ m.isPartial = true ∧ m.body = none) ∧ (i ∉ kept ↔ d.OperatesOn s i)

namespace Document

theorem extracts_surface {d : Document} {s : Site} (hs : s ∈ d.sites) : d.Extracts s s.surface where
  error := Site.surface_eq_error_iff
  methods := by
    intro f hf
    obtain ⟨kept, horder, hitems, hkept⟩ :=
      exists_positions_filter Method.isImported s.container.methods
    refine ⟨kept, ⟨horder, ?_⟩, fun i m hi => ⟨?_, ?_⟩⟩
    · rw [Site.signatures_of_surface hf]
      exact List.forall₂_map_right_iff.2 (hitems.imp fun i m hi => ⟨m, hi, rfl⟩)
    · rw [hkept i m hi, Method.isImported_eq_true_iff]
    · rw [hkept i m hi, operatesOn_iff hs hi, Bool.not_eq_true]

/-- The surfaces of a document whose report is clean list all methods. -/
theorem surfaces_of_isClean {d : Document} (h : d.check.isClean = true) :
    d.surfaces = d.sites.map fun s => s.surface.map (Surface.ofMethods s.container) :=
  List.map_congr_left fun _ hs => Site.surface_of_imported (imported_of_isClean h hs)

/-- A repaired document has the surfaces of the document, which now list all methods. -/
theorem surfaces_repair (d : Document) :
    d.repair.surfaces = d.sites.map fun s => s.surface.map (Surface.ofMethods s.container) := by
  have hclean : d.repair.check.isClean = true := by
    rw [Report.isClean, d.diagnostics_check_repair]
    rfl
  rw [surfaces_of_isClean hclean, ← d.mend_selectedTargets_check, sites_mend, List.map_map]
  exact List.map_congr_left fun s _ => Site.surface_mend _ s

/-- A document has one surface or error for each of its sites, which are the marked containers in
    depth-first document order.  A surface has the methods that are partial and have no body, in
    declaration order, and a method is left out iff the diagnostic of its container has an
    operation under its pointer.  So when the report is clean the surfaces list all methods; and
    after the quickfixes of the report have succeeded on a value of the document, that value reads
    as a document whose surfaces differ only in that they list all methods. -/
theorem surfaces_complete (d : Document) :
    (∃ as : List Address, as.Pairwise (· < ·) ∧
      (∀ a, a ∈ as ↔ ∃ around c, d.At a around c ∧ c.mark.isSome = true) ∧
      List.Forall₂ d.SiteAt as d.sites) ∧
    List.Forall₂ d.Extracts d.sites d.surfaces ∧
    (d.check.isClean = true → List.Forall₂ (fun s r => ∀ f, r = .ok f →
      f.signatures = s.container.methods.map Method.signature) d.sites d.surfaces) ∧
    ∀ D v w n, v.Addressable → Document.read D (.ofJson v) = .ok d →
      d.check.applyQuickfixes v = (w, .ok n) → ∃ d', Document.read D (.ofJson w) = .ok d' ∧
        d'.surfaces = List.zipWith (fun s r => r.map fun f =>
          { f with signatures := s.container.methods.map Method.signature }) d.sites d.surfaces := by
  refine ⟨d.exists_marked_addresses, ?_, fun hclean => ?_, fun D v w n hv hr h => ?_⟩
  · exact List.forall₂_map_right_iff.2 (List.forall₂_same.2 fun s hs => extracts_surface hs)
  · rw [surfaces_of_isClean hclean]
    refine List.forall₂_map_right_iff.2 (List.forall₂_same.2 fun s hs f hf => ?_)
    obtain ⟨g, -, rfl⟩ := Except.map_eq_ok_iff.1 hf
    rfl
  · refine ⟨_, (mended_of_ok hv hr h).reads, ?_⟩
    rw [d.mend_selectedTargets_check, d.surfaces_repair, surfaces, List.zipWith_map_right,
      List.zipWith_self]
    rfl

end Document

namespace LeftOut

/-- A marked container with a method to import and an implemented one. -/
def document : Document :=
  ⟨"modimport.decls@0.1.0", [⟨"A", true, some ⟨some "S", none⟩,
    [⟨"f", true, [], none, none⟩, ⟨"g", true, [], none, some (.bool true)⟩], []⟩]⟩

/-- Its value. -/
def value : Json :=
  .object [("containers", .array [.object [("import", .object [("surface", .string "S")]),
      ("methods", .array [.object [("name", .string "f"), ("partial", .bool true)],
        .object [("body", .bool true), ("name", .string "g"), ("partial", .bool true)]]),
      ("name", .string "A"), ("partial", .bool true)]]),
    ("schema_version", .string "modimport.decls@0.1.0")]

theorem addressable_value : value.Addressable := by
  simp only [value, Json.Addressable, Json.AddressableItems, Json.AddressableMembers,
    Json.Members.Sorted]
  decide

theorem read_value : Document.read Json.maxDepth (.ofJson value) = .ok document := by
  rfl

/-- The implemented method is left out at first, and listed once the quickfix has cleared it. -/
theorem surfaces_complete_value : ∃ w n d', document.check.applyQuickfixes value = (w, .ok n) ∧
    Document.read Json.maxDepth (.ofJson w) = .ok d' ∧
    document.surfaces = [.ok ⟨⟨"S", false⟩, "a", [⟨"f", [], none⟩]⟩] ∧
    d'.surfaces = [.ok ⟨⟨"S", false⟩, "a", [⟨"f", [], none⟩, ⟨"g", [], none⟩]⟩] := by
  obtain ⟨-, -, -, hrepaired⟩ := document.surfaces_complete
  have hok : (document.check.applyQuickfixes value).2.isOk = true := by decide +kernel
  cases hrun : document.check.applyQuickfixes value with
  | mk w r =>
    cases r with
    | error => rw [hrun] at hok; cases hok
    | ok n =>
      obtain ⟨d', hread, hsurfaces⟩ := hrepaired _ _ w n addressable_value read_value hrun
      exact ⟨w, n, d', rfl, hread, rfl, hsurfaces.trans rfl⟩

end LeftOut

end ImportBinding
