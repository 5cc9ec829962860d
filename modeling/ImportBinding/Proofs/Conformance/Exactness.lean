/-
  ImportBinding — a report says exactly what is wrong, in document order.

  A report has one diagnostic for each marked container that breaks a condition, and it
  comes where the container comes.

  * `Site.flaws_eq`: the flaws of a site are the conditions that it breaks, in their order;
  * `Document.exists_reports`: the diagnostics are those of the flawed sites, by address;
  * `Document.diagnostics_check`: sorting leaves the diagnostics as the walk finds them;
  * `Document.reported_of_eraseIdx`: a quickfix without one of its operations does not
    silence its diagnostic.
-/
import ImportBinding.Proofs.Conformance
import ImportBinding.Proofs.Declaration.Address
import Mathlib.Data.List.InsertIdx

namespace ImportBinding

open Json (Pointer Tree)

/-! ## Flaws -/

/-- Whether a flaw is there. -/
def Flaw.isPresent : Flaw → Bool
  | around place | container place => !place.container.isPartial
  | method m _ => !m.isPartial
  | body m _ => m.body.isSome

/-- The flaws that a site can have, in the order in which they are reported: those of the
    containers around it from the outermost on, its own, and those of its methods. -/
def Site.possibleFlaws (s : Site) : List Flaw :=
  s.around.map .around ++ .container ⟨s.container, s.pointer⟩ ::
    s.container.methods.zipIdx.flatMap fun (m, i) =>
      [.method m (childPointer s.pointer "methods" i), .body m (childPointer s.pointer "methods" i)]

theorem methodFlaws_eq (p : Pointer) (ms : List Method) : ∀ (i : Nat), methodFlaws p i ms =
    ((ms.zipIdx i).flatMap fun (m, i) => [Flaw.method m (childPointer p "methods" i),
      Flaw.body m (childPointer p "methods" i)]).filter Flaw.isPresent := by
  induction ms with
  | nil => intro i; rfl
  | cons m rest ih =>
    intro i
    have hown : m.flaws (childPointer p "methods" i) =
        [Flaw.method m (childPointer p "methods" i),
          Flaw.body m (childPointer p "methods" i)].filter Flaw.isPresent := by
      cases hp : m.isPartial <;> cases hb : m.body <;>
        simp [Method.flaws, Flaw.isPresent, hp, hb]
    rw [methodFlaws, ih, hown, List.zipIdx_cons, List.flatMap_cons, List.filter_append]

/-- The flaws of a site are those of the possible ones that are there. -/
theorem Site.flaws_eq (s : Site) : s.flaws = s.possibleFlaws.filter Flaw.isPresent := by
  have haround : (s.around.map Flaw.around).filter Flaw.isPresent =
      (s.around.filter (!·.container.isPartial)).map .around := by
    rw [List.filter_map]
    rfl
  rw [possibleFlaws, flaws, methodFlaws_eq, List.filter_append, haround, List.filter_cons,
    List.append_assoc]
  cases hp : s.container.isPartial <;> simp [Flaw.isPresent, hp]

/-- A container breaks a condition on sites, given the containers around it. -/
def Container.IsFlawed (around : List Place) (c : Container) : Prop :=
  (∃ a ∈ around, a.container.isPartial = false) ∨ c.isPartial = false ∨
    ∃ m ∈ c.methods, m.isPartial = false ∨ m.body.isSome = true

theorem Site.flaws_ne_nil_of_target {s : Site} {T : Pointer} (h : T ∈ s.flaws.map Flaw.target) :
    s.flaws ≠ [] := by
  intro hnil
  rw [hnil] at h
  exact absurd h List.not_mem_nil

theorem Site.flaws_ne_nil_iff {s : Site} : s.flaws ≠ [] ↔ s.container.IsFlawed s.around := by
  have htarget : s.flaws ≠ [] ↔ ∃ T, T ∈ s.flaws.map Flaw.target := by
    constructor
    · intro h
      obtain ⟨f, hf⟩ := List.exists_mem_of_ne_nil _ h
      exact ⟨_, List.mem_map_of_mem hf⟩
    · rintro ⟨T, hT⟩
      exact flaws_ne_nil_of_target hT
  rw [htarget, Container.IsFlawed]
  simp only [mem_flaws_iff]
  constructor
  · rintro ⟨T, ⟨a, ha, hp, -⟩ | ⟨hp, -⟩ | ⟨i, m, q, hi, hq, -⟩⟩
    · exact Or.inl ⟨a, ha, hp⟩
    · exact Or.inr (Or.inl hp)
    · exact Or.inr (Or.inr ⟨m, List.mem_of_getElem? hi, Method.exists_target_iff.1 ⟨q, hq⟩⟩)
  · rintro (⟨a, ha, hp⟩ | hp | ⟨m, hm, h⟩)
    · exact ⟨_, Or.inl ⟨a, ha, hp, rfl⟩⟩
    · exact ⟨_, Or.inr (Or.inl ⟨hp, rfl⟩)⟩
    · obtain ⟨i, hi⟩ := List.getElem?_of_mem hm
      obtain ⟨q, hq⟩ := Method.exists_target_iff.2 h
      exact ⟨_, Or.inr (Or.inr ⟨i, m, q, hi, hq, rfl⟩)⟩

/-! ## Diagnostics -/

/-- A diagnostic is that of the site at an address: it points there, and has a note and an
    operation for each flaw of the site, in the order of the flaws. -/
def Document.Reports (d : Document) (a : Address) (x : Diagnostic) : Prop :=
  ∃ s, d.SiteAt a s ∧ x.location = some ⟨a.pointer.text⟩ ∧
    x.notes = (s.possibleFlaws.filter Flaw.isPresent).map Flaw.note ∧
    ∃ q, x.quickfix = some q ∧ q.patch = (s.possibleFlaws.filter Flaw.isPresent).map Flaw.fix

/-- A site has a diagnostic iff it has flaws. -/
theorem Site.diagnostic?_eq_some_iff {s : Site} :
    (∃ x, s.diagnostic? = some x) ↔ s.flaws ≠ [] := by
  unfold diagnostic?
  split
  · next h => simp [h]
  · next h => simpa using h

theorem Document.SiteAt.reports {d : Document} {a : Address} {s : Site} {x : Diagnostic}
    (h : d.SiteAt a s) (hx : s.diagnostic? = some x) : d.Reports a x := by
  refine ⟨s, h, ?_⟩
  rw [← s.flaws_eq, ← h.pointer]
  unfold Site.diagnostic? at hx
  split at hx
  · cases hx
  · cases hx
    exact ⟨rfl, rfl, _, rfl, rfl⟩

theorem text_inj {p q : Pointer} (h : p.text = q.text) : p = q := by
  have ht := congrArg Pointer.tokens? h
  rw [Pointer.tokens?_text, Pointer.tokens?_text] at ht
  exact Option.some.inj ht

/-- A diagnostic is that of one site. -/
theorem Document.Reports.unique {d : Document} {a b : Address} {x : Diagnostic}
    (ha : d.Reports a x) (hb : d.Reports b x) : a = b := by
  obtain ⟨_, -, hloc, -⟩ := ha
  obtain ⟨_, -, hloc', -⟩ := hb
  rw [hloc, Option.some.injEq, Location.mk.injEq] at hloc'
  exact Address.pointer_inj.1 (text_inj hloc')

theorem exists_forall₂_filterMap {α β γ : Type*} {R : α → β → Prop} {f : β → Option γ}
    {as : List α} {bs : List β} (h : List.Forall₂ R as bs) : ∃ as' : List α, as'.Sublist as ∧
      List.Forall₂ (fun a x => ∃ b, R a b ∧ f b = some x) as' (bs.filterMap f) := by
  induction h with
  | nil => exact ⟨[], .slnil, .nil⟩
  | @cons a b as bs hab _ ih =>
    obtain ⟨as', hsub, hrest⟩ := ih
    cases hf : f b with
    | none =>
      rw [List.filterMap_cons_none hf]
      exact ⟨as', hsub.cons a, hrest⟩
    | some x =>
      rw [List.filterMap_cons_some hf]
      exact ⟨a :: as', hsub.cons_cons a, .cons ⟨b, hab, hf⟩ hrest⟩

/-- The diagnostics of a document are those of its flawed sites, in the order of their
    addresses. -/
theorem Document.exists_reports (d : Document) : ∃ as : List Address, as.Pairwise (· < ·) ∧
    List.Forall₂ d.Reports as (d.sites.filterMap Site.diagnostic?) ∧
    ∀ a around c, d.At a around c → (a ∈ as ↔ c.mark.isSome = true ∧ c.IsFlawed around) := by
  obtain ⟨as, hsites, horder⟩ := d.exists_addresses
  obtain ⟨as', hsub, hfound⟩ := exists_forall₂_filterMap (f := Site.diagnostic?) hsites
  have hreports := hfound.imp fun a x ⟨s, hs, hx⟩ => hs.reports hx
  refine ⟨as', horder.sublist hsub, hreports, fun a around c hc => ⟨fun ha => ?_, ?_⟩⟩
  · obtain ⟨i, hi⟩ := List.getElem?_of_mem ha
    obtain ⟨x, -, s, hs, hx⟩ := exists_getElem?_of_forall₂ hfound.flip hi
    obtain ⟨rfl, rfl⟩ := hc.unique hs.container
    exact ⟨by rw [hs.mark]; rfl, Site.flaws_ne_nil_iff.1 (Site.diagnostic?_eq_some_iff.1 ⟨x, hx⟩)⟩
  · rintro ⟨hm, hflawed⟩
    obtain ⟨mark, hmark⟩ := Option.isSome_iff_exists.1 hm
    have hsite : d.SiteAt a ⟨c, mark, a.pointer, around⟩ := ⟨hc, rfl, hmark⟩
    have hflaws : (⟨c, mark, a.pointer, around⟩ : Site).flaws ≠ [] :=
      Site.flaws_ne_nil_iff.2 hflawed
    obtain ⟨x, hx⟩ := Site.diagnostic?_eq_some_iff.2 hflaws
    obtain ⟨i, hi⟩ := List.getElem?_of_mem (List.mem_filterMap.2 ⟨_, hc.site_mem hmark, hx⟩)
    obtain ⟨b, hb, hreports'⟩ := exists_getElem?_of_forall₂ hreports hi
    rw [(hsite.reports hx).unique hreports']
    exact List.mem_of_getElem? hb

/-! ## Order -/

mutual

/-- The lists of containers in a container have fewer items than the machine has addresses. -/
def Container.Addressable : Container → Prop
  | ⟨_, _, _, _, containers⟩ => containers.length < UInt64.size ∧ AllAddressable containers

def AllAddressable : List Container → Prop
  | [] => True
  | c :: rest => c.Addressable ∧ AllAddressable rest

end

/-- The lists of containers in a document have fewer items than the machine has addresses. -/
def Document.Addressable (d : Document) : Prop :=
  d.containers.length < UInt64.size ∧ AllAddressable d.containers

theorem allAddressable_iff {cs : List Container} :
    AllAddressable cs ↔ ∀ c ∈ cs, c.Addressable := by
  induction cs with
  | nil => simp [AllAddressable]
  | cons c rest ih => simp [AllAddressable, ih]

theorem Container.addressable_iff {c : Container} :
    c.Addressable ↔ c.containers.length < UInt64.size ∧ AllAddressable c.containers := by
  cases c
  rw [Addressable]

/-- The indexes in addresses are those of items. -/
theorem Document.At.lt_size {d : Document} (hd : d.Addressable) {a : Address}
    {around : List Place} {c : Container} (h : d.At a around c) :
    (∀ i ∈ a, i < UInt64.size) ∧ c.Addressable := by
  induction h with
  | outermost hi =>
    obtain ⟨hlt, -⟩ := List.getElem?_eq_some_iff.1 hi
    refine ⟨fun j hj => ?_, allAddressable_iff.1 hd.2 _ (List.mem_of_getElem? hi)⟩
    rw [List.mem_singleton.1 hj]
    exact Nat.lt_trans hlt hd.1
  | nested h hi ih =>
    obtain ⟨hlt, -⟩ := List.getElem?_eq_some_iff.1 hi
    obtain ⟨hc, hall⟩ := Container.addressable_iff.1 ih.2
    refine ⟨fun j hj => ?_, allAddressable_iff.1 hall _ (List.mem_of_getElem? hi)⟩
    rcases List.mem_append.1 hj with hj | hj
    · exact ih.1 j hj
    · rw [List.mem_singleton.1 hj]
      exact Nat.lt_trans hlt hc

/-- Diagnostics come in the order of the addresses of their sites. -/
theorem Document.Reports.order_eq {d : Document} (hd : d.Addressable) {a b : Address}
    {x y : Diagnostic} (hx : d.Reports a x) (hy : d.Reports b y) (hab : a < b) :
    x.order y = .lt := by
  obtain ⟨_, hs, hloc, -⟩ := hx
  obtain ⟨_, hs', hloc', -⟩ := hy
  have hkey := compare_placeKey_pointer hab (hs.container.lt_size hd).1 (hs'.container.lt_size hd).1
  simp only [Diagnostic.order, Diagnostic.pointer, hloc, hloc', hkey]
  rfl

theorem pairwise_of_forall₂ {α β : Type*} {R : α → β → Prop} {S : α → α → Prop}
    {T : β → β → Prop} {as : List α} {bs : List β} (h : List.Forall₂ R as bs)
    (hS : as.Pairwise S) (hT : ∀ {a b x y}, R a x → R b y → S a b → T x y) : bs.Pairwise T := by
  induction h with
  | nil => exact .nil
  | cons hax hrest ih =>
    obtain ⟨hfirst, hS⟩ := List.pairwise_cons.1 hS
    refine List.pairwise_cons.2 ⟨fun y hy => ?_, ih hS⟩
    obtain ⟨i, hi⟩ := List.getElem?_of_mem hy
    obtain ⟨b, hb, hby⟩ := exists_getElem?_of_forall₂ hrest hi
    exact hT hax hby (hfirst b (List.mem_of_getElem? hb))

/-- Sorting leaves the diagnostics as the walk finds them. -/
theorem Document.diagnostics_check {d : Document} (hd : d.Addressable) :
    d.check.diagnostics = d.sites.filterMap Site.diagnostic? := by
  obtain ⟨as, horder, hreports, -⟩ := d.exists_reports
  refine List.mergeSort_of_pairwise (pairwise_of_forall₂ hreports horder fun hx hy hab => ?_)
  rw [hx.order_eq hd hy hab]
  rfl

/-! ## Quickfixes without an operation -/

/-- The flaws of a site of a document have different targets: those of the containers around
    it are shorter than its own, and those of its methods are longer. -/
theorem Document.SiteAt.nodup_targets {d : Document} {a : Address} {s : Site}
    (h : d.SiteAt a s) : (s.flaws.map Flaw.target).Nodup := by
  obtain ⟨hinward, -, houter⟩ := List.pairwise_append.1 h.container.pairwise_around
  rw [← h.pointer] at houter
  have haround : ∀ T ∈ ((s.around.filter (!·.container.isPartial)).map Flaw.around).map
      Flaw.target, T.length ≤ s.pointer.length := by
    simp only [List.map_map, List.mem_map]
    rintro T ⟨b, hb, rfl⟩
    have hlt := houter _ (List.mem_map_of_mem (List.mem_filter.1 hb).1) _
      (List.mem_singleton_self _)
    simp only [Function.comp_apply, Flaw.target, List.length_append, List.length_singleton]
    omega
  have hown : ∀ T ∈ (if s.container.isPartial then [] else
      [Flaw.container ⟨s.container, s.pointer⟩]).map Flaw.target,
      T.length = s.pointer.length + 1 := by
    split <;> simp [Flaw.target]
  have hmethods : ∀ T ∈ (methodFlaws s.pointer 0 s.container.methods).map Flaw.target,
      s.pointer.length + 2 ≤ T.length := by
    intro T hT
    obtain ⟨j, m, q, -, -, rfl⟩ := mem_methodFlaws_iff.1 hT
    simp only [List.length_append, List.length_cons]
    omega
  rw [Site.flaws, List.map_append, List.map_append]
  refine List.nodup_append'.2 ⟨List.nodup_append'.2 ⟨?_, ?_, ?_⟩, nodup_methodFlaws, ?_⟩
  · rw [List.map_map]
    refine List.pairwise_map.2 (((List.pairwise_map.1 hinward).sublist
      List.filter_sublist).imp fun hlt he => ?_)
    have hlen := congrArg List.length (List.append_cancel_right he)
    omega
  · split <;> simp
  · intro T hT hT'
    have := haround T hT
    have := hown T hT'
    omega
  · intro T hT hT'
    have := hmethods T hT'
    rcases List.mem_append.1 hT with hT | hT
    · have := haround T hT
      omega
    · have := hown T hT
      omega

theorem Document.exists_siteAt {d : Document} {s : Site} (h : s ∈ d.sites) :
    ∃ a, d.SiteAt a s := by
  obtain ⟨as, hsites, -⟩ := d.exists_addresses
  obtain ⟨i, hi⟩ := List.getElem?_of_mem h
  obtain ⟨a, -, ha⟩ := exists_getElem?_of_forall₂ hsites hi
  exact ⟨a, ha⟩

theorem Document.mem_check_iff {d : Document} {x : Diagnostic} :
    x ∈ d.check.diagnostics ↔ ∃ s ∈ d.sites, s.diagnostic? = some x :=
  (Report.diagnostics_perm _).mem_iff.trans List.mem_filterMap

theorem Site.location_of_diagnostic? {s : Site} {x : Diagnostic} (h : s.diagnostic? = some x) :
    x.location = some ⟨s.pointer.text⟩ := by
  unfold diagnostic? at h
  split at h
  · cases h
  · cases h
    rfl

/-- The value of a document in which no record is in array form. -/
def Json.InObjectForm (v : Json) : Prop :=
  ∀ p, ¬ v.MeetsArray p

theorem Json.inObjectForm_object {ms : Json.Members}
    (h : ∀ key ∈ ["containers", "methods"], ∀ us, ms.find? key = some (.array us) →
      ∀ u ∈ us, u.InObjectForm) : (Json.object ms).InObjectForm := by
  intro p hp
  obtain ⟨key, us, i, u, q, hkey, hm, hi, hu, -⟩ := meetsArray_object_iff.1 hp
  exact h key (by simpa using hkey) us hm u (List.mem_of_getElem? hi) q hu

/-- A quickfix without one of its operations can be applied, and then its site is still
    reported. -/
theorem Document.reported_of_eraseIdx {d : Document} {D : Nat} {v : Json} (hv : v.Addressable)
    (hform : v.InObjectForm) (hr : Document.read D (.ofJson v) = .ok d) {x : Diagnostic}
    (hx : x ∈ d.check.diagnostics) {q : Quickfix} (hq : x.quickfix = some q) {i : Nat}
    (hi : i < q.patch.length) :
    ∃ w d', Patch.apply (q.patch.eraseIdx i) v = (w, none) ∧
      Document.read D (.ofJson w) = .ok d' ∧
      ∃ y ∈ d'.check.diagnostics, y.location = x.location := by
  obtain ⟨s, hs, hsx⟩ := mem_check_iff.1 hx
  obtain ⟨a, ha⟩ := exists_siteAt hs
  have hpatch : q.patch = (s.flaws.map Flaw.target).map Patch.Op.mending := by
    rcases s.diagnostic?_eq with ⟨-, hnone⟩ | ⟨x', hsome, hq'⟩
    · rw [hnone] at hsx; cases hsx
    · rw [hsome] at hsx
      obtain rfl := Option.some.inj hsx
      obtain rfl := Option.some.inj (hq'.symm.trans hq)
      rw [← Site.targets_quickfix]
      exact Site.mends_quickfix _
  rw [hpatch, List.length_map] at hi
  rw [hpatch]
  generalize hts : s.flaws.map Flaw.target = ts at hi
  have hnodup : ts.Nodup := hts ▸ ha.nodup_targets
  have htarget : ∀ T ∈ ts.eraseIdx i, d.Target T := fun T hT =>
    mem_targets_iff.1 (List.mem_flatMap.2 ⟨s, hs, hts ▸ List.mem_of_mem_eraseIdx hT⟩)
  have hbodies : (([] ++ ts.eraseIdx i).filter Pointer.isBody).Nodup :=
    (hnodup.eraseIdx i).filter _
  obtain ⟨w, hw, hmended⟩ := (Mended.start hv hr).apply htarget hbodies fun T _ => hform T
  have hleft : ts[i] ∉ ts.eraseIdx i := fun h => by
    obtain ⟨j, hj, hne, he⟩ := List.mem_eraseIdx_iff_getElem.1 h
    exact hne (hnodup.getElem_inj_iff.1 he)
  have hflaw : ts[i] ∈ (s.mend (.ofList ([] ++ ts.eraseIdx i))).flaws.map Flaw.target := by
    refine Site.mem_targets_mend_iff.2 ⟨hts ▸ List.getElem_mem hi, ?_⟩
    simpa [Selection.ofList] using hleft
  obtain ⟨y, hy⟩ := Site.diagnostic?_eq_some_iff.2 (Site.flaws_ne_nil_of_target hflaw)
  refine ⟨w, _, by rw [List.eraseIdx_map, hw], hmended.reads, y, mem_check_iff.2 ⟨_, ?_, hy⟩, ?_⟩
  · rw [sites_mend]
    exact List.mem_map_of_mem hs
  · rw [Site.location_of_diagnostic? hsx, Site.location_of_diagnostic? hy]
    rfl

/-! ## Reports -/

/-- The report of a document has one diagnostic for each marked container that breaks a
    condition, and no others.  They come in depth-first document order, as the walk finds
    them; each points to its container and has a note and an operation for each violation;
    and without one of its operations a quickfix does not silence its diagnostic. -/
theorem Document.check_exact {d : Document} (hd : d.Addressable) :
    d.check.diagnostics = d.sites.filterMap Site.diagnostic? ∧
    (∃ as : List Address, as.Pairwise (· < ·) ∧
      List.Forall₂ d.Reports as d.check.diagnostics ∧
      ∀ a around c, d.At a around c → (a ∈ as ↔ c.mark.isSome = true ∧ c.IsFlawed around)) ∧
    ∀ D v, v.Addressable → v.InObjectForm → Document.read D (.ofJson v) = .ok d →
      ∀ x ∈ d.check.diagnostics, ∀ q, x.quickfix = some q → ∀ i < q.patch.length, ∃ w d',
        Patch.apply (q.patch.eraseIdx i) v = (w, none) ∧
        Document.read D (.ofJson w) = .ok d' ∧
        ∃ y ∈ d'.check.diagnostics, y.location = x.location := by
  have horder := diagnostics_check hd
  refine ⟨horder, ?_, fun D v hv hform hr x hx q hq i hi => ?_⟩
  · obtain ⟨as, hsorted, hreports, hexact⟩ := d.exists_reports
    exact ⟨as, hsorted, horder ▸ hreports, hexact⟩
  · exact reported_of_eraseIdx hv hform hr hx hq hi

namespace Enclosed

/-- A marked container with an implemented method in another container, neither of them
    partial, and a marked container with nothing wrong. -/
def document : Document :=
  ⟨"modimport.decls@0.1.0", [
    ⟨"N", false, none, [], [⟨"A", false, some ⟨none, none⟩,
      [⟨"f", false, [], none, some (.bool true)⟩], []⟩]⟩,
    ⟨"B", true, some ⟨none, none⟩, [], []⟩]⟩

/-- Its value. -/
def value : Json :=
  .object [("containers", .array [
      .object [("containers", .array [.object [("import", .object []),
        ("methods", .array [.object [("body", .bool true), ("name", .string "f")]]),
        ("name", .string "A")]]), ("name", .string "N")],
      .object [("import", .object []), ("name", .string "B"), ("partial", .bool true)]]),
    ("schema_version", .string "modimport.decls@0.1.0")]

theorem addressable_value : value.Addressable := by
  simp only [value, Json.Addressable, Json.AddressableItems, Json.AddressableMembers,
    Json.Members.Sorted]
  decide

theorem inObjectForm_value : value.InObjectForm := by
  have hmethod : (Json.object [("body", .bool true), ("name", .string "f")]).InObjectForm :=
    Json.inObjectForm_object (by simp [Json.Members.find?])
  have hinner : (Json.object [("import", .object []),
      ("methods", .array [.object [("body", .bool true), ("name", .string "f")]]),
      ("name", .string "A")]).InObjectForm :=
    Json.inObjectForm_object (by simpa [Json.Members.find?] using hmethod)
  have houter : (Json.object [("containers", .array [.object [("import", .object []),
      ("methods", .array [.object [("body", .bool true), ("name", .string "f")]]),
      ("name", .string "A")]]), ("name", .string "N")]).InObjectForm :=
    Json.inObjectForm_object (by simpa [Json.Members.find?] using hinner)
  have hother : (Json.object [("import", .object []), ("name", .string "B"),
      ("partial", .bool true)]).InObjectForm :=
    Json.inObjectForm_object (by simp [Json.Members.find?])
  exact Json.inObjectForm_object (by simpa [Json.Members.find?] using ⟨houter, hother⟩)

theorem read_value : Document.read Json.maxDepth (.ofJson value) = .ok document := by
  rfl

/-- Four violations are reported for one container, and three operations do not silence it. -/
theorem check_exact_document : ∃ x q, document.check.diagnostics = [x] ∧
    x.location = some ⟨"/containers/0/containers/0"⟩ ∧ x.quickfix = some q ∧
    q.patch.length = 4 ∧ ∃ w d', Patch.apply (q.patch.eraseIdx 1) value = (w, none) ∧
      Document.read Json.maxDepth (.ofJson w) = .ok d' ∧
      ∃ y ∈ d'.check.diagnostics, y.location = x.location := by
  have haddressable : document.Addressable := by
    simp only [document, Document.Addressable, AllAddressable, Container.Addressable]
    decide
  obtain ⟨horder, -, hdrop⟩ := Document.check_exact haddressable
  have hone : ∃ x, document.sites.filterMap Site.diagnostic? = [x] ∧
      x.location = some ⟨"/containers/0/containers/0"⟩ ∧
      ∃ q, x.quickfix = some q ∧ q.patch.length = 4 := ⟨_, rfl, by decide +kernel, _, rfl, rfl⟩
  obtain ⟨x, hx, hloc, q, hq, hlen⟩ := hone
  refine ⟨x, q, horder.trans hx, hloc, hq, hlen, ?_⟩
  exact hdrop _ _ addressable_value inObjectForm_value read_value x
    (by rw [horder, hx]; exact List.mem_singleton_self x) q hq 1 (by omega)

end Enclosed

end ImportBinding
