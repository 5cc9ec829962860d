/-
  ImportBinding — the pointers of sites lead to them.

  The walk over a document hands each site a pointer and the containers around it.  In the
  value of the document these pointers lead to the values of these containers.

  * `Document.exists_marked_addresses`: the walk finds the marked containers, each once and in
    document order;
  * `Document.At.forall₂_around`: the containers around one are those at the addresses that
    lead to its own;
  * `Document.At.at?_toJson`: the pointer of an address leads to the value of its container;
  * `Document.sites_resolve` is all of this for the sites of a document.
-/
import ImportBinding.Proofs.Conformance.Exactness
import ImportBinding.Proofs.Patch.Lookup

namespace ImportBinding

open Json (Field Members Pointer Tree)

/-! ## Values of containers -/

/-- The last member of a key wins. -/
theorem Json.find?_canonicalMembers_append_singleton (ms : Members) (k : String) (v : Json) :
    ∀ acc : Members, (canonicalMembers acc (ms ++ [(k, v)])).find? k = some v.canonical := by
  induction ms with
  | nil =>
    intro acc
    exact Members.find?_insert_self ..
  | cons m rest ih => exact fun acc => ih _

theorem containersToJson_getElem? (cs : List Container) : ∀ i : Nat,
    (containersToJson cs)[i]? = (cs[i]?).map Container.toJson := by
  induction cs with
  | nil => exact fun _ => rfl
  | cons c rest ih =>
    intro i
    cases i with
    | zero => rfl
    | succ i => exact ih i

/-- A list of containers that is the last member of a record. -/
theorem at?_containersToJson (ms : Members) {cs : List Container} {i : Nat} {c : Container}
    (hi : cs[i]? = some c) (hlt : i < UInt64.size) :
    Patch.at? ["containers", Nat.repr i]
      (Json.canonical (.object (ms ++ [("containers", .array (containersToJson cs))]))) =
      .ok c.toJson.canonical := by
  have hitem : ((containersToJson cs).map Json.canonical)[i]? = some c.toJson.canonical := by
    rw [List.getElem?_map, containersToJson_getElem?, hi]
    rfl
  rw [Json.canonical, Patch.at?_item (Json.find?_canonicalMembers_append_singleton ms _ _ []) ?_
    hlt]
  · rfl
  · rw [Json.canonicalItems_eq_map]
    exact hitem

/-- In the value of a container the values of those in it have their indexes. -/
theorem Container.at?_toJson {c c' : Container} {i : Nat} (hi : c.containers[i]? = some c')
    (hlt : i < UInt64.size) :
    Patch.at? ["containers", Nat.repr i] c.toJson.canonical = .ok c'.toJson.canonical := by
  obtain ⟨name, isPartial, mark, methods, containers⟩ := c
  have hlist : Json.listMember? "containers" (containersToJson containers) =
      [("containers", .array (containersToJson containers))] := by
    cases containers with
    | nil => simp at hi
    | cons => rfl
  rw [Container.toJson, hlist]
  exact at?_containersToJson _ hi hlt

/-- The pointer of an address leads to the value of the container there. -/
theorem Document.At.at?_toJson {d : Document} (hd : d.Addressable) {a : Address}
    {around : List Place} {c : Container} (h : d.At a around c) :
    Patch.at? a.pointer d.toJson.canonical = .ok c.toJson.canonical := by
  induction h with
  | outermost hi =>
    have hlt := (List.getElem?_eq_some_iff.1 hi).1
    exact at?_containersToJson [("schema_version", .string d.version)] hi
      (Nat.lt_trans hlt hd.1)
  | nested h hi ih =>
    have hlt := (List.getElem?_eq_some_iff.1 hi).1
    have hsize := (Container.addressable_iff.1 (h.lt_size hd).2).1
    rw [Address.pointer_append_singleton, childPointer, Patch.at?_append, ih]
    exact Container.at?_toJson hi (Nat.lt_trans hlt hsize)

/-! ## Containers around -/

/-- The addresses of the containers around the one at an address, from the outermost on. -/
def Address.enclosing (a : Address) : List Address :=
  (List.range (a.length - 1)).map fun k => a.take (k + 1)

theorem Address.enclosing_append_singleton {a : Address} (ha : a ≠ []) (i : Nat) :
    enclosing (a ++ [i]) = enclosing a ++ [a] := by
  have hshort : ∀ k ∈ List.range a.length, (a ++ [i]).take (k + 1) = a.take (k + 1) :=
    fun k hk => List.take_append_of_le_length (List.mem_range.1 hk)
  have hlength : a.length - 1 + 1 = a.length :=
    Nat.sub_add_cancel (List.length_pos_of_ne_nil ha)
  calc enclosing (a ++ [i])
      = (List.range (a.length - 1 + 1)).map fun k => a.take (k + 1) := by
        rw [enclosing, List.length_append, List.length_singleton, Nat.add_sub_cancel,
          List.map_congr_left hshort, hlength]
    _ = enclosing a ++ [a] := by
        rw [List.range_succ, List.map_append, List.map_singleton, hlength, List.take_length,
          enclosing]

namespace Document

variable {d : Document} {a : Address} {around : List Place} {c : Container}

/-- The containers around one are those at the addresses that lead to its own. -/
theorem At.forall₂_around (h : d.At a around c) :
    List.Forall₂ (fun b e => (∃ around', d.At b around' e.container) ∧ e.pointer = b.pointer)
      a.enclosing around := by
  induction h with
  | outermost => exact .nil
  | @nested a around c c' i h hi ih =>
    rw [Address.enclosing_append_singleton h.ne_nil]
    exact List.rel_append ih (.cons ⟨⟨around, h⟩, rfl⟩ .nil)

/-- The pointer of a container goes on from those of the containers around it. -/
theorem At.exists_pointer_append (h : d.At a around c) :
    ∀ e ∈ around, ∃ q, q ≠ [] ∧ a.pointer = e.pointer ++ q := by
  induction h with
  | outermost => exact fun _ => nofun
  | @nested a around c c' i h hi ih =>
    intro e he
    rw [Address.pointer_append_singleton, childPointer]
    rcases List.mem_append.1 he with he | he
    · obtain ⟨q, -, hq⟩ := ih e he
      exact ⟨q ++ ["containers", Nat.repr i], by simp, by rw [hq, List.append_assoc]⟩
    · obtain rfl := List.mem_singleton.1 he
      exact ⟨_, by simp, rfl⟩

/-! ## Sites -/

/-- The sites of a document are its marked containers, each once, in the order of their
    addresses. -/
theorem exists_marked_addresses (d : Document) : ∃ as : List Address, as.Pairwise (· < ·) ∧
    (∀ a, a ∈ as ↔ ∃ around c, d.At a around c ∧ c.mark.isSome = true) ∧
    List.Forall₂ d.SiteAt as d.sites := by
  obtain ⟨as, hsites, horder⟩ := d.exists_addresses
  refine ⟨as, horder, fun a => ⟨fun ha => ?_, ?_⟩, hsites⟩
  · obtain ⟨i, hi⟩ := List.getElem?_of_mem ha
    obtain ⟨s, -, hs⟩ := exists_getElem?_of_forall₂ hsites.flip hi
    exact ⟨_, _, hs.container, by rw [hs.mark]; rfl⟩
  · rintro ⟨around, c, hc, hm⟩
    obtain ⟨mark, hmark⟩ := Option.isSome_iff_exists.1 hm
    obtain ⟨i, hi⟩ := List.getElem?_of_mem (hc.site_mem hmark)
    obtain ⟨b, hb, hs⟩ := exists_getElem?_of_forall₂ hsites hi
    obtain rfl : a = b := Address.pointer_inj.1 hs.pointer
    exact List.mem_of_getElem? hb

end Document

theorem Json.Pointer.text_append (p q : Pointer) : text (p ++ q) = text p ++ text q := by
  have hchars : ∀ p q : Pointer, chars (p ++ q) = chars p ++ chars q := by
    intro p q
    induction p with
    | nil => rfl
    | cons token rest ih => simp [chars, ih]
  rw [text, hchars, String.ofList_append]
  rfl

/-- The walk over a document finds its marked containers, each once and in depth-first document
    order, and hands each the containers around it, from the outermost on: those at the
    addresses that lead to its own.  The texts of the pointers are different ones, and each goes
    on from those of the containers around.  In the value of the document, whose lists are no
    longer than the machine has addresses, the pointer of each of them leads to its value. -/
theorem Document.sites_resolve (d : Document) :
    (∃ as : List Address, as.Pairwise (· < ·) ∧
      (∀ a, a ∈ as ↔ ∃ around c, d.At a around c ∧ c.mark.isSome = true) ∧
      List.Forall₂ (fun a s => d.SiteAt a s ∧
        List.Forall₂ (fun b e => (∃ around, d.At b around e.container) ∧ e.pointer = b.pointer)
          a.enclosing s.around) as d.sites) ∧
    (d.sites.map fun s => s.pointer.text).Nodup ∧
    (∀ s ∈ d.sites, ∀ e ∈ s.around, ∃ q, q ≠ [] ∧
      s.pointer.text = e.pointer.text ++ Pointer.text q) ∧
    (d.Addressable → ∀ s ∈ d.sites,
      Patch.lookup s.pointer.text d.toJson.canonical = .ok s.container.toJson.canonical ∧
      ∀ e ∈ s.around,
        Patch.lookup e.pointer.text d.toJson.canonical = .ok e.container.toJson.canonical) := by
  refine ⟨?_, ?_, fun s hs e he => ?_, fun hd s hs => ?_⟩
  · obtain ⟨as, horder, hmarked, hsites⟩ := d.exists_marked_addresses
    exact ⟨as, horder, hmarked, hsites.imp fun a s h => ⟨h, h.container.forall₂_around⟩⟩
  · refine List.pairwise_map.2 ((pairwise_sitesFrom d.containers).imp fun hne he => ?_)
    exact hne (text_inj he)
  · obtain ⟨a, ha⟩ := exists_siteAt hs
    obtain ⟨q, hq, hp⟩ := ha.container.exists_pointer_append e he
    exact ⟨q, hq, by rw [ha.pointer, hp, Pointer.text_append]⟩
  · obtain ⟨a, ha⟩ := exists_siteAt hs
    refine ⟨?_, fun e he => ?_⟩
    · rw [Patch.lookup_text_eq_ok_iff, ha.pointer]
      exact ha.container.at?_toJson hd
    · obtain ⟨i, hi⟩ := List.getElem?_of_mem he
      obtain ⟨b, -, ⟨_, hb⟩, hp⟩ := exists_getElem?_of_forall₂ ha.container.forall₂_around hi
      rw [Patch.lookup_text_eq_ok_iff, hp]
      exact hb.at?_toJson hd

namespace Enclosed

/-- The inner container has one around it, and both pointers lead to their values. -/
theorem sites_resolve_inner : document.Addressable ∧ ∃ s ∈ document.sites, ∃ e ∈ s.around,
    s.pointer.text = "/containers/0/containers/0" ∧ e.pointer.text = "/containers/0" ∧
    Patch.lookup "/containers/0/containers/0" document.toJson.canonical =
      .ok s.container.toJson.canonical ∧
    Patch.lookup "/containers/0" document.toJson.canonical = .ok e.container.toJson.canonical := by
  have haddressable : document.Addressable := by
    simp only [document, Document.Addressable, AllAddressable, Container.Addressable]
    decide
  obtain ⟨-, -, -, hresolve⟩ := document.sites_resolve
  obtain ⟨s, hs, e, he, hp, hq⟩ : ∃ s ∈ document.sites, ∃ e ∈ s.around,
      s.pointer.text = "/containers/0/containers/0" ∧ e.pointer.text = "/containers/0" :=
    ⟨_, List.mem_cons_self, _, List.mem_cons_self, by decide +kernel, by decide +kernel⟩
  obtain ⟨hsite, haround⟩ := hresolve haddressable s hs
  exact ⟨haddressable, s, hs, e, he, hp, hq, hp ▸ hsite, hq ▸ haround e he⟩

end Enclosed

/-! ## Values that hold a document -/

/-- An item of a list of containers is read from an object, unless it has array form. -/
theorem Container.exists_object_of_holds {depth : Nat} {ms : Members} {cs : List Container}
    {i : Nat} {c : Container} {token : String}
    (h : (Field.orElse "containers" (Tree.list (Json.inside depth Container.read)) []).Holds ms cs)
    (hi : cs[i]? = some c)
    (hm : ¬ (Json.object ms).MeetsArray ["containers", Nat.repr i, token]) :
    ∃ D, ∃ ns : Members, Json.Located (.object ms) ["containers", Nat.repr i] (.object ns) ∧
      (∀ q, Json.MeetsArray (.object ns) q →
        Json.MeetsArray (.object ms) ("containers" :: Nat.repr i :: q)) ∧
      Container.read D (.ofJson (.object ns)) = .ok c := by
  obtain ⟨r, us, hr, hus, hall⟩ := exists_values_of_holds h hi
  obtain ⟨D, rfl, rfl⟩ := Json.inside_eq_some_iff.1 hr
  obtain ⟨u, hu, hread⟩ := exists_getElem?_of_forall₂ hall hi
  have hinside : ∀ q, u.MeetsArray q →
      Json.MeetsArray (.object ms) ("containers" :: Nat.repr i :: q) :=
    fun q hq => .item (Or.inl rfl) hus hu hq
  obtain ⟨ns, rfl⟩ := object_of_read hread fun hmeets => hm (hinside [token] hmeets)
  exact ⟨D, ns, .member hus (.item hu .here), hinside, hread⟩

/-- In a value that holds a document each container stands at its pointer, unless it or one
    around it has array form. -/
theorem Document.At.exists_object {D : Nat} {d : Document} {v : Json} {a : Address}
    {around : List Place} {c : Container} (h : d.At a around c) (hv : v.Addressable)
    (hr : Document.read D (.ofJson v) = .ok d) : ∀ token : String,
    ¬ v.MeetsArray (a.pointer ++ [token]) → ∃ D', ∃ ms : Members, v.Located a.pointer (.object ms) ∧
      (∀ q, Json.MeetsArray (.object ms) q → v.MeetsArray (a.pointer ++ q)) ∧
      Container.read D' (.ofJson (.object ms)) = .ok c := by
  induction h with
  | outermost hi =>
    intro token hm
    obtain ⟨ms, rfl⟩ := Json.object_of_record hr hm
    cases D with
    | zero => cases hr
    | succ D =>
      obtain ⟨-, hcontainers, -⟩ := (read_object_iff hv.sorted).1 hr
      exact Container.exists_object_of_holds hcontainers hi hm
  | @nested a around c c' i _ hi ih =>
    intro token hm
    rw [Address.pointer_append_singleton, childPointer, List.append_assoc] at hm
    obtain ⟨D', ms, hlocated, hinside, hread⟩ := ih "containers" fun hmeets => by
      have hbelow := hmeets.append [Nat.repr i, token]
      rw [List.append_assoc] at hbelow
      exact hm hbelow
    obtain ⟨D'', rfl⟩ := Container.exists_read_succ hread
    obtain ⟨-, -, -, -, hcontainers, -⟩ :=
      (Container.read_object_iff (hlocated.addressable hv).sorted).1 hread
    obtain ⟨E, ns, hlocated', hinside', hread'⟩ :=
      Container.exists_object_of_holds hcontainers hi fun hmeets => hm (hinside _ hmeets)
    rw [Address.pointer_append_singleton, childPointer]
    refine ⟨E, ns, hlocated.append hlocated', fun q hq => ?_, hread'⟩
    rw [List.append_assoc]
    exact hinside _ (hinside' q hq)

end ImportBinding
