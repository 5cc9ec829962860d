/-
  ImportBinding — containers by their addresses.

  The address of a container is the list of indexes on the way to it, from the outermost
  list on.  Depth-first document order is the lexicographic order of addresses: a container
  comes before those in it, and they come by their indexes.

  * `Document.At`: a container is at an address, with the containers around it;
  * `Document.exists_addresses`: the sites of a document are its marked containers, in the
    order of their addresses;
  * `compare_placeKey_pointer`: pointers are compared as the addresses they come from.
-/
import ImportBinding.Proofs.Declaration.Target
import Mathlib.Data.List.Forall2

namespace ImportBinding

/-! ## Addresses -/

/-- The indexes on the way to a container, the outermost first. -/
abbrev Address := List Nat

/-- The pointer of the container at an address. -/
def Address.pointer (a : Address) : Json.Pointer :=
  a.flatMap fun i => ["containers", Nat.repr i]

theorem childPointer_append (p q : Json.Pointer) (key : String) (i : Nat) :
    childPointer p key i ++ q = p ++ key :: Nat.repr i :: q := by
  simp [childPointer]

theorem Address.pointer_append_singleton (a : Address) (i : Nat) :
    pointer (a ++ [i]) = childPointer (pointer a) "containers" i := by
  simp [pointer, childPointer]

theorem Address.length_pointer (a : Address) : (pointer a).length = 2 * a.length := by
  induction a with
  | nil => rfl
  | cons i rest ih =>
    simp only [pointer, List.flatMap_cons, List.length_append, List.length_cons,
      List.length_nil] at ih ⊢
    omega

theorem Address.pointer_inj {a b : Address} : pointer a = pointer b ↔ a = b := by
  constructor
  · intro h
    induction a generalizing b with
    | nil =>
      cases b with
      | nil => rfl
      | cons j b => cases h
    | cons i a ih =>
      cases b with
      | nil => cases h
      | cons j b =>
        simp only [pointer, List.flatMap_cons, List.cons_append, List.nil_append,
          List.cons.injEq, Json.repr_inj, true_and] at h
        rw [h.1, ih h.2]
  · rintro rfl; rfl

/-- A pointer that goes on from a container to another member than its containers tells which
    container it is. -/
theorem Address.pointer_append_inj {a b : Address} {x y : String} {p q : Json.Pointer}
    (hx : x ≠ "containers") (hy : y ≠ "containers")
    (h : a.pointer ++ x :: p = b.pointer ++ y :: q) : a = b ∧ x = y := by
  induction a generalizing b with
  | nil =>
    cases b with
    | nil => exact ⟨rfl, (List.cons.inj h).1⟩
    | cons j b => exact absurd (List.cons.inj h).1 hx
  | cons i a ih =>
    cases b with
    | nil => exact absurd (List.cons.inj h).1.symm hy
    | cons j b =>
      simp only [pointer, List.flatMap_cons, List.cons_append, List.nil_append, List.cons.injEq,
        Json.repr_inj, true_and] at h
      obtain ⟨rfl, hrest⟩ := h
      obtain ⟨rfl, hxy⟩ := ih hrest
      exact ⟨rfl, hxy⟩

/-- A container of a document is at an address, inside the containers around it, of which
    the outermost comes first. -/
inductive Document.At (d : Document) : Address → List Place → Container → Prop where
  | outermost {i : Nat} {c : Container} (hi : d.containers[i]? = some c) : At d [i] [] c
  | nested {a : Address} {around : List Place} {c c' : Container} {i : Nat}
      (h : At d a around c) (hi : c.containers[i]? = some c') :
      At d (a ++ [i]) (around ++ [⟨c, a.pointer⟩]) c'

namespace Document.At

variable {d : Document} {a : Address} {around around' : List Place} {c c' : Container}

theorem ne_nil (h : d.At a around c) : a ≠ [] := by
  cases h <;> simp

/-- At an address there is one container. -/
theorem unique (h : d.At a around c) (h' : d.At a around' c') : around = around' ∧ c = c' := by
  induction h generalizing around' c' with
  | @outermost i c hi =>
    generalize ha : [i] = a at h'
    cases h' with
    | outermost hj =>
      obtain rfl := List.singleton_inj.1 ha
      exact ⟨rfl, Option.some.inj (hi.symm.trans hj)⟩
    | nested hn _ => exact absurd (List.append_eq_singleton_iff.1 ha.symm) (by simp [hn.ne_nil])
  | @nested a around c c₁ i h hi ih =>
    generalize ha : a ++ [i] = b at h'
    cases h' with
    | outermost hj => exact absurd (List.append_eq_singleton_iff.1 ha) (by simp [h.ne_nil])
    | nested hn hj =>
      obtain ⟨rfl, hij⟩ := List.append_inj' ha rfl
      obtain rfl := List.singleton_inj.1 hij
      obtain ⟨rfl, rfl⟩ := ih hn
      exact ⟨rfl, Option.some.inj (hi.symm.trans hj)⟩

theorem exists_pointer_around (h : d.At a around c) :
    ∀ e ∈ around, ∃ b : Address, e.pointer = b.pointer := by
  induction h with
  | outermost => exact fun _ => nofun
  | nested _ _ ih =>
    intro e he
    rcases List.mem_append.1 he with he | he
    · exact ih e he
    · exact ⟨_, congrArg Place.pointer (List.mem_singleton.1 he)⟩

/-- The containers around one lie further and further inside, and it lies inside them all. -/
theorem pairwise_around (h : d.At a around c) :
    (around.map (·.pointer.length) ++ [a.pointer.length]).Pairwise (· < ·) := by
  induction h with
  | outermost => simp
  | @nested a around c c' i h hi ih =>
    have hlast : ∀ n ∈ around.map (·.pointer.length) ++ [a.pointer.length],
        n < (Address.pointer (a ++ [i])).length := by
      intro n hn
      have hle : n ≤ a.pointer.length := by
        rcases List.mem_append.1 hn with hn | hn
        · exact Nat.le_of_lt ((List.pairwise_append.1 ih).2.2 n hn _ (by simp))
        · exact Nat.le_of_eq (List.mem_singleton.1 hn)
      rw [Address.length_pointer] at hle ⊢
      simp only [List.length_append, List.length_singleton]
      omega
    rw [List.map_append, List.map_singleton]
    exact List.pairwise_append.2 ⟨ih, List.pairwise_singleton _ _, fun n hn m hm => by
      rw [List.mem_singleton.1 hm]
      exact hlast n hn⟩

end Document.At

/-! ## Sites -/

/-- A site of a document is the marked container at an address. -/
structure Document.SiteAt (d : Document) (a : Address) (s : Site) : Prop where
  container : d.At a s.around s.container
  pointer : s.pointer = a.pointer
  mark : s.container.mark = some s.mark

/-- An address comes before those that go on from it. -/
theorem Address.lt_append (a : Address) (i : Nat) (b : Address) : a < a ++ i :: b := by
  have h : a ++ [] < a ++ i :: b := List.append_left_lt (List.nil_lt_cons i b)
  rwa [List.append_nil] at h

/-- Two addresses that part come in the order of the indexes where they do. -/
theorem Address.append_lt_append {i j : Nat} (h : i < j) (a b c : Address) :
    a ++ i :: b < a ++ j :: c :=
  List.append_left_lt (List.cons_lt_cons_iff.2 (Or.inl h))

mutual

/-- The sites in a container that is at an address, its own first. -/
theorem exists_addresses_sites {d : Document} {a : Address} {around : List Place} :
    (c : Container) → d.At a around c →
    ∃ as : List Address, List.Forall₂ d.SiteAt as (c.sites a.pointer around) ∧
      as.Pairwise (· < ·) ∧ ∀ b ∈ as, ∃ e, b = a ++ e
  | ⟨name, isPartial, mark, methods, containers⟩, h => by
    have hinside : ∀ j c', containers[j]? = some c' → d.At (a ++ [0 + j])
        (around ++ [⟨⟨name, isPartial, mark, methods, containers⟩, a.pointer⟩]) c' := by
      intro j c' hj
      rw [Nat.zero_add]
      exact .nested h hj
    obtain ⟨as, hsites, horder, hbelow⟩ := exists_addresses_sitesFrom containers hinside
    rw [Container.sites_eq]
    cases mark with
    | none =>
      refine ⟨as, hsites, horder, fun b hb => ?_⟩
      obtain ⟨j, e, -, rfl⟩ := hbelow b hb
      exact ⟨_, rfl⟩
    | some mark =>
      refine ⟨a :: as, .cons ⟨h, rfl, rfl⟩ hsites, List.pairwise_cons.2 ⟨?_, horder⟩, ?_⟩
      · intro b hb
        obtain ⟨j, e, -, rfl⟩ := hbelow b hb
        exact a.lt_append j e
      · intro b hb
        rcases List.mem_cons.1 hb with rfl | hb
        · exact ⟨[], (List.append_nil _).symm⟩
        · obtain ⟨j, e, -, rfl⟩ := hbelow b hb
          exact ⟨_, rfl⟩

theorem exists_addresses_sitesFrom {d : Document} {a : Address} {around : List Place} {i : Nat} :
    (cs : List Container) →
    (∀ j c, cs[j]? = some c → d.At (a ++ [i + j]) around c) →
    ∃ as : List Address, List.Forall₂ d.SiteAt as (sitesFrom a.pointer around i cs) ∧
      as.Pairwise (· < ·) ∧ ∀ b ∈ as, ∃ j e, i ≤ j ∧ b = a ++ j :: e
  | [], _ => ⟨[], .nil, .nil, by simp⟩
  | c :: rest, h => by
    obtain ⟨as, hsites, horder, hbelow⟩ := exists_addresses_sites c (h 0 c rfl)
    have hrest : ∀ j c', rest[j]? = some c' → d.At (a ++ [i + 1 + j]) around c' := by
      intro j c' hj
      rw [Nat.add_right_comm, Nat.add_assoc]
      exact h (j + 1) c' hj
    obtain ⟨bs, hsites', horder', hbelow'⟩ := exists_addresses_sitesFrom rest hrest
    rw [Nat.add_zero, Address.pointer_append_singleton] at hsites
    have hfirst : ∀ b ∈ as, ∃ e, b = a ++ i :: e := fun b hb => by
      obtain ⟨e, rfl⟩ := hbelow b hb
      exact ⟨e, by simp⟩
    refine ⟨as ++ bs, List.rel_append hsites hsites', List.pairwise_append.2
      ⟨horder, horder', fun b hb b' hb' => ?_⟩, fun b hb => ?_⟩
    · obtain ⟨e, rfl⟩ := hfirst b hb
      obtain ⟨j, e', hj, rfl⟩ := hbelow' b' hb'
      exact Address.append_lt_append hj a e e'
    · rcases List.mem_append.1 hb with hb | hb
      · obtain ⟨e, rfl⟩ := hfirst b hb
        exact ⟨i, e, Nat.le_refl i, rfl⟩
      · obtain ⟨j, e, hj, rfl⟩ := hbelow' b hb
        exact ⟨j, e, Nat.le_of_succ_le hj, rfl⟩

end

/-- The sites of a document are marked containers, in the order of their addresses. -/
theorem Document.exists_addresses (d : Document) :
    ∃ as : List Address, List.Forall₂ d.SiteAt as d.sites ∧ as.Pairwise (· < ·) := by
  have houtermost : ∀ j c, d.containers[j]? = some c → d.At ([] ++ [0 + j]) [] c := by
    intro j c hj
    rw [Nat.zero_add]
    exact .outermost hj
  obtain ⟨as, hsites, horder, -⟩ := exists_addresses_sitesFrom d.containers houtermost
  exact ⟨as, hsites, horder⟩

theorem sites_sublist_sitesFrom (p : Json.Pointer) (around : List Place) {c : Container}
    {cs : List Container} : ∀ (i : Nat) {j : Nat}, cs[j]? = some c →
      (c.sites (childPointer p "containers" (i + j)) around).Sublist (sitesFrom p around i cs) := by
  induction cs with
  | nil => intro i j hj; simp at hj
  | cons c' rest ih =>
    intro i j hj
    rw [sitesFrom]
    cases j with
    | zero =>
      obtain rfl := Option.some.inj hj
      exact List.sublist_append_left _ _
    | succ j =>
      rw [← Nat.add_assoc, Nat.add_right_comm]
      exact (ih (i + 1) hj).trans (List.sublist_append_right _ _)

/-- The sites in a container of a document are sites of the document. -/
theorem Document.At.sites_sublist {d : Document} {a : Address} {around : List Place}
    {c : Container} (h : d.At a around c) : (c.sites a.pointer around).Sublist d.sites := by
  induction h with
  | outermost hi =>
    have hsub := sites_sublist_sitesFrom [] [] 0 hi
    rw [Nat.zero_add] at hsub
    exact hsub
  | @nested a around c c' i h hi ih =>
    have hsub := sites_sublist_sitesFrom a.pointer (around ++ [⟨c, a.pointer⟩]) 0 hi
    rw [Nat.zero_add] at hsub
    rw [Address.pointer_append_singleton]
    refine hsub.trans (List.Sublist.trans ?_ ih)
    rw [Container.sites_eq]
    exact List.sublist_append_right _ _

/-- A marked container of a document is one of its sites. -/
theorem Document.At.site_mem {d : Document} {a : Address} {around : List Place} {c : Container}
    (h : d.At a around c) {mark : ImportMark} (hm : c.mark = some mark) :
    ⟨c, mark, a.pointer, around⟩ ∈ d.sites := by
  refine h.sites_sublist.subset ?_
  rw [Container.sites_eq, Container.site?, hm]
  exact List.mem_append_left _ List.mem_cons_self

/-! ## Order -/

theorem placeKey_text (p : Json.Pointer) :
    placeKey p.text = p.map fun t => Segment.ofString (.ofList (Json.Pointer.escape t.toList)) := by
  unfold placeKey Json.Pointer.text
  rw [String.toList_ofList]
  cases p with
  | nil => rfl
  | cons token rest =>
    have hfirst := Json.Pointer.segments_append List.not_mem_nil
      (Json.Pointer.escape token.toList ++ Json.Pointer.chars rest)
    rw [List.nil_append] at hfirst
    rw [Json.Pointer.chars, List.cons_append, hfirst, Json.Pointer.segments_chars]
    simp

theorem escape_repr (i : Nat) : Json.Pointer.escape (Nat.repr i).toList = (Nat.repr i).toList := by
  have hdigit : ∀ c ∈ (Nat.repr i).toList, Json.Pointer.escapeChar c = [c] := by
    intro c hc
    rw [Nat.toList_repr] at hc
    have hd := Nat.isDigit_of_mem_toDigits (by decide) (by decide) hc
    rw [Json.Pointer.escapeChar, if_neg, if_neg] <;> rintro rfl <;> exact absurd hd (by decide)
  rw [Json.Pointer.escape, List.flatMap_congr hdigit]
  simp

/-- The pointer of a container is compared by the indexes of its address. -/
theorem placeKey_pointer {a : Address} (h : ∀ i ∈ a, i < UInt64.size) :
    placeKey a.pointer.text = a.flatMap fun i => [.key "containers", .index i] := by
  rw [placeKey_text]
  induction a with
  | nil => rfl
  | cons i rest ih =>
    have hrest := ih fun j hj => h j (List.mem_cons_of_mem _ hj)
    have hindex : Segment.ofString (.ofList (Json.Pointer.escape (Nat.repr i).toList)) =
        .index i := by
      rw [escape_repr, String.ofList_toList, Segment.ofString,
        Json.index?_repr (h i List.mem_cons_self)]
    have hkey : Segment.ofString (.ofList (Json.Pointer.escape "containers".toList)) =
        .key "containers" := by rfl
    rw [Address.pointer] at hrest ⊢
    rw [List.flatMap_cons, List.map_append, hrest, List.flatMap_cons]
    simp only [List.map_cons, List.map_nil, hindex, hkey]

/-- An index of two addresses decides, unless it is the same. -/
theorem compare_address_cons (i j : Nat) (ss ts : List Segment) :
    compare (Segment.key "containers" :: .index i :: ss) (.key "containers" :: .index j :: ts) =
      (compare i j).then (compare ss ts) := by
  have hkey : compare (Segment.key "containers") (.key "containers") = .eq := by rfl
  have hindex : compare (Segment.index i) (.index j) = compare i j := rfl
  have hcons : compare (Segment.key "containers" :: .index i :: ss)
      (.key "containers" :: .index j :: ts) = List.compareLex compare _ _ := rfl
  rw [hcons, List.compareLex_cons_cons, List.compareLex_cons_cons, hkey, hindex]
  rfl

/-- Pointers are compared as the addresses they come from. -/
theorem compare_placeKey_pointer {a b : Address} (hab : a < b) (ha : ∀ i ∈ a, i < UInt64.size)
    (hb : ∀ i ∈ b, i < UInt64.size) :
    compare (placeKey a.pointer.text) (placeKey b.pointer.text) = .lt := by
  rw [placeKey_pointer ha, placeKey_pointer hb]
  clear ha hb
  induction hab with
  | nil => rfl
  | cons _ ih =>
    simp only [List.flatMap_cons, List.cons_append, List.nil_append, compare_address_cons, ih]
    rw [Nat.compare_eq_eq.2 rfl]
    rfl
  | rel h =>
    simp only [List.flatMap_cons, List.cons_append, List.nil_append, compare_address_cons]
    rw [Nat.compare_eq_lt.2 h]
    rfl

end ImportBinding
