/-
  ImportBinding — names of a surface that grows at its end.

  Names declared at the end of a surface are reserved from the start, so one of them can take
  a numbered name from an earlier method.  Nothing else changes an earlier name.

  * `Exact.append`: a name that is right in a surface is right in a longer one, unless the
    longer one declares it plain;
  * `take_assignAll_append` carries this along a run;
  * `assignAll_append_iff`: exactly such a clash changes an earlier name.
-/
import ImportBinding.Proofs.Naming

namespace ImportBinding.Naming

variable {plains more done out : List String} {p name name' : String}

/-! ## One name -/

/-- There is one right name. -/
theorem Exact.unique (h : Exact plains done out p name) (h' : Exact plains done out p name') :
    name = name' := by
  by_cases hold : p ∈ done
  · obtain ⟨n, hn, rfl⟩ := h.2 hold
    obtain ⟨n', hn', rfl⟩ := h'.2 hold
    rw [hn.unique hn']
  · rw [h.1 hold, h'.1 hold]

/-- A numbered name is no plain one. -/
theorem Exact.not_mem (h : Exact plains done out p name) (hold : p ∈ done) : name ∉ plains := by
  obtain ⟨n, ⟨⟨-, hnot, -⟩, -⟩, rfl⟩ := h.2 hold
  exact hnot

/-- A name stays right when more names are declared, unless it is a numbered one and among
    them: the numbers that were passed over still are. -/
theorem Exact.append (h : Exact plains done out p name) (hmore : p ∈ done → name ∉ more) :
    Exact (plains ++ more) done out p name := by
  refine ⟨h.1, fun hold => ?_⟩
  obtain ⟨n, ⟨⟨hpos, hplain, hout⟩, hleast⟩, rfl⟩ := h.2 hold
  refine ⟨n, ⟨⟨hpos, ?_, hout⟩, ?_⟩, rfl⟩
  · rw [List.mem_append, not_or]
    exact ⟨hplain, hmore hold⟩
  · rintro m ⟨hm, hfree, hfresh⟩
    exact hleast ⟨hm, fun hp => hfree (List.mem_append_left more hp), hfresh⟩

/-! ## Runs -/

/-- The names of a surface are the right ones, each after those before it. -/
theorem exact_assignAll {i : Nat} (hi : plains[i]? = some p) :
    ∃ name, (empty.assignAll plains).1[i]? = some name ∧
      Exact plains (plains.take i) ((empty.assignAll plains).1.take i) p name :=
  (fresh_reserve plains).exact_assignFrom (fun _ hp => hp) hi

theorem length_assignAll (plains : List String) :
    (empty.assignAll plains).1.length = plains.length :=
  length_assignFrom plains _ 0

/-- Unless a numbered name is declared plain later, both runs hand out the same names. -/
theorem take_assignAll_append
    (h : ∀ i p name, plains[i]? = some p → p ∈ plains.take i →
      (empty.assignAll plains).1[i]? = some name → name ∉ more) (i : Nat) (hi : i ≤ plains.length) :
    (empty.assignAll (plains ++ more)).1.take i = (empty.assignAll plains).1.take i := by
  induction i with
  | zero => rw [List.take_zero, List.take_zero]
  | succ i ih =>
    have hsame := ih (by omega)
    have hplain := List.getElem?_eq_getElem (l := plains) hi
    have hplain' : (plains ++ more)[i]? = some plains[i] := by
      rw [List.getElem?_append_left hi, hplain]
    obtain ⟨name, hname, hexact⟩ := exact_assignAll hplain
    obtain ⟨name', hname', hexact'⟩ := exact_assignAll hplain'
    -- so far both runs have named the same methods by the same names
    rw [List.take_append_of_le_length (by omega), hsame] at hexact'
    have heq : name' = name :=
      hexact'.unique (hexact.append fun hold => h i _ name hplain hold hname)
    rw [List.take_add_one, List.take_add_one, hsame, hname, hname', heq]

/-- Declaring more methods at the end of a surface leaves the names of all earlier ones iff none
    of the new ones has for its plain name a numbered name that the surface gave to a method which
    is not the first of its plain name.  More methods of names that the surface already has rename
    none. -/
theorem assignAll_append_iff (xs ys : List Signature) :
    let plains := xs.map Signature.name
    let names := (empty.assignAll plains).1
    let names' := (empty.assignAll ((xs ++ ys).map Signature.name)).1
    (names'.take xs.length = names ↔ ∀ i p name, plains[i]? = some p → p ∈ plains.take i →
      names[i]? = some name → ∀ y ∈ ys, y.name ≠ name) ∧
    ((∀ y ∈ ys, y.name ∈ plains) → names'.take xs.length = names) := by
  intro plains names names'
  have hlength : plains.length = xs.length := List.length_map _
  have hnames : names.length = plains.length := length_assignAll plains
  have happend : names' = (empty.assignAll (plains ++ ys.map Signature.name)).1 := by
    simp only [names', List.map_append, plains]
  have hkept : (∀ i p name, plains[i]? = some p → p ∈ plains.take i → names[i]? = some name →
      ∀ y ∈ ys, y.name ≠ name) → names'.take xs.length = names := by
    intro hclear
    have hmore : ∀ i p name, plains[i]? = some p → p ∈ plains.take i → names[i]? = some name →
        name ∉ ys.map Signature.name := by
      intro i p name hp hold hname hclash
      obtain ⟨y, hy, hyname⟩ := List.mem_map.1 hclash
      exact hclear i p name hp hold hname y hy hyname
    rw [happend, ← hlength, take_assignAll_append hmore plains.length (Nat.le_refl _), ← hnames,
      List.take_length]
  refine ⟨⟨fun hsame i p name hp hold hname y hy hclash => ?_, hkept⟩, fun hdeclared => ?_⟩
  · -- the longer run gives the same name, and it reserves the plain names of all methods
    obtain ⟨hlt, -⟩ := List.getElem?_eq_some_iff.1 hp
    have hp' : (plains ++ ys.map Signature.name)[i]? = some p := by
      rw [List.getElem?_append_left hlt, hp]
    obtain ⟨name', hname', hexact⟩ := exact_assignAll hp'
    rw [← happend] at hname' hexact
    have hsame' : names'[i]? = some name := by
      rw [← hname, ← hsame, List.getElem?_take_of_lt (hlength ▸ hlt)]
    obtain rfl := Option.some.inj (hname'.symm.trans hsame')
    refine hexact.not_mem ?_ (List.mem_append_right plains (hclash ▸ List.mem_map_of_mem hy))
    rwa [List.take_append_of_le_length (Nat.le_of_lt hlt)]
  · refine hkept fun i p name hp hold hname y hy hclash => ?_
    obtain ⟨name', hname', hexact⟩ := exact_assignAll hp
    obtain rfl := Option.some.inj (hname'.symm.trans hname)
    exact hexact.not_mem hold (hclash ▸ hdeclared y hy)

/-- A name declared later takes the number of an overload; one more overload takes none. -/
example : (empty.assignAll (["A", "A"] ++ ["A1"])).1 = ["A", "A2", "A1"] ∧
    (empty.assignAll (["A", "A"] ++ ["A"])).1 = ["A", "A1", "A2"] := by decide

end ImportBinding.Naming
