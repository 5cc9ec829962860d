/-
  ImportBinding — generated modules are coherent.

  The parts of a module are written by loops of their own over the methods.  They agree in
  every position, and no two items of a module have one name.

  * `Entry.nodup_values` and `Entry.nodup_types`: no item is declared twice;
  * `Entry.table` is what the slots of a module tell of themselves;
  * `Surface.generate_coherent`: whatever was named before, a module that is generated says
    the same of its slots in all its parts, and its cell counts right;
  * `crowded` is a surface whose name brings items along.
-/
import ImportBinding.Proofs.Binding
import ImportBinding.Proofs.Naming
import ImportBinding.Proofs.Source.Told

namespace ImportBinding

open Source

/-! ## Names of items -/

/-- A name that no item of a module has is not spelled like one either. -/
theorem raw_not_mem_reservedItems {name : String} (h : name ∉ reservedItems) :
    Identifier.raw name ∉ reservedItems := by
  unfold Identifier.raw
  split
  · intro hmem
    have hhash : ∀ item ∈ reservedItems, '#' ∉ item.toList := by decide
    exact hhash _ hmem (by simp)
  · exact h

theorem append_fn_injective : Function.Injective fun name : String => name ++ "Fn" := by
  intro a b h
  have hlist := congrArg String.toList h
  simp only [String.toList_append] at hlist
  exact String.toList_inj.1 (List.append_cancel_right hlist)

/-- No type of callables is named like the type that holds the slots. -/
theorem append_fn_ne_slots (name : String) : name ++ "Fn" ≠ "Slots" := by
  intro h
  have hlast := congrArg (fun text => text.toList.getLast?) h
  simp at hlast

namespace Source.Entry

variable {assigned : List String}

theorem values_ofNames (assigned : List String) : (ofNames [] assigned).filterMap value? =
    ["SURFACE_NAME", "REQUIRED", "IMPORTS", "load", "is_imported", "import_state", "attach"] ++
      assigned.map Identifier.raw := by
  simp [ofNames, value?, List.filterMap_cons, List.filterMap_flatMap, flatMap_empty,
    List.map_eq_flatMap]

theorem types_ofNames (assigned : List String) : (ofNames [] assigned).filterMap type? =
    assigned.map (fun name => name ++ "Fn") ++ ["Slots"] := by
  simp [ofNames, type?, List.filterMap_cons, List.filterMap_flatMap, flatMap_empty,
    List.map_eq_flatMap]

/-- Different names that pass the checks are spelled differently. -/
theorem nodup_raw (hnodup : assigned.Nodup) (husable : ∀ name ∈ assigned, Identifier.Usable name) :
    (assigned.map Identifier.raw).Nodup :=
  hnodup.map_on fun a ha b hb h => (Identifier.raw_inj (husable a ha) (husable b hb)).1 h

/-- No constant, static or function of a module is declared twice. -/
theorem nodup_values (hnodup : assigned.Nodup)
    (husable : ∀ name ∈ assigned, Identifier.Usable name)
    (hreserved : ∀ name ∈ assigned, name ∉ reservedItems) :
    ((ofNames [] assigned).filterMap value?).Nodup := by
  rw [values_ofNames]
  refine List.nodup_append'.2 ⟨by decide, nodup_raw hnodup husable, ?_⟩
  intro item hitem hident
  obtain ⟨name, hname, rfl⟩ := List.mem_map.1 hident
  have hsubset : ∀ item ∈ ["SURFACE_NAME", "REQUIRED", "IMPORTS", "load", "is_imported",
      "import_state", "attach"], item ∈ reservedItems := by decide
  exact raw_not_mem_reservedItems (hreserved name hname) (hsubset _ hitem)

/-- No type of a module is declared twice. -/
theorem nodup_types (hnodup : assigned.Nodup) : ((ofNames [] assigned).filterMap type?).Nodup := by
  rw [types_ofNames]
  refine List.nodup_append'.2 ⟨hnodup.map append_fn_injective, List.nodup_singleton _, ?_⟩
  intro item hitem hslots
  obtain ⟨name, -, rfl⟩ := List.mem_map.1 hitem
  exact append_fn_ne_slots name (List.mem_singleton.1 hslots)

/-! ## Tables -/

/-- The names of the slots, where an entry lists them. -/
def slotNames : Entry → List String
  | names list => list
  | _ => []

/-- The slots that an entry asks whether they hold something. -/
def questions : Entry → List String
  | resolution idents => idents
  | _ => []

/-- What slots tell of themselves, when a module says `entries` of them.  The slots hold
    callables, each under its identifier. -/
def table (φ : Type) (entries : List Entry) : Binding.Table (String → Option φ) where
  names := entries.flatMap slotNames
  resolution slots := (entries.flatMap questions).map fun ident => (slots ident).isSome

/-- An item of a module tells nothing of the slots. -/
theorem tells_nothing_of_item {text : String} {e : Entry} (h : item? text = some e) :
    slotNames e = [] ∧ questions e = [] := by
  obtain ⟨⟨before, entry⟩, hk, hitem⟩ := List.exists_of_findSome?_eq_some h
  obtain ⟨rest, -, rfl⟩ := Option.map_eq_some_iff.1 hitem
  simp only [kinds, List.mem_cons, List.not_mem_nil, or_false, Prod.mk.injEq] at hk
  obtain ⟨-, rfl⟩ | ⟨-, rfl⟩ | ⟨-, rfl⟩ | ⟨-, rfl⟩ | ⟨-, rfl⟩ := hk
  all_goals exact ⟨rfl, rfl⟩

theorem table_ofNames (φ : Type) {found : List Entry}
    (hfound : ∀ e ∈ found, slotNames e = [] ∧ questions e = []) (assigned : List String) :
    table φ (ofNames found assigned) =
      { names := assigned
        resolution := fun slots =>
          (assigned.map Identifier.raw).map fun ident => (slots ident).isSome } := by
  have hfoundNames : found.flatMap slotNames = [] :=
    List.flatMap_eq_nil_iff.2 fun e he => (hfound e he).1
  have hfoundQuestions : found.flatMap questions = [] :=
    List.flatMap_eq_nil_iff.2 fun e he => (hfound e he).2
  have hnames : (ofNames found assigned).flatMap slotNames = assigned := by
    simp [ofNames, slotNames, List.flatMap_map, List.flatMap_assoc, flatMap_empty, hfoundNames]
  have hquestions : (ofNames found assigned).flatMap questions = assigned.map Identifier.raw := by
    simp [ofNames, questions, List.flatMap_map, List.flatMap_assoc, flatMap_empty, hfoundQuestions]
  rw [table, hnames, hquestions]

/-- The slots of a module tell of as many as they have names, so its cell counts right. -/
theorem load_ofNames (φ : Type) {found : List Entry}
    (hfound : ∀ e ∈ found, slotNames e = [] ∧ questions e = []) (assigned : List String)
    (c : Binding.Cell (String → Option φ)) :
    let t := table φ (ofNames found assigned)
    (t.resolution c.slots).length = t.names.length ∧
    (c.load t).2.state ≠ .unknownFailure ∧
    ∀ e, (c.load t).1 = .error e → e.state ≠ .unknownFailure := by
  intro t
  have hlength : (t.resolution c.slots).length = t.names.length := by
    have ht : t = _ := table_ofNames φ hfound assigned
    rw [ht, List.length_map, List.length_map]
  have hstate : (c.load t).2.state ≠ .unknownFailure := by
    rw [Binding.Cell.load_state]
    exact Binding.Cell.derive_ne_unknownFailure (Nat.le_of_eq hlength)
  refine ⟨hlength, hstate, fun e he => ?_⟩
  rw [Binding.Cell.state_of_load_error he]
  exact hstate

theorem tells_nothing_of_brings (options : Options) (s : Surface) :
    ∀ e ∈ s.brings options, slotNames e = [] ∧ questions e = [] := by
  intro e he
  rw [Surface.brings] at he
  split at he
  · obtain ⟨row, -, hitem⟩ := List.mem_filterMap.1 he
    exact tells_nothing_of_item hitem
  · cases he

theorem length_ofNames (found : List Entry) (assigned : List String) :
    (ofNames found assigned).length = 10 + assigned.length * (2 * found.length + 5) := by
  simp [ofNames, List.length_flatMap]
  grind

/-- A module tells nothing else iff there is nothing else, or no place for it. -/
theorem ofNames_eq_iff {found : List Entry} :
    ofNames found assigned = ofNames [] assigned ↔ assigned = [] ∨ found = [] := by
  constructor
  · intro h
    have hlength := congrArg List.length h
    rw [length_ofNames, length_ofNames, List.length_nil, Nat.add_left_cancel_iff] at hlength
    rcases Nat.eq_zero_or_pos assigned.length with hnone | hsome
    · exact Or.inl (List.eq_nil_of_length_eq_zero hnone)
    · have hfound := Nat.eq_of_mul_eq_mul_left hsome hlength
      exact Or.inr (List.eq_nil_of_length_eq_zero (by omega))
  · rintro (rfl | rfl) <;> rfl

end Source.Entry

open Source.Entry

/-- The lines of a module that is generated say the same of its slots in all its parts: for each
    assigned name, in the order of the signatures, there are a type of callables, a slot of that
    type that starts out empty, the name in the list of names, a question in the resolution, and
    a function that asks for the name and calls the slot.  The names are as many as the
    signatures, and what is spelled from them is apart from one another and from all else.

    Where the surface is legible the text of the module tells just that, and what the surface
    brings along: nothing else is told iff there is nothing of this, or no method to document.
    Then no item is declared twice.  The slots tell of as many as they have names, and no load of
    the cell ends in counts that do not add up. -/
theorem Surface.generate_coherent {options : Options} {s : Surface} {names : Naming}
    {source : String} (hnames : names.Reachable)
    (hsource : (s.generate options names).1 = .ok source) :
    ∃ p, (s.plan names).1 = .ok p ∧ source = render (p.emitted options) ∧
      let assigned := s.assigned names
      assigned.length = s.signatures.length ∧
      entries (p.emitted options) = ofNames [] assigned ∧
      (assigned.map Identifier.raw).Nodup ∧
      (assigned.map (fun name => name ++ "Fn") ++ ["Slots"]).Nodup ∧
      (∀ ident ∈ assigned.map Identifier.raw, ident ∉ reservedItems) ∧
      (s.Legible options →
        let said := entries (statements source)
        ((options.docs → Text.Later true s.metadata.surface) →
          statements source = codeLines (p.emitted options)) ∧
        said = ofNames (s.brings options) assigned ∧
        (said = ofNames [] assigned ↔ s.signatures = [] ∨ s.brings options = []) ∧
        (said = ofNames [] assigned →
          (said.filterMap type?).Nodup ∧ (said.filterMap value?).Nodup) ∧
        ∀ (φ : Type) (c : Binding.Cell (String → Option φ)),
          ((table φ said).resolution c.slots).length = (table φ said).names.length ∧
          (c.load (table φ said)).2.state ≠ .unknownFailure ∧
          ∀ e, (c.load (table φ said)).1 = .error e → e.state ≠ .unknownFailure) := by
  obtain ⟨p, hp, rfl⟩ := generate_eq_ok_iff.1 hsource
  obtain ⟨hassigned, hnamed⟩ := methods_of_plan hp
  have hsaid : entries (p.emitted options) = ofNames [] (s.assigned names) := by
    rw [Plan.entries_emitted hnamed, hassigned]
  have hlength : (s.assigned names).length = s.signatures.length := length_assigned names
  have hnodup : (s.assigned names).Nodup := hnames.nodup_assignAll _
  have hmethod : ∀ name ∈ s.assigned names, Identifier.Usable name ∧ name ∉ reservedItems := by
    rw [← hassigned]
    intro name hname
    obtain ⟨m, hm, rfl⟩ := List.mem_map.1 hname
    exact ⟨(hnamed m hm).usable, (hnamed m hm).notReserved⟩
  have husable := fun name hname => (hmethod name hname).1
  have hreserved := fun name hname => (hmethod name hname).2
  have htypes := nodup_types hnodup
  refine ⟨p, hp, rfl, hlength, hsaid, nodup_raw hnodup husable, ?_, ?_, ?_⟩
  · rwa [types_ofNames] at htypes
  · intro ident hident
    obtain ⟨name, hname, rfl⟩ := List.mem_map.1 hident
    exact raw_not_mem_reservedItems (hreserved name hname)
  · intro hlegible
    have htext := entries_of_plan hp hlegible
    refine ⟨statements_of_plan hp hlegible, htext, ?_, fun honly => ?_, fun φ c => ?_⟩
    · rw [htext, ofNames_eq_iff, ← List.length_eq_zero_iff, hlength, List.length_eq_zero_iff]
    · rw [honly]
      exact ⟨htypes, nodup_values hnodup husable hreserved⟩
    · rw [htext]
      exact load_ofNames φ (tells_nothing_of_brings options s) (s.assigned names) c

/-- A surface with an overloaded method, and one that is named by a keyword. -/
def overloaded : Surface where
  metadata := { surface := "Game.Score", required := true }
  module := "game_score"
  signatures :=
    [{ name := "type", params := [], returns := some "fn(u8) -> u8" },
      { name := "Add", params := [{ name := "n", ty := "&'static [u8; 4]", mode := .value }],
        returns := none },
      { name := "Add", params := [], returns := none }]

theorem overloaded_coherent : Naming.empty.Reachable ∧ overloaded.Legible {} ∧
    ∃ source, (overloaded.generate {} .empty).1 = .ok source ∧
      entries (statements source) = ofNames [] ["type", "Add", "Add1"] := by
  have hok : (overloaded.generate {} .empty).1.isOk := by decide +kernel
  have hassigned : overloaded.assigned .empty = ["type", "Add", "Add1"] := by decide +kernel
  have hbrings : overloaded.brings {} = [] := by decide +kernel
  have hlegible : overloaded.Legible {} :=
    ⟨by decide +kernel, by decide +kernel, by decide +kernel, by decide +kernel,
      by decide +kernel⟩
  cases hsource : (overloaded.generate {} .empty).1 with
  | error rejection =>
    rw [hsource] at hok
    cases hok
  | ok source =>
    obtain ⟨p, -, -, -, -, -, -, -, htext⟩ := Surface.generate_coherent .empty hsource
    obtain ⟨-, hsaid, -⟩ := htext hlegible
    rw [hassigned, hbrings] at hsaid
    exact ⟨.empty, hlegible, source, rfl, hsaid⟩

/-- A surface whose name has items in it, each in a row of its own. -/
def crowded : Surface where
  metadata :=
    { surface := "S\npub type GhostFn = fn();\nstatic IMPORTS: u8 = 0;\n///", required := false }
  module := "s"
  signatures := [{ name := "Add", params := [], returns := none }]

/-- Its module declares them in front of the type of callables and of the function, so there are
    more types than methods, and three statics of one name. -/
theorem crowded_incoherent : ∃ source, (crowded.generate {} .empty).1 = .ok source ∧
    crowded.assigned .empty = ["Add"] ∧
    (entries (statements source)).filterMap type? = ["GhostFn", "AddFn", "Slots", "GhostFn"] ∧
    (entries (statements source)).filterMap value? =
      ["SURFACE_NAME", "REQUIRED", "IMPORTS", "IMPORTS", "load", "is_imported", "import_state",
        "attach", "IMPORTS", "Add"] := by
  have hok : (crowded.generate {} .empty).1.isOk := by decide +kernel
  have hassigned : crowded.assigned .empty = ["Add"] := by decide +kernel
  have hbrings : crowded.brings {} = [callable "GhostFn", constant "IMPORTS"] := by decide +kernel
  have hlegible : crowded.Legible {} :=
    ⟨by decide +kernel, by decide +kernel, by decide +kernel, by decide +kernel,
      by decide +kernel⟩
  cases hsource : (crowded.generate {} .empty).1 with
  | error rejection =>
    rw [hsource] at hok
    cases hok
  | ok source =>
    obtain ⟨p, hp, rfl⟩ := Surface.generate_eq_ok_iff.1 hsource
    have hsaid := Surface.entries_of_plan hp hlegible
    rw [hassigned, hbrings] at hsaid
    refine ⟨_, rfl, hassigned, ?_, ?_⟩
    · rw [hsaid]
      decide
    · rw [hsaid]
      decide

end ImportBinding
