/-
  ImportBinding — types that a generated one would shadow.

  A module generates types, and a type of its surface that names one of them would mean the
  generated one.  The names in a type are its runs of ASCII letters, digits and `_`; a language
  whose identifiers have other letters too sees longer names in the same type.

  * `Surface.violationsIn` are the conditions that a surface breaks in a run, those on shadowed
    types last, and `Surface.rejects_generate`: it is rejected for the first;
  * `Signature.mentions_iff`: a type mentions a name that stands in it by itself;
  * `Surface.generate_shadowed` compares this with a wider class of characters, and
    `Surface.accented_rejected` tells the two apart.
-/
import ImportBinding.Proofs.Surface.Acceptance
import ImportBinding.Proofs.Text.Whole

namespace ImportBinding

namespace Surface

/-- The conditions other than those on shadowed types that a surface breaks in a run. -/
def earlierViolations (s : Surface) (names : Naming) : List Rejection :=
  s.violationsUnder (s.signatures.zip (s.assigned names))

/-- The conditions that a surface breaks in a run, in their order. -/
def violationsIn (s : Surface) (names : Naming) : List Rejection :=
  s.earlierViolations names ++ s.shadowViolationsIn names

/-- Some generated type and some type in a signature are related. -/
def Has (s : Surface) (names : Naming) (r : String → String → Prop) : Prop :=
  ∃ item ∈ s.generatedNamesIn names, ∃ sig ∈ s.signatures, ∃ ty ∈ sig.types, r item ty

end Surface

/-! ## Runs -/

theorem rejects_planMethods_zip (surface : String) (named : List (Signature × String)) :
    Rejects (planMethods surface named)
      (named.flatMap fun x => x.1.violationsAs surface x.2) := by
  induction named with
  | nil => exact Rejects.ok _
  | cons x rest ih => exact (x.1.rejects_plan surface x.2).bind fun m _ => ih.map (m :: ·)

/-- In a run a surface is rejected for the first condition that it breaks. -/
theorem Surface.rejects_generate (options : Source.Options) (s : Surface) (names : Naming) :
    Rejects (s.generate options names).1 (s.violationsIn names) := by
  rw [violationsIn, earlierViolations, violationsUnder, List.append_assoc]
  exact (rejects_plan_of_methods (rejects_planMethods_zip _ _)).map (Plan.source options)

/-! ## Names in types -/

/-- A text that can be the name of an item. -/
def ItemName (item : String) : Prop :=
  item ≠ "" ∧ ∀ c ∈ item.toList, Identifier.isPart c

theorem Identifier.Usable.itemName {name : String} (h : Usable name) : ItemName (name ++ "Fn") := by
  have hchars : (name ++ "Fn").toList = name.toList ++ ['F', 'n'] := String.toList_append
  refine ⟨fun hempty => ?_, ?_⟩
  · rw [hempty] at hchars
    simp at hchars
  · rw [hchars]
    exact List.forall_mem_append.2 ⟨h.isPart, List.all_eq_true.1 (by decide)⟩

theorem itemName_slotsName : ItemName slotsName :=
  ⟨by decide, List.all_eq_true.1 (by decide)⟩

theorem Signature.mentions_iff {s : Signature} {item : String} (h : ItemName item) :
    s.mentions item ↔ ∃ ty ∈ s.types, Text.Whole Identifier.isPart item ty := by
  have hrun (ty : String) : item ∈ Text.runs Identifier.isPart ty ↔
      Text.Whole Identifier.isPart item ty :=
    Text.mem_runs_iff.trans ((and_iff_right h.1).trans (and_iff_right h.2))
  simp only [mentions, List.any_eq_true, List.contains_iff_mem, hrun]

namespace Surface

variable {s : Surface} {names : Naming}

/-- Once the methods break no condition, what is generated for them has good names. -/
theorem itemName_of_earlierViolations (h : s.earlierViolations names = []) :
    ∀ item ∈ s.generatedNamesIn names, ItemName item := by
  have hmethods := List.flatMap_eq_nil_iff.1 (List.append_eq_nil_iff.1 h).2
  refine List.forall_mem_append.2 ⟨List.forall_mem_map.2 fun name hname => ?_,
    List.forall_mem_singleton.2 itemName_slotsName⟩
  rw [← map_snd_zip_assigned names] at hname
  obtain ⟨x, hx, rfl⟩ := List.mem_map.1 hname
  obtain ⟨-, hrest⟩ := List.append_eq_nil_iff.1 (hmethods x hx)
  exact (nameViolations_eq_nil_iff.1 (List.append_eq_nil_iff.1 hrest).1).itemName

theorem mem_shadowViolationsIn {r : Rejection} (h : r ∈ s.shadowViolationsIn names) :
    ∃ item ∈ s.generatedNamesIn names, ∃ sig ∈ s.signatures,
      r = .shadowedType s.metadata.surface item sig.name ∧ sig.mentions item := by
  obtain ⟨item, hitem, hr⟩ := List.mem_filterMap.1 h
  obtain ⟨sig, hsig, rfl⟩ := Option.map_eq_some_iff.1 hr
  have hmentions := List.find?_some hsig
  exact ⟨item, hitem, sig, List.mem_of_find?_eq_some hsig, rfl, hmentions⟩

theorem shadowViolationsIn_eq_nil_iff (h : ∀ item ∈ s.generatedNamesIn names, ItemName item) :
    s.shadowViolationsIn names = [] ↔ ¬ s.Has names (Text.Whole Identifier.isPart) := by
  rw [shadowViolationsIn_eq_nil_iff_mentions]
  constructor
  · rintro hmentions ⟨item, hitem, sig, hsig, htypes⟩
    exact hmentions item hitem sig hsig ((Signature.mentions_iff (h item hitem)).2 htypes)
  · intro hhas item hitem sig hsig hmentions
    exact hhas ⟨item, hitem, sig, hsig, (Signature.mentions_iff (h item hitem)).1 hmentions⟩

theorem has_or_iff {r r' : String → String → Prop} :
    s.Has names (fun item ty => r item ty ∨ r' item ty) ↔ s.Has names r ∨ s.Has names r' := by
  simp only [Has, and_or_left, exists_or]

/-- A surface that breaks no other condition is rejected for a generated type only, and that
    stands by itself in one of its types.  To those who count more characters as parts of
    identifiers it is a name of its own there, or it is embedded: a part of a longer name in
    which only such characters are next to it. -/
theorem generate_shadowed (options : Source.Options) (s : Surface) (names : Naming)
    (ident : Char → Bool) (hident : ∀ c, Identifier.isPart c → ident c)
    (hpass : s.earlierViolations names = []) :
    let result := (s.generate options names).1
    (∀ r, result = .error r → ∃ item ∈ s.generatedNamesIn names, ∃ sig ∈ s.signatures,
        r = .shadowedType s.metadata.surface item sig.name ∧
          ∃ ty ∈ sig.types, Text.Whole Identifier.isPart item ty) ∧
      ((∃ r, result = .error r) ↔ s.Has names (Text.Whole ident) ∨
        s.Has names (Text.Embedded Identifier.isPart ident)) := by
  intro result
  have hitems := itemName_of_earlierViolations hpass
  have hrejects : Rejects result (s.shadowViolationsIn names) := by
    have hgenerate := rejects_generate options s names
    rwa [violationsIn, hpass, List.nil_append] at hgenerate
  refine ⟨fun r hr => ?_, ?_⟩
  · obtain ⟨item, hitem, sig, hsig, rfl, hmentions⟩ :=
      mem_shadowViolationsIn (List.mem_of_head? ((hrejects r).1 hr))
    exact ⟨item, hitem, sig, hsig, rfl, (Signature.mentions_iff (hitems item hitem)).1 hmentions⟩
  · have herror : (∃ r, result = .error r) ↔ s.shadowViolationsIn names ≠ [] := by
      rw [ne_eq, hrejects.eq_nil_iff]
      cases result <;> simp
    have hwhole : s.Has names (Text.Whole Identifier.isPart) ↔
        s.Has names (Text.Whole ident) ∨ s.Has names (Text.Embedded Identifier.isPart ident) := by
      rw [← has_or_iff]
      simp only [Has, Text.whole_iff hident]
    rw [herror, ne_eq, shadowViolationsIn_eq_nil_iff hitems, not_not, hwhole]

/-- The identifiers of a language that has the letter `É` in them. -/
def isAccentedPart (c : Char) : Bool :=
  Identifier.isPart c || c == 'É'

/-- A surface with a method that takes the type generated for another one. -/
def hooked : Surface :=
  { metadata := { surface := "Game.World", required := true }
    module := "game_world"
    signatures := [
      { name := "Player", params := [], returns := none },
      { name := "Spawn"
        params := [{ name := "hook", ty := "Option<PlayerFn>", mode := .value }]
        returns := none }] }

theorem generate_shadowed_hooked :
    (∀ c, Identifier.isPart c → isAccentedPart c) ∧ hooked.earlierViolations .empty = [] ∧
      ∃ r, (hooked.generate {} .empty).1 = .error r := by
  have hident (c : Char) (hc : Identifier.isPart c) : isAccentedPart c := by
    rw [isAccentedPart, hc, Bool.true_or]
  have hpass : hooked.earlierViolations .empty = [] := by decide
  refine ⟨hident, hpass,
    (generate_shadowed {} hooked .empty isAccentedPart hident hpass).2.2 (Or.inl ?_)⟩
  have hrun : "PlayerFn" ∈ Text.runs isAccentedPart "Option<PlayerFn>" := by decide
  exact ⟨"PlayerFn", by decide, hooked.signatures[1], by decide, "Option<PlayerFn>", by decide,
    (Text.mem_runs_iff.1 hrun).2.2⟩

/-- A surface with a type whose name goes on in front of that of a generated one. -/
def accented : Surface :=
  { metadata := { surface := "Game.Score", required := true }
    module := "game_score"
    signatures := [{ name := "Get", params := [], returns := some "ÉSlots" }] }

/-- Where `É` is a letter of identifiers `ÉSlots` is one name, which is not generated, and yet it
    keeps its surface from getting a module. -/
theorem accented_rejected :
    accented.earlierViolations .empty = [] ∧
      (accented.generate {} .empty).1 = .error (.shadowedType "Game.Score" "Slots" "Get") ∧
      ∀ ident : Char → Bool, (∀ c, Identifier.isPart c → ident c) → ident 'É' →
        ¬ accented.Has .empty (Text.Whole ident) := by
  refine ⟨by decide, by decide, fun ident hident hletter => ?_⟩
  have hwide (c : Char) (hc : isAccentedPart c) : ident c := by
    rcases Bool.or_eq_true_iff.1 hc with hpart | hc
    · exact hident c hpart
    · rw [eq_of_beq hc]
      exact hletter
  -- no generated name is a run of the type when `É` does not end runs
  have hitems : ∀ item ∈ accented.generatedNamesIn .empty, item ≠ "" ∧
      item.toList.all isAccentedPart ∧ item ∉ Text.runs isAccentedPart "ÉSlots" := by
    decide
  rintro ⟨item, hitem, sig, hsig, ty, hty, hwhole⟩
  obtain rfl := List.mem_singleton.1 hsig
  obtain rfl := List.mem_singleton.1 hty
  obtain ⟨hne, hchars, hrun⟩ := hitems item hitem
  exact hrun (Text.mem_runs_iff.2
    ⟨hne, List.all_eq_true.1 hchars, (Text.whole_iff hwide).2 (Or.inl hwhole)⟩)

end Surface

end ImportBinding
