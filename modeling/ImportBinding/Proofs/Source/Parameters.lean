/-
  ImportBinding — parameters and constants.

  A module declares two constants and a static beside its functions, and a parameter that is
  spelled like one of them is a pattern for it.  The names of methods are checked against the
  items of a module, those of parameters are not.

  * `constants` are the names that lines of source declare as constants or statics, and
    `Plan.constants_emitted` says which these are;
  * `Opens` is a line that opens a function with parameters of given identifiers;
  * `parameters_of_plan`: the parameters of a plan are spelled by the names in the signatures;
  * `Surface.generate_parameters`: the parameters of a module stay apart from its constants iff
    no signature names one of them.
-/
import ImportBinding.Proofs.Source.Module

namespace ImportBinding

open Source

/-! ## Constants -/

namespace Source

/-- The constants and statics of every module. -/
def constantNames : List String :=
  ["SURFACE_NAME", "REQUIRED", "IMPORTS"]

/-- The constants and statics that the lines of a module declare. -/
def constants (lines : List Line) : List String :=
  (entries lines).filterMap Entry.constant?

end Source

/-- Every module declares the same constants. -/
theorem Plan.constants_emitted {options : Options} {p : Plan} (h : ∀ m ∈ p.methods, m.Named) :
    constants (p.emitted options) = constantNames := by
  rw [constants, Plan.entries_emitted h]
  simp [Entry.ofNames, Entry.constant?, List.filterMap_cons, List.filterMap_map,
    List.filterMap_flatMap, Function.comp_def, constantNames, flatMap_empty]

/-! ## Parameters -/

/-- The parameters of the function that forwards to a method, by their identifiers. -/
def PlannedMethod.parameters (m : PlannedMethod) : List String :=
  m.params.map PlannedParameter.ident

/-- A line opens the function `ident` with the parameters `parameters`, each with a type. -/
def Source.Opens (ident : String) (parameters : List String) (text : String) : Prop :=
  ∃ types result, types.length = parameters.length ∧
    text = "pub fn " ++ ident ++ "(" ++
      ", ".intercalate (List.zipWith (fun parameter ty => parameter ++ ": " ++ ty) parameters types)
        ++ ") -> " ++ result

/-- Each method of a plan has a line of its own that opens its function. -/
theorem Plan.exists_opens {options : Options} {p : Plan} {m : PlannedMethod} (h : m ∈ p.methods) :
    ∃ text, .code 1 text ∈ p.emitted options ∧ Opens m.ident m.parameters text := by
  refine ⟨_, Plan.code_mem_emitted h
      (List.mem_append_right _ (List.mem_append_right _ List.mem_cons_self)),
    m.params.map fun q => q.spellings.definition.typeOf q.ty,
    "::core::result::Result<" ++ m.returns.getD "()" ++ ", " ++
      options.runtime.item "ImportError" ++ "> \x7b", ?_, ?_⟩
  · rw [PlannedMethod.parameters, List.length_map, List.length_map]
  · rw [PlannedMethod.parameters, List.zipWith_map, List.zipWith_self, PlannedMethod.parameterList]
    simp only [String.append_assoc]
    rfl

/-- The parameters of a plan are spelled by their names in the signatures. -/
theorem Surface.parameters_of_plan {s : Surface} {names : Naming} {p : Plan}
    (h : (s.plan names).1 = .ok p) : p.methods.map PlannedMethod.parameters =
      s.signatures.map fun sig => sig.params.map fun q => Identifier.raw q.name := by
  refine map_eq_map_iff_forall₂.2 ((Surface.forall₂_of_plan h).imp ?_).flip
  rintro sig m ⟨name, hm⟩
  obtain ⟨-, -, returns, params, -, hparams, rfl⟩ := Signature.plan_eq_ok_iff.1 hm
  have hplans := (planParameters_eq_ok_iff.1 hparams).2.2
  change params.map PlannedParameter.ident = sig.params.map fun q => Identifier.raw q.name
  refine map_eq_map_iff_forall₂.2 (hplans.imp fun q planned hq => ?_).flip
  obtain ⟨-, -, -, spellings, -, rfl⟩ := Parameter.plan_eq_ok_iff.1 hq
  rfl

/-- A name is spelled like a constant iff it is one's name. -/
theorem raw_mem_constantNames_iff {name : String} :
    Identifier.raw name ∈ constantNames ↔ name ∈ constantNames := by
  unfold Identifier.raw
  split
  · next hkeyword =>
    have hhash : ∀ item ∈ constantNames, '#' ∉ item.toList := by decide
    have hnone : ∀ item ∈ constantNames, item ∉ Identifier.keywords := by decide
    constructor
    · intro hmem
      exact absurd (by simp) (hhash _ hmem)
    · intro hmem
      exact absurd hkeyword (hnone name hmem)
  · exact Iff.rfl

/-- The functions of a module that is generated have the parameters of the signatures, spelled
    by their names, and none of them is spelled like a constant of the module iff no signature
    has a parameter that is named like one. -/
theorem Surface.generate_parameters {options : Options} {s : Surface} {names : Naming}
    {source : String} (hsource : (s.generate options names).1 = .ok source) :
    ∃ p, (s.plan names).1 = .ok p ∧ source = render (p.emitted options) ∧
      constants (p.emitted options) = constantNames ∧
      (∀ m ∈ p.methods,
        ∃ text, .code 1 text ∈ p.emitted options ∧ Opens m.ident m.parameters text) ∧
      (p.methods.map PlannedMethod.parameters =
        s.signatures.map fun sig => sig.params.map fun q => Identifier.raw q.name) ∧
      ((∀ m ∈ p.methods, ∀ ident ∈ m.parameters, ident ∉ constants (p.emitted options)) ↔
        ∀ sig ∈ s.signatures, ∀ q ∈ sig.params, q.name ∉ constantNames) := by
  obtain ⟨p, hp, rfl⟩ := generate_eq_ok_iff.1 hsource
  have hparameters := parameters_of_plan hp
  have hconstants := @Plan.constants_emitted options p (methods_of_plan hp).2
  have hall : (∀ m ∈ p.methods, ∀ ident ∈ m.parameters, ident ∉ constantNames) ↔
      ∀ idents ∈ p.methods.map PlannedMethod.parameters,
        ∀ ident ∈ idents, ident ∉ constantNames := by
    rw [List.forall_mem_map]
  refine ⟨p, hp, rfl, hconstants, fun m hm => Plan.exists_opens hm, hparameters, ?_⟩
  rw [hconstants, hall, hparameters]
  simp only [List.forall_mem_map, raw_mem_constantNames_iff]

/-- A surface with parameters, one of which is named by a keyword. -/
def chatty : Surface where
  metadata := { surface := "Game.Score", required := true }
  module := "game_score"
  signatures :=
    [{ name := "Add",
       params := [{ name := "imports", ty := "i32", mode := .value },
         { name := "type", ty := "i32", mode := .value }],
       returns := none }]

theorem chatty_parameters : (chatty.generate {} .empty).1.isOk ∧
    ∃ p, (chatty.plan .empty).1 = .ok p ∧
      p.methods.map PlannedMethod.parameters = [["imports", "r#type"]] ∧
      ∀ m ∈ p.methods, ∀ ident ∈ m.parameters, ident ∉ constants (p.emitted {}) := by
  have hok : (chatty.generate {} .empty).1.isOk := by decide +kernel
  refine ⟨hok, ?_⟩
  cases hsource : (chatty.generate {} .empty).1 with
  | error rejection =>
    rw [hsource] at hok
    cases hok
  | ok source =>
    obtain ⟨p, hp, -, -, -, hparameters, hapart⟩ := Surface.generate_parameters hsource
    exact ⟨p, hp, hparameters.trans (by decide), hapart.2 (by decide)⟩

/-- A surface with a parameter that is named like the cell of its module. -/
def clashing : Surface where
  metadata := { surface := "Game.Score", required := true }
  module := "game_score"
  signatures :=
    [{ name := "Add", params := [{ name := "IMPORTS", ty := "i32", mode := .value }],
       returns := none }]

/-- Its module is generated all the same. -/
theorem clashing_generated : (clashing.generate {} .empty).1.isOk ∧
    ∃ p, (clashing.plan .empty).1 = .ok p ∧
      ∃ m ∈ p.methods, ∃ ident ∈ m.parameters, ident ∈ constants (p.emitted {}) := by
  have hok : (clashing.generate {} .empty).1.isOk := by decide +kernel
  refine ⟨hok, ?_⟩
  cases hsource : (clashing.generate {} .empty).1 with
  | error rejection =>
    rw [hsource] at hok
    cases hok
  | ok source =>
    obtain ⟨p, hp, -⟩ := Surface.generate_eq_ok_iff.1 hsource
    have hparameters := Surface.parameters_of_plan hp
    have hmem : ["IMPORTS"] ∈ p.methods.map PlannedMethod.parameters := by
      rw [hparameters]
      decide
    obtain ⟨m, hm, hident⟩ := List.mem_map.1 hmem
    refine ⟨p, hp, m, hm, "IMPORTS", ?_, ?_⟩
    · rw [hident]
      exact List.mem_singleton_self _
    · rw [Plan.constants_emitted (Surface.methods_of_plan hp).2]
      decide

end ImportBinding
