/-
  ImportBinding — what a plan holds.

  A plan is made when every check passes.  Its methods then stand in the order of the
  signatures, each under the name that it was assigned.

  * `Parameter.plan_eq_ok_iff`, `Signature.plan_eq_ok_iff` and `Surface.plan_eq_ok_iff` say when
    there is a plan, and which, and `planParameters_eq_ok_iff` and `planMethods_eq_ok_iff` say it
    of lists;
  * `PlannedMethod.Named` is what the checks of names leave: a method has a usable name, which
    no other item of a module has, and is spelled by it.
-/
import ImportBinding.Proofs.Outcome
import ImportBinding.Surface.Plan
import Mathlib.Data.List.Forall2

namespace ImportBinding

open Except

/-- The methods that pass the checks of names. -/
structure PlannedMethod.Named (m : PlannedMethod) : Prop where
  usable : Identifier.Usable m.name
  notReserved : m.name ∉ reservedItems
  ident : m.ident = Identifier.raw m.name

theorem spellAt_eq_ok_iff {surface name ident : String} {place : NamePlace} :
    spellAt surface name place = .ok ident ↔
      Identifier.Usable name ∧ ident = Identifier.raw name := by
  rw [spellAt, mapError_eq_ok_iff, Identifier.spell_eq_ok_iff]

/-- Lists agree under two functions when their elements do, in pairs. -/
theorem map_eq_map_iff_forall₂ {α β γ : Type} {f : α → γ} {g : β → γ} {xs : List α}
    {ys : List β} : xs.map f = ys.map g ↔ List.Forall₂ (fun x y => f x = g y) xs ys := by
  rw [← List.forall₂_eq_eq_eq, List.forall₂_map_left_iff, List.forall₂_map_right_iff]

/-! ## Parameters and types -/

/-- The types in a signature. -/
def Signature.types (s : Signature) : List String :=
  s.params.map Parameter.ty ++ s.returns.toList

theorem trimmedType?_eq_some_iff {ty trimmed : String} :
    trimmedType? ty = some trimmed ↔ Text.trim ty ≠ "" ∧ trimmed = Text.trim ty := by
  rw [trimmedType?, Option.filter_eq_some_iff, Option.some.injEq, decide_eq_true_eq]
  constructor
  · rintro ⟨rfl, hne⟩
    exact ⟨hne, rfl⟩
  · rintro ⟨hne, rfl⟩
    exact ⟨rfl, hne⟩

theorem Parameter.projection_eq_ok_iff {surface method : String} {p : Parameter}
    {spellings : Projection} : p.projection surface method = .ok spellings ↔
      p.mode.projection? = some spellings := by
  rw [projection]
  cases p.mode.projection? <;> simp

theorem Parameter.plan_eq_ok_iff {surface method : String} {seen : List String} {p : Parameter}
    {q : PlannedParameter} : p.plan surface method seen = .ok q ↔
      p.name ∉ seen ∧ Text.trim p.ty ≠ "" ∧ Identifier.Usable p.name ∧
      ∃ spellings, p.mode.projection? = some spellings ∧
        q = { name := p.name, ident := Identifier.raw p.name, ty := Text.trim p.ty,
              spellings } := by
  unfold Parameter.plan
  by_cases hmem : p.name ∈ seen
  · rw [if_pos (List.contains_iff_mem.2 hmem)]
    exact ⟨nofun, fun h => absurd hmem h.1⟩
  · rw [if_neg fun hseen => hmem (List.contains_iff_mem.1 hseen)]
    cases hty : trimmedType? p.ty with
    | none =>
      refine ⟨nofun, fun ⟨_, hne, _⟩ => ?_⟩
      rw [trimmedType?_eq_some_iff.2 ⟨hne, rfl⟩] at hty
      cases hty
    | some ty =>
      obtain ⟨hne, rfl⟩ := trimmedType?_eq_some_iff.1 hty
      simp only [bind_eq_ok_iff, projection_eq_ok_iff, spellAt_eq_ok_iff]
      constructor
      · rintro ⟨spellings, hspellings, ident, ⟨husable, rfl⟩, hq⟩
        exact ⟨hmem, hne, husable, spellings, hspellings, (ok.inj hq).symm⟩
      · rintro ⟨-, -, husable, spellings, hspellings, rfl⟩
        exact ⟨spellings, hspellings, _, ⟨husable, rfl⟩, rfl⟩

/-- Parameters are planned each on its own, once no two have one name. -/
theorem planParameters_eq_ok_iff {surface method : String} {ps : List Parameter} :
    ∀ {seen : List String} {qs : List PlannedParameter},
    planParameters surface method seen ps = .ok qs ↔
      (∀ p ∈ ps, p.name ∉ seen) ∧ (ps.map Parameter.name).Nodup ∧
      List.Forall₂ (fun p q => p.plan surface method [] = .ok q) ps qs := by
  induction ps with
  | nil =>
    intro seen qs
    rw [planParameters, List.forall₂_nil_left_iff, ok.injEq, eq_comm]
    simp
  | cons p rest ih =>
    intro seen qs
    have hplan {q : PlannedParameter} : p.plan surface method seen = .ok q ↔
        p.name ∉ seen ∧ p.plan surface method [] = .ok q := by
      simp only [Parameter.plan_eq_ok_iff, List.not_mem_nil, not_false_eq_true, true_and]
    rw [planParameters, bind_eq_ok_iff, List.forall₂_cons_left_iff, List.map_cons, List.nodup_cons,
      List.forall_mem_cons]
    simp only [bind_eq_ok_iff, ih, hplan, List.mem_cons, not_or]
    constructor
    · rintro ⟨q, ⟨hseen, hq⟩, more, ⟨hnew, hnodup, hmore⟩, h⟩
      refine ⟨⟨hseen, fun p' hp' => (hnew p' hp').2⟩, ⟨fun hmem => ?_, hnodup⟩,
        q, more, hq, hmore, (ok.inj h).symm⟩
      obtain ⟨p', hp', he⟩ := List.mem_map.1 hmem
      exact (hnew p' hp').1 he
    · rintro ⟨⟨hseen, hnew⟩, ⟨hmem, hnodup⟩, q, more, hq, hmore, rfl⟩
      refine ⟨q, ⟨hseen, hq⟩, more, ⟨fun p' hp' => ⟨fun he => ?_, hnew p' hp'⟩, hnodup, hmore⟩, rfl⟩
      exact hmem (List.mem_map.2 ⟨p', hp', he⟩)

theorem planReturns_eq_ok_iff {surface method : String} {returns trimmed : Option String} :
    planReturns surface method returns = .ok trimmed ↔
      (∀ ty ∈ returns, Text.trim ty ≠ "") ∧ trimmed = returns.map Text.trim := by
  cases returns with
  | none =>
    rw [planReturns, ok.injEq, Option.map_none, eq_comm]
    exact (and_iff_right nofun).symm
  | some ty =>
    rw [planReturns]
    cases hty : trimmedType? ty with
    | none =>
      refine ⟨nofun, fun h => ?_⟩
      rw [trimmedType?_eq_some_iff.2 ⟨h.1 ty rfl, rfl⟩] at hty
      cases hty
    | some t =>
      obtain ⟨hne, rfl⟩ := trimmedType?_eq_some_iff.1 hty
      rw [ok.injEq, Option.map_some, eq_comm]
      refine (and_iff_right fun ty' hty' => ?_).symm
      obtain rfl := Option.some.inj hty'
      exact hne

/-! ## Methods -/

theorem Signature.plan_eq_ok_iff {surface name : String} {s : Signature} {m : PlannedMethod} :
    s.plan surface name = .ok m ↔ name ∉ reservedItems ∧ Identifier.Usable name ∧
      ∃ returns params, planReturns surface s.name s.returns = .ok returns ∧
        planParameters surface s.name [] s.params = .ok params ∧
        m = { plain := s.name, name, ident := Identifier.raw name, params, returns } := by
  unfold Signature.plan
  split
  · next hreserved =>
    have hmem : name ∈ reservedItems := List.contains_iff_mem.1 hreserved
    exact ⟨nofun, fun h => absurd hmem h.1⟩
  · next hreserved =>
    have hmem : name ∉ reservedItems := fun hm => hreserved (List.contains_iff_mem.2 hm)
    simp only [bind_eq_ok_iff, spellAt_eq_ok_iff]
    constructor
    · rintro ⟨ident, ⟨husable, rfl⟩, returns, hreturns, params, hparams, hm⟩
      exact ⟨hmem, husable, returns, params, hreturns, hparams, (ok.inj hm).symm⟩
    · rintro ⟨-, husable, returns, params, hreturns, hparams, rfl⟩
      exact ⟨_, ⟨husable, rfl⟩, returns, hreturns, params, hparams, rfl⟩

/-- A planned method has the types of its signature, trimmed. -/
theorem Signature.types_of_plan {surface name : String} {s : Signature} {m : PlannedMethod}
    (h : s.plan surface name = .ok m) : m.types = s.types.map Text.trim := by
  obtain ⟨-, -, returns, params, hreturns, hparams, rfl⟩ := Signature.plan_eq_ok_iff.1 h
  obtain ⟨-, rfl⟩ := planReturns_eq_ok_iff.1 hreturns
  have htypes : params.map PlannedParameter.ty = (s.params.map Parameter.ty).map Text.trim := by
    rw [List.map_map]
    refine map_eq_map_iff_forall₂.2 ((planParameters_eq_ok_iff.1 hparams).2.2.imp ?_).flip
    intro p q hq
    obtain ⟨-, -, -, spellings, -, rfl⟩ := Parameter.plan_eq_ok_iff.1 hq
    rfl
  rw [PlannedMethod.types, Signature.types, List.map_append, htypes]
  cases s.returns <;> rfl

theorem planMethods_eq_ok_iff {surface : String} {named : List (Signature × String)} :
    ∀ {ms : List PlannedMethod}, planMethods surface named = .ok ms ↔
      List.Forall₂ (fun x m => x.1.plan surface x.2 = .ok m) named ms := by
  induction named with
  | nil =>
    intro ms
    rw [planMethods, List.forall₂_nil_left_iff, ok.injEq, eq_comm]
  | cons x rest ih =>
    intro ms
    rw [planMethods, bind_eq_ok_iff, List.forall₂_cons_left_iff]
    simp only [bind_eq_ok_iff, ih]
    constructor
    · rintro ⟨m, hm, more, hmore, h⟩
      exact ⟨m, more, hm, hmore, (ok.inj h).symm⟩
    · rintro ⟨m, more, hm, hmore, rfl⟩
      exact ⟨m, hm, more, hmore, rfl⟩

namespace Surface

variable {s : Surface}

theorem planModule_eq_ok_iff {module : String} : s.planModule = .ok module ↔
    ¬ Text.Blank s.metadata.surface ∧ Identifier.Usable s.module ∧
      module = Identifier.raw s.module := by
  unfold planModule
  split
  · next hblank => exact ⟨nofun, fun h => absurd hblank h.1⟩
  · next hblank => exact spellAt_eq_ok_iff.trans (and_iff_right hblank).symm

theorem planNamed_eq_ok_iff {names : List String} {ms : List PlannedMethod} :
    s.planNamed names = .ok ms ↔
      planMethods s.metadata.surface (s.signatures.zip names) = .ok ms ∧ shadowed? ms = none := by
  rw [planNamed, bind_eq_ok_iff]
  constructor
  · rintro ⟨methods, hmethods, h⟩
    cases hshadowed : shadowed? methods with
    | some shadowed => rw [hshadowed] at h; cases h
    | none =>
      rw [hshadowed] at h
      obtain rfl := ok.inj h
      exact ⟨hmethods, hshadowed⟩
  · rintro ⟨hmethods, hshadowed⟩
    refine ⟨ms, hmethods, ?_⟩
    rw [hshadowed]
    rfl

/-- The names that a surface assigns in a run. -/
def assigned (s : Surface) (names : Naming) : List String :=
  (names.assignAll (s.signatures.map Signature.name)).1

theorem plan_eq_ok_iff {names : Naming} {p : Plan} : (s.plan names).1 = .ok p ↔
    ∃ module methods, s.planModule = .ok module ∧
      s.planNamed (s.assigned names) = .ok methods ∧
      p = { metadata := s.metadata, module, methods } := by
  unfold plan
  cases hmodule : s.planModule with
  | error rejection => exact ⟨nofun, fun ⟨_, _, h, _⟩ => nomatch h⟩
  | ok module =>
    refine map_eq_ok_iff.trans ⟨?_, ?_⟩
    · rintro ⟨methods, hmethods, rfl⟩
      exact ⟨module, methods, rfl, hmethods, rfl⟩
    · rintro ⟨module', methods, h, hmethods, rfl⟩
      obtain rfl := ok.inj h
      exact ⟨methods, hmethods, rfl⟩

theorem length_assigned (names : Naming) :
    (s.assigned names).length = s.signatures.length := by
  rw [assigned, Naming.assignAll, Naming.length_assignFrom, List.length_map]

theorem map_fst_zip_assigned (names : Naming) :
    (s.signatures.zip (s.assigned names)).map Prod.fst = s.signatures :=
  List.map_fst_zip (Nat.le_of_eq (length_assigned names).symm)

theorem map_snd_zip_assigned (names : Naming) :
    (s.signatures.zip (s.assigned names)).map Prod.snd = s.assigned names :=
  List.map_snd_zip (Nat.le_of_eq (length_assigned names))

/-- The methods of a plan are those of the signatures with their names, in their order. -/
theorem forall₂_zip_of_plan {names : Naming} {p : Plan} (h : (s.plan names).1 = .ok p) :
    List.Forall₂ (fun x m => x.1.plan s.metadata.surface x.2 = .ok m)
      (s.signatures.zip (s.assigned names)) p.methods := by
  obtain ⟨module, methods, -, hmethods, rfl⟩ := plan_eq_ok_iff.1 h
  exact planMethods_eq_ok_iff.1 (planNamed_eq_ok_iff.1 hmethods).1

/-- The methods of a plan stand in the order of the signatures, each under its name. -/
theorem methods_of_plan {names : Naming} {p : Plan} (h : (s.plan names).1 = .ok p) :
    p.methods.map PlannedMethod.name = s.assigned names ∧ ∀ m ∈ p.methods, m.Named := by
  have hplan : List.Forall₂ (fun m x => m.Named ∧ m.name = x.2) p.methods
      (s.signatures.zip (s.assigned names)) := by
    refine ((forall₂_zip_of_plan h).imp fun x m hm => ?_).flip
    obtain ⟨hreserved, husable, returns, params, -, -, rfl⟩ := Signature.plan_eq_ok_iff.1 hm
    exact ⟨⟨husable, hreserved, rfl⟩, rfl⟩
  obtain ⟨hnamed, hnames⟩ := (List.forall₂_and_left _ _).1 hplan
  refine ⟨?_, hnamed⟩
  rw [← map_snd_zip_assigned names]
  exact map_eq_map_iff_forall₂.2 hnames

/-- The methods of a plan are those of the signatures, in their order. -/
theorem forall₂_of_plan {names : Naming} {p : Plan} (h : (s.plan names).1 = .ok p) :
    List.Forall₂ (fun sig m => ∃ name, sig.plan s.metadata.surface name = .ok m)
      s.signatures p.methods := by
  rw [← map_fst_zip_assigned names, List.forall₂_map_left_iff]
  exact (forall₂_zip_of_plan h).imp fun x m hm => ⟨x.2, hm⟩

theorem metadata_of_plan {names : Naming} {p : Plan} (h : (s.plan names).1 = .ok p) :
    p.metadata = s.metadata := by
  obtain ⟨module, methods, -, -, rfl⟩ := plan_eq_ok_iff.1 h
  rfl

/-- The module of a plan has a usable name, and is spelled by it. -/
theorem module_of_plan {names : Naming} {p : Plan} (h : (s.plan names).1 = .ok p) :
    Identifier.Usable s.module ∧ p.module = Identifier.raw s.module := by
  obtain ⟨module, methods, hmodule, -, rfl⟩ := plan_eq_ok_iff.1 h
  exact (planModule_eq_ok_iff.1 hmodule).2

/-- The methods of a plan have the types of the signatures, trimmed. -/
theorem types_of_plan {names : Naming} {p : Plan} (h : (s.plan names).1 = .ok p) :
    p.methods.map PlannedMethod.types = s.signatures.map fun sig => sig.types.map Text.trim := by
  refine map_eq_map_iff_forall₂.2 ((forall₂_of_plan h).imp ?_).flip
  rintro sig m ⟨name, hm⟩
  exact Signature.types_of_plan hm

end Surface

end ImportBinding
