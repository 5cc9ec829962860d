/-
  ImportBinding — which surfaces get a module.

  A surface is accepted when it breaks no condition, and else rejected for the first one that it
  breaks.  The conditions are on what is declared: the first method of a plain name has it, and
  a number behind a good name leaves it a good one.

  * `Surface.violations` are the conditions that a surface breaks, in their order, and
    `Surface.Acceptable` says that there are none;
  * `Rejects`: a step fails with the first of some rejections; `Rejects.bind` puts two steps
    together, and there is one lemma for each step of a plan;
  * `Signature.violationsAs_numbered`: an overload is judged by its plain name;
  * `Surface.generate_accepts` puts this together.
-/
import ImportBinding.Proofs.Identifier
import ImportBinding.Proofs.Naming
import ImportBinding.Proofs.Surface.Plan
import ImportBinding.Proofs.Text.Blank
import ImportBinding.Source.Module

namespace ImportBinding

/-! ## Conditions -/

/-- The rejection for a condition, if it is broken. -/
def brokenIf (p : Prop) [Decidable p] (r : Rejection) : List Rejection :=
  if p then [r] else []

/-- What keeps a name from being spelled at a place. -/
def nameViolations (surface name : String) (place : NamePlace) : List Rejection :=
  (Identifier.fault? name).toList.map (.badIdentifier surface name place)

/-- What is wrong with a mode. -/
def Parameter.modeViolations (surface method : String) (p : Parameter) : List Rejection :=
  match p.mode with
  | .unsupported spelling => [.unsupportedMode surface method p.name spelling]
  | _ => []

/-- The conditions that a parameter breaks, when those named `seen` went before. -/
def Parameter.violations (surface method : String) (seen : List String) (p : Parameter) :
    List Rejection :=
  brokenIf (p.name ∈ seen) (.duplicateParameter surface method p.name) ++
    brokenIf (Text.Blank p.ty) (.emptyType surface method (.parameter p.name)) ++
    p.modeViolations surface method ++ nameViolations surface p.name (.parameter method)

/-- The conditions that parameters break, when those named `seen` went before. -/
def parameterViolations (surface method : String) (seen : List String) :
    List Parameter → List Rejection
  | [] => []
  | p :: rest =>
    p.violations surface method seen ++ parameterViolations surface method (p.name :: seen) rest

namespace Signature

/-- What is wrong with the type that a method returns. -/
def returnViolations (surface : String) (s : Signature) : List Rejection :=
  s.returns.toList.flatMap fun ty => brokenIf (Text.Blank ty) (.emptyType surface s.name .returns)

/-- The conditions that a method breaks under a name. -/
def violationsAs (surface name : String) (s : Signature) : List Rejection :=
  brokenIf (name ∈ reservedItems) (.reservedName surface name) ++
    (nameViolations surface name .method ++
      (s.returnViolations surface ++ parameterViolations surface s.name [] s.params))

/-- A usable name that is none of the reserved items. -/
def GoodName (s : Signature) : Prop :=
  Identifier.Usable s.name ∧ s.name ∉ reservedItems

/-- The conditions that a method breaks, by the name that it declares. -/
def violations (surface : String) (s : Signature) : List Rejection :=
  s.violationsAs surface s.name

/-- Whether the identifier `item` is a run in one of the types. -/
def mentions (s : Signature) (item : String) : Bool :=
  s.types.any fun ty => (Text.runs Identifier.isPart ty).contains item

end Signature

namespace Surface

/-- The types that the module of a surface generates in a run. -/
def generatedNamesIn (s : Surface) (names : Naming) : List String :=
  (s.assigned names).map (· ++ "Fn") ++ [slotsName]

/-- The generated types that methods mention in a run, each with the first method that does. -/
def shadowViolationsIn (s : Surface) (names : Naming) : List Rejection :=
  (s.generatedNamesIn names).filterMap fun item =>
    (s.signatures.find? (·.mentions item)).map fun sig =>
      .shadowedType s.metadata.surface item sig.name

/-- The conditions other than those on shadowed types that a surface breaks, when each method is
    judged by the name beside it. -/
def violationsUnder (s : Surface) (named : List (Signature × String)) : List Rejection :=
  brokenIf (Text.Blank s.metadata.surface)
      (.metadata s.module "surface name must not be empty") ++
    nameViolations s.metadata.surface s.module .module ++
    named.flatMap fun x => x.1.violationsAs s.metadata.surface x.2

/-- The conditions that a surface breaks, in their order.  Methods are judged by the names that
    they declare. -/
def violations (s : Surface) : List Rejection :=
  s.violationsUnder (s.signatures.map fun sig => (sig, sig.name)) ++ s.shadowViolationsIn .empty

/-- The conditions on a surface. -/
structure Acceptable (s : Surface) : Prop where
  named : ¬ Text.Blank s.metadata.surface
  module : Identifier.Usable s.module
  methods : ∀ sig ∈ s.signatures, sig.GoodName
  types : ∀ sig ∈ s.signatures, ∀ ty ∈ sig.types, ¬ Text.Blank ty
  parameters : ∀ sig ∈ s.signatures, (sig.params.map Parameter.name).Nodup ∧
    ∀ p ∈ sig.params, Identifier.Usable p.name ∧ ∀ spelling, p.mode ≠ .unsupported spelling
  shadows : ∀ sig ∈ s.signatures, ∀ ty ∈ sig.types, ∀ run ∈ Text.runs Identifier.isPart ty,
    run ≠ slotsName ∧ ∀ name ∈ s.assigned .empty, run ≠ name ++ "Fn"

end Surface

/-- Whether a rejection is for the name of a method. -/
def Rejection.forMethodName : Rejection → Bool
  | reservedName _ _ | badIdentifier _ _ .method _ => true
  | _ => false

/-! ## No violations -/

theorem brokenIf_eq_nil_iff {p : Prop} [Decidable p] {r : Rejection} :
    brokenIf p r = [] ↔ ¬ p := by
  unfold brokenIf
  split <;> simp_all

theorem nameViolations_eq_nil_iff {surface name : String} {place : NamePlace} :
    nameViolations surface name place = [] ↔ Identifier.Usable name := by
  rw [nameViolations, List.map_eq_nil_iff, Option.toList_eq_nil_iff, Identifier.fault?_eq_none_iff]

theorem Parameter.modeViolations_eq_nil_iff {surface method : String} {p : Parameter} :
    p.modeViolations surface method = [] ↔ ∀ spelling, p.mode ≠ .unsupported spelling := by
  unfold modeViolations
  cases p.mode <;> simp

theorem parameterViolations_eq_nil_iff {surface method : String} {ps : List Parameter} :
    ∀ {seen : List String}, parameterViolations surface method seen ps = [] ↔
      (∀ p ∈ ps, p.name ∉ seen) ∧ (ps.map Parameter.name).Nodup ∧ ∀ p ∈ ps, ¬ Text.Blank p.ty ∧
        Identifier.Usable p.name ∧ ∀ spelling, p.mode ≠ .unsupported spelling := by
  induction ps with
  | nil => intro seen; simp [parameterViolations]
  | cons p rest ih =>
    intro seen
    rw [List.forall_mem_cons, List.forall_mem_cons, List.map_cons, List.nodup_cons]
    simp only [parameterViolations, Parameter.violations, List.append_eq_nil_iff,
      brokenIf_eq_nil_iff, nameViolations_eq_nil_iff, Parameter.modeViolations_eq_nil_iff, ih,
      List.mem_cons, not_or, List.mem_map, not_exists, not_and]
    constructor
    · rintro ⟨⟨⟨⟨hseen, hty⟩, hmode⟩, hname⟩, hnew, hnodup, hrest⟩
      exact ⟨⟨hseen, fun q hq => (hnew q hq).2⟩, ⟨fun q hq => (hnew q hq).1, hnodup⟩,
        ⟨hty, hname, hmode⟩, hrest⟩
    · rintro ⟨⟨hseen, hnew⟩, ⟨hfirst, hnodup⟩, ⟨hty, hname, hmode⟩, hrest⟩
      exact ⟨⟨⟨⟨hseen, hty⟩, hmode⟩, hname⟩, fun q hq => ⟨hfirst q hq, hnew q hq⟩, hnodup, hrest⟩

namespace Surface

variable {s : Surface}

theorem shadowViolationsIn_eq_nil_iff_mentions {names : Naming} :
    s.shadowViolationsIn names = [] ↔
      ∀ item ∈ s.generatedNamesIn names, ∀ sig ∈ s.signatures, ¬ sig.mentions item := by
  simp [shadowViolationsIn]

theorem shadowViolationsIn_eq_nil_iff_runs {names : Naming} : s.shadowViolationsIn names = [] ↔
    ∀ sig ∈ s.signatures, ∀ ty ∈ sig.types, ∀ run ∈ Text.runs Identifier.isPart ty,
      run ≠ slotsName ∧ ∀ name ∈ s.assigned names, run ≠ name ++ "Fn" := by
  have hitems : s.shadowViolationsIn names = [] ↔ ∀ item ∈ s.generatedNamesIn names,
      ∀ sig ∈ s.signatures, ∀ ty ∈ sig.types, item ∉ Text.runs Identifier.isPart ty := by
    rw [shadowViolationsIn_eq_nil_iff_mentions]
    simp [Signature.mentions]
  rw [hitems]
  constructor
  · intro h sig hsig ty hty run hrun
    refine ⟨?_, fun name hname => ?_⟩
    · rintro rfl
      exact h slotsName (List.mem_append_right _ (List.mem_singleton_self _)) sig hsig ty hty hrun
    · rintro rfl
      exact h _ (List.mem_append_left _ (List.mem_map_of_mem hname)) sig hsig ty hty hrun
  · intro h item hitem sig hsig ty hty hrun
    rcases List.mem_append.1 hitem with hitem | hitem
    · obtain ⟨name, hname, rfl⟩ := List.mem_map.1 hitem
      exact (h sig hsig ty hty _ hrun).2 name hname rfl
    · exact (h sig hsig ty hty _ hrun).1 (List.mem_singleton.1 hitem)

/-- A surface is acceptable when it breaks no condition. -/
theorem violations_eq_nil_iff : s.violations = [] ↔ s.Acceptable := by
  have htypes {sig : Signature} : (∀ ty ∈ sig.types, ¬ Text.Blank ty) ↔
      (∀ p ∈ sig.params, ¬ Text.Blank p.ty) ∧ ∀ ty ∈ sig.returns, ¬ Text.Blank ty := by
    simp [Signature.types, or_imp, forall_and]
  simp only [violations, violationsUnder, Signature.violationsAs, Signature.returnViolations,
    List.append_eq_nil_iff, List.flatMap_eq_nil_iff, List.forall_mem_map, brokenIf_eq_nil_iff,
    nameViolations_eq_nil_iff, parameterViolations_eq_nil_iff, shadowViolationsIn_eq_nil_iff_runs,
    Option.mem_toList]
  constructor
  · rintro ⟨⟨⟨hname, hmodule⟩, hsignatures⟩, hshadows⟩
    exact
      { named := hname
        module := hmodule
        methods := fun sig hsig => ⟨(hsignatures sig hsig).2.1, (hsignatures sig hsig).1⟩
        types := fun sig hsig => htypes.2 ⟨fun p hp => ((hsignatures sig hsig).2.2.2.2.2 p hp).1,
          (hsignatures sig hsig).2.2.1⟩
        parameters := fun sig hsig => ⟨(hsignatures sig hsig).2.2.2.2.1,
          fun p hp => ((hsignatures sig hsig).2.2.2.2.2 p hp).2⟩
        shadows := hshadows }
  · intro h
    refine ⟨⟨⟨h.named, h.module⟩, fun sig hsig => ?_⟩, h.shadows⟩
    obtain ⟨husable, hreserved⟩ := h.methods sig hsig
    obtain ⟨hparams, hreturns⟩ := htypes.1 (h.types sig hsig)
    obtain ⟨hnodup, hgood⟩ := h.parameters sig hsig
    exact ⟨hreserved, husable, hreturns, fun p _ => List.not_mem_nil, hnodup,
      fun p hp => ⟨hparams p hp, hgood p hp⟩⟩

end Surface

/-! ## Good names -/

theorem forall_brokenIf {p : Prop} [Decidable p] {q : Rejection → Prop} {r : Rejection} (h : q r) :
    ∀ r' ∈ brokenIf p r, q r' := by
  unfold brokenIf
  split
  · exact List.forall_mem_singleton.2 h
  · exact fun _ => nofun

theorem forall_nameViolations {q : Rejection → Prop} {surface name : String} {place : NamePlace}
    (h : ∀ fault, q (.badIdentifier surface name place fault)) :
    ∀ r ∈ nameViolations surface name place, q r :=
  List.forall_mem_map.2 fun fault _ => h fault

/-- No parameter is rejected for the name of its method. -/
theorem forMethodName_parameterViolations (surface method : String) (ps : List Parameter) :
    ∀ seen, ∀ r ∈ parameterViolations surface method seen ps, r.forMethodName = false := by
  induction ps with
  | nil => exact fun _ _ => nofun
  | cons p rest ih =>
    intro seen
    have hmode : ∀ r ∈ p.modeViolations surface method, r.forMethodName = false := by
      unfold Parameter.modeViolations
      split
      · exact List.forall_mem_singleton.2 rfl
      · exact fun _ => nofun
    simp only [parameterViolations, Parameter.violations, List.forall_mem_append]
    exact ⟨⟨⟨⟨forall_brokenIf rfl, forall_brokenIf rfl⟩, hmode⟩, forall_nameViolations fun _ => rfl⟩,
      ih (p.name :: seen)⟩

namespace Signature

/-- Under a good name a method breaks no condition on names. -/
theorem violationsAs_of_good {name : String} {s : Signature} (surface : String)
    (husable : Identifier.Usable name) (hreserved : name ∉ reservedItems) :
    s.violationsAs surface name =
      s.returnViolations surface ++ parameterViolations surface s.name [] s.params := by
  rw [violationsAs, brokenIf_eq_nil_iff.2 hreserved, nameViolations_eq_nil_iff.2 husable]
  rfl

theorem goodName_of_violations_eq_nil {surface : String} {s : Signature}
    (h : s.violations surface = []) : s.GoodName := by
  obtain ⟨hreserved, hrest⟩ := List.append_eq_nil_iff.1 h
  exact ⟨nameViolations_eq_nil_iff.1 (List.append_eq_nil_iff.1 hrest).1,
    brokenIf_eq_nil_iff.1 hreserved⟩

theorem forMethodName_violations {surface : String} {s : Signature} (h : s.GoodName) :
    ∀ r ∈ s.violations surface, r.forMethodName = false := by
  rw [violations, violationsAs_of_good surface h.1 h.2]
  refine List.forall_mem_append.2 ⟨fun r hr => ?_, forMethodName_parameterViolations _ _ _ _⟩
  obtain ⟨ty, -, hr⟩ := List.mem_flatMap.1 hr
  exact forall_brokenIf (q := fun r => r.forMethodName = false) rfl r hr

end Signature

/-- Methods with good names are not rejected for a name. -/
theorem Surface.forMethodName_violations {s : Surface} (h : ∀ sig ∈ s.signatures, sig.GoodName) :
    ∀ r ∈ s.violations, r.forMethodName = false := by
  simp only [violations, violationsUnder, List.flatMap_map, List.forall_mem_append]
  refine ⟨⟨⟨forall_brokenIf rfl, forall_nameViolations fun _ => rfl⟩, fun r hr => ?_⟩,
    fun r hr => ?_⟩
  · obtain ⟨sig, hsig, hr⟩ := List.mem_flatMap.1 hr
    exact Signature.forMethodName_violations (h sig hsig) r hr
  · obtain ⟨item, -, hr⟩ := List.mem_filterMap.1 hr
    obtain ⟨sig, -, rfl⟩ := Option.map_eq_some_iff.1 hr
    rfl

/-! ## Steps that reject -/

/-- A step fails with the first of some rejections, and succeeds when there are none. -/
def Rejects {α : Type} (x : Except Rejection α) (rs : List Rejection) : Prop :=
  ∀ r, x = .error r ↔ rs.head? = some r

namespace Rejects

variable {α β : Type} {x : Except Rejection α} {f : α → Except Rejection β} {rs rs' : List Rejection}

theorem ok (a : α) : Rejects (.ok a) [] :=
  fun _ => ⟨nofun, nofun⟩

theorem error (r : Rejection) (rs : List Rejection) :
    Rejects (.error r : Except Rejection α) (r :: rs) := by
  intro r'
  rw [List.head?_cons, Except.error.injEq, Option.some.injEq]

/-- A step succeeds when there is nothing to reject. -/
theorem eq_nil_iff (h : Rejects x rs) : rs = [] ↔ ∃ a, x = .ok a := by
  cases x with
  | error r =>
    refine ⟨fun hnil => ?_, nofun⟩
    have := (h r).1 rfl
    rw [hnil] at this
    cases this
  | ok a =>
    refine ⟨fun _ => ⟨a, rfl⟩, fun _ => List.head?_eq_none_iff.1 ?_⟩
    exact Option.eq_none_iff_forall_ne_some.2 fun r hr => nomatch (h r).2 hr

theorem nil_of_eq_ok (h : Rejects x rs) {a : α} (ha : x = .ok a) : rs = [] :=
  h.eq_nil_iff.2 ⟨a, ha⟩

/-- Of two steps in a row the first rejects first. -/
theorem bind (hx : Rejects x rs) (hf : ∀ a, x = .ok a → Rejects (f a) rs') :
    Rejects (x >>= f) (rs ++ rs') := by
  cases hcase : x with
  | error r =>
    have hhead := (hx r).1 hcase
    intro r'
    rw [List.head?_append, hhead, Option.some_or, Option.some.injEq]
    exact Eq.to_iff (Except.error.injEq r r')
  | ok a =>
    rw [hx.nil_of_eq_ok hcase, List.nil_append]
    exact hf a hcase

/-- What is made of a result rejects nothing. -/
theorem map (hx : Rejects x rs) (g : α → β) : Rejects (x.map g) rs := by
  intro r
  rw [← hx r]
  cases x with
  | error r' =>
    change Except.error r' = _ ↔ _
    rw [Except.error.injEq, Except.error.injEq]
  | ok a => exact ⟨nofun, nofun⟩

/-- A condition is looked at before a step. -/
theorem guard {p : Prop} [Decidable p] (r : Rejection) (hx : ¬ p → Rejects x rs) :
    Rejects (if p then .error r else x) (brokenIf p r ++ rs) := by
  unfold brokenIf
  split
  · exact error r rs
  · next hp => exact hx hp

end Rejects

theorem rejects_spellAt (surface name : String) (place : NamePlace) :
    Rejects (spellAt surface name place) (nameViolations surface name place) := by
  rw [spellAt, Identifier.spell, nameViolations]
  cases Identifier.fault? name with
  | none => exact Rejects.ok _
  | some fault => exact Rejects.error _ _

/-! ## Parameters and types -/

theorem trimmedType?_eq (ty : String) :
    trimmedType? ty = if Text.Blank ty then none else some (Text.trim ty) := by
  rw [trimmedType?, Option.filter_some]
  split
  · next h => rw [if_neg fun hb => (of_decide_eq_true h) (Text.trim_eq_empty_iff.2 hb)]
  · next h => rw [if_pos (Text.trim_eq_empty_iff.1 (by simpa using h))]

namespace Parameter

theorem rejects_projection (surface method : String) (p : Parameter) :
    Rejects (p.projection surface method) (p.modeViolations surface method) := by
  rw [projection, modeViolations]
  cases p.mode with
  | unsupported spelling => exact Rejects.error _ _
  | _ => exact Rejects.ok _

theorem rejects_plan (surface method : String) (seen : List String) (p : Parameter) :
    Rejects (p.plan surface method seen) (p.violations surface method seen) := by
  unfold Parameter.plan
  rw [trimmedType?_eq, violations, List.append_assoc, List.append_assoc]
  simp only [List.contains_iff_mem]
  refine Rejects.guard _ fun _ => ?_
  by_cases hblank : Text.Blank p.ty
  · rw [if_pos hblank, brokenIf, if_pos hblank]
    exact Rejects.error _ _
  · rw [if_neg hblank, brokenIf, if_neg hblank, List.nil_append]
    exact (p.rejects_projection surface method).bind fun spellings _ =>
      (rejects_spellAt surface p.name (.parameter method)).map _

end Parameter

theorem rejects_planParameters (surface method : String) (ps : List Parameter) :
    ∀ seen : List String, Rejects (planParameters surface method seen ps)
      (parameterViolations surface method seen ps) := by
  induction ps with
  | nil => exact fun _ => Rejects.ok _
  | cons p rest ih =>
    exact fun seen => (p.rejects_plan surface method seen).bind fun planned _ =>
      (ih (p.name :: seen)).map (planned :: ·)

theorem rejects_planReturns (surface : String) (s : Signature) :
    Rejects (planReturns surface s.name s.returns) (s.returnViolations surface) := by
  rw [Signature.returnViolations]
  cases s.returns with
  | none => exact Rejects.ok _
  | some ty =>
    rw [planReturns, Option.toList_some, List.flatMap_singleton, trimmedType?_eq]
    by_cases hblank : Text.Blank ty
    · rw [if_pos hblank, brokenIf, if_pos hblank]
      exact Rejects.error _ _
    · rw [if_neg hblank, brokenIf, if_neg hblank]
      exact Rejects.ok _

/-! ## Numbers behind names -/

/-- A name with a number behind ends in a digit. -/
theorem endsInDigit_numbered (name : String) (n : Nat) :
    (name ++ Nat.repr n).toList.getLast?.any Char.isDigit = true := by
  obtain ⟨c, hc⟩ := Option.ne_none_iff_exists'.1
    (mt List.getLast?_eq_none_iff.1 (Nat.toDigits_ne_nil : Nat.toDigits 10 n ≠ []))
  rw [String.toList_append, Nat.toList_repr, List.getLast?_append, hc]
  exact Nat.isDigit_of_mem_toDigits (by decide) (by decide) (List.mem_of_getLast? hc)

theorem numbered_not_mem {words : List String} {name : String} {n : Nat}
    (h : ∀ word ∈ words, word.toList.getLast?.any Char.isDigit = false) :
    name ++ Nat.repr n ∉ words := fun hmem =>
  Bool.false_ne_true ((h _ hmem).symm.trans (endsInDigit_numbered name n))

/-- No item that every module generates ends in a digit. -/
theorem numbered_not_mem_reservedItems (name : String) (n : Nat) :
    name ++ Nat.repr n ∉ reservedItems :=
  numbered_not_mem (by decide)

/-- A number behind a usable name leaves it usable. -/
theorem Identifier.Usable.numbered {name : String} (h : Usable name) (n : Nat) :
    Usable (name ++ Nat.repr n) := by
  obtain ⟨⟨c, rest, hname, hstart, hrest⟩, -⟩ := h
  refine ⟨⟨c, rest ++ Nat.toDigits 10 n, ?_, hstart, fun d hd => ?_⟩, numbered_not_mem (by decide)⟩
  · rw [String.toList_append, Nat.toList_repr, hname, List.cons_append]
  · rcases List.mem_append.1 hd with hd | hd
    · exact hrest d hd
    · have hdigit : d.isDigit := Nat.isDigit_of_mem_toDigits (by decide) (by decide) hd
      exact Bool.or_eq_true_iff.2 (Or.inr (Bool.or_eq_true_iff.2 (Or.inr hdigit)))

/-! ## Methods -/

namespace Signature

theorem rejects_plan (surface name : String) (s : Signature) :
    Rejects (s.plan surface name) (s.violationsAs surface name) := by
  unfold Signature.plan
  simp only [List.contains_iff_mem]
  exact Rejects.guard _ fun _ => (rejects_spellAt surface name .method).bind fun ident _ =>
    (rejects_planReturns surface s).bind fun returns _ =>
      (rejects_planParameters surface s.name s.params []).map _

/-- A method is judged by the name that it declares once that is a good one, for then the name
    that it gets is a good one too. -/
theorem violationsAs_numbered {s : Signature} (surface : String) (h : s.GoodName) (n : Nat) :
    s.violationsAs surface (s.name ++ Nat.repr n) = s.violations surface := by
  rw [violations, violationsAs_of_good surface h.1 h.2, violationsAs_of_good surface
    (h.1.numbered n) (numbered_not_mem_reservedItems s.name n)]

end Signature

/-- Methods are judged by the names that they declare: the first of a plain name has it, and the
    others come after one that passed. -/
theorem rejects_planMethods (surface : String) {plains : List String} {rest : List Signature} :
    ∀ {done out : List String} {names : Naming}, Naming.Fresh plains done out names →
    (∀ p ∈ done, Identifier.Usable p ∧ p ∉ reservedItems) → (∀ s ∈ rest, s.name ∈ plains) →
    Rejects (planMethods surface
        (rest.zip (names.assignFrom done.length (rest.map Signature.name)).1))
      (rest.flatMap (Signature.violations surface)) := by
  induction rest with
  | nil => exact fun _ _ _ => Rejects.ok _
  | cons s rest ih =>
    intro done out names h hdone hplains
    obtain ⟨hs, hrest⟩ := List.forall_mem_cons.1 hplains
    obtain ⟨hnext, hbare, hnumbered⟩ := h.assign hs
    have hname : s.violationsAs surface (names.assign done.length s.name).1 =
        s.violations surface := by
      by_cases hold : s.name ∈ done
      · obtain ⟨n, -, hname⟩ := hnumbered hold
        rw [hname, Signature.violationsAs_numbered surface (hdone _ hold)]
      · rw [hbare hold, Signature.violations]
    have hplan := s.rejects_plan surface (names.assign done.length s.name).1
    rw [hname] at hplan
    refine hplan.bind fun m hm => ?_
    have hgood := Signature.goodName_of_violations_eq_nil (hplan.nil_of_eq_ok hm)
    have hmore := ih hnext (List.forall_mem_append.2 ⟨hdone, List.forall_mem_singleton.2 hgood⟩) hrest
    rw [List.length_append, List.length_singleton] at hmore
    exact hmore.map _

/-! ## Surfaces -/

/-- A planned method mentions what its signature does. -/
theorem PlannedMethod.mentions_of_plan {surface name : String} {s : Signature} {m : PlannedMethod}
    (h : s.plan surface name = .ok m) : m.mentions = s.mentions := by
  funext item
  rw [mentions, Signature.mentions, Signature.types_of_plan h, List.any_map]
  simp only [Function.comp_def, Text.runs_trim Identifier.isPart_of_isBlank]

/-- Of methods and their plans the same one is found first. -/
theorem find?_planMethods {surface : String} {named : List (Signature × String)}
    {ms : List PlannedMethod} (item : String)
    (h : List.Forall₂ (fun x m => x.1.plan surface x.2 = .ok m) named ms) :
    (ms.find? (·.mentions item)).map PlannedMethod.plain =
      ((named.map Prod.fst).find? (·.mentions item)).map Signature.name := by
  induction h with
  | nil => rfl
  | @cons x m named ms hm hrest ih =>
    rw [List.map_cons, List.find?_cons, List.find?_cons, PlannedMethod.mentions_of_plan hm]
    split
    · obtain ⟨-, -, returns, params, -, -, rfl⟩ := Signature.plan_eq_ok_iff.1 hm
      rfl
    · exact ih

namespace Surface

variable {s : Surface}

/-- What a module would shadow is in its surface. -/
theorem head?_shadowViolationsIn {names : Naming} {ms : List PlannedMethod}
    (h : planMethods s.metadata.surface (s.signatures.zip (s.assigned names)) = .ok ms) :
    (s.shadowViolationsIn names).head? = (shadowed? ms).map fun (item, method) =>
      .shadowedType s.metadata.surface item method := by
  have hplan := planMethods_eq_ok_iff.1 h
  have hnames : generatedTypes ms = s.generatedNamesIn names := by
    rw [generatedTypes, generatedNamesIn, ← map_snd_zip_assigned names, List.map_map]
    refine congrArg (· ++ [slotsName]) (map_eq_map_iff_forall₂.2 (hplan.imp fun x m hm => ?_).flip)
    obtain ⟨-, -, returns, params, -, -, rfl⟩ := Signature.plan_eq_ok_iff.1 hm
    rfl
  rw [shadowViolationsIn, List.head?_filterMap, shadowed?, List.map_findSome?, hnames]
  congr 1
  funext item
  have hfind := find?_planMethods item hplan
  rw [map_fst_zip_assigned] at hfind
  have hshadowed := congrArg (Option.map (Rejection.shadowedType s.metadata.surface item)) hfind
  rw [Option.map_map, Option.map_map] at hshadowed
  rw [Function.comp_apply, Option.map_map]
  exact hshadowed.symm

theorem rejects_planModule : Rejects s.planModule
    (brokenIf (Text.Blank s.metadata.surface)
        (.metadata s.module "surface name must not be empty") ++
      nameViolations s.metadata.surface s.module .module) :=
  Rejects.guard _ fun _ => rejects_spellAt s.metadata.surface s.module .module

variable {names : Naming} {rs : List Rejection}

/-- What the methods would shadow is looked at last. -/
theorem rejects_planNamed
    (h : Rejects (planMethods s.metadata.surface (s.signatures.zip (s.assigned names))) rs) :
    Rejects (s.planNamed (s.assigned names)) (rs ++ s.shadowViolationsIn names) := by
  refine h.bind fun ms hms r => ?_
  rw [head?_shadowViolationsIn hms]
  cases shadowed? ms with
  | none => exact ⟨nofun, nofun⟩
  | some found => exact (Rejects.error _ [] r).trans Iff.rfl

/-- The name of a surface and that of its module are looked at first. -/
theorem rejects_plan_of_methods
    (h : Rejects (planMethods s.metadata.surface (s.signatures.zip (s.assigned names))) rs) :
    Rejects (s.plan names).1
      (brokenIf (Text.Blank s.metadata.surface)
          (.metadata s.module "surface name must not be empty") ++
        nameViolations s.metadata.surface s.module .module ++
        (rs ++ s.shadowViolationsIn names)) := by
  have hplan : (s.plan names).1 = s.planModule >>= fun module =>
      (s.planNamed (s.assigned names)).map fun methods =>
        { metadata := s.metadata, module, methods } := by
    unfold plan
    cases s.planModule <;> rfl
  rw [hplan]
  exact rejects_planModule.bind fun module _ => (rejects_planNamed h).map _

/-- A surface is rejected for the first condition that it breaks. -/
theorem rejects_plan : Rejects (s.plan .empty).1 s.violations := by
  have hfresh := Naming.fresh_reserve (s.signatures.map Signature.name)
  have hmethods := rejects_planMethods s.metadata.surface hfresh nofun
    fun sig hsig => List.mem_map_of_mem hsig
  rw [violations, violationsUnder, List.flatMap_map, List.append_assoc]
  exact rejects_plan_of_methods hmethods

/-- On a fresh run a surface gets a module iff it breaks none of the conditions, and else is
    rejected for the first of those that it breaks.  When the names of its methods are usable
    and not reserved, no method is rejected for its name, overloaded or not. -/
theorem generate_accepts (options : Source.Options) (s : Surface) :
    let result := (s.generate options .empty).1
    ((∃ source, result = .ok source) ↔ s.Acceptable) ∧
      (∀ rejection, result = .error rejection ↔ s.violations.head? = some rejection) ∧
      ((∀ sig ∈ s.signatures, sig.GoodName) →
        ∀ rejection, result = .error rejection → rejection.forMethodName = false) := by
  intro result
  have hrejects : Rejects result s.violations := rejects_plan.map (Plan.source options)
  refine ⟨hrejects.eq_nil_iff.symm.trans violations_eq_nil_iff, hrejects, fun hgood r hr => ?_⟩
  exact forMethodName_violations hgood r (List.mem_of_head? ((hrejects r).1 hr))

end Surface

end ImportBinding
