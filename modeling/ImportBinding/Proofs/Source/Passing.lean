/-
  ImportBinding — parameters in generated code.

  A mode stands in three places of a module: in the type of the slot, in the parameters of the
  function that forwards, and in the arguments of its call.  The three fit together, and the two
  read-only references are the same in each; only documentation tells them apart.

  * `Surface.Alike`: surfaces that differ in which read-only references their parameters are;
  * `Signature.Alike.agree_plan` and its companions follow the checks of two such surfaces, which
    fail alike or end in plans that are `Alike`;
  * `Plan.Alike.withoutDocs_lines`: such plans have the same code;
  * `Parameter.Becomes` is what one mode makes of a parameter, and `Source.Hands` where that
    stands in the lines of a method;
  * `Surface.generate_passing` puts both together.
-/
import ImportBinding.Proofs.Source.Module
import ImportBinding.Proofs.Source.Rows

namespace ImportBinding

open Except Source

/-! ## Surfaces that are alike -/

/-- The same mode, or the two read-only references. -/
def Passing.Alike (a b : Passing) : Prop :=
  a = b ∨ a = .input ∧ b = .readonlyRef ∨ a = .readonlyRef ∧ b = .input

structure Parameter.Alike (p q : Parameter) : Prop where
  name : p.name = q.name
  ty : p.ty = q.ty
  mode : p.mode.Alike q.mode

structure Signature.Alike (s t : Signature) : Prop where
  name : s.name = t.name
  params : List.Forall₂ Parameter.Alike s.params t.params
  returns : s.returns = t.returns

/-- Surfaces that differ in nothing but which read-only references their parameters are. -/
structure Surface.Alike (s t : Surface) : Prop where
  metadata : s.metadata = t.metadata
  module : s.module = t.module
  signatures : List.Forall₂ Signature.Alike s.signatures t.signatures

/-! ## Plans that are alike -/

/-- Spellings of the same types and the same argument. -/
structure Projection.Alike (x y : Projection) : Prop where
  slot : ∀ ty, x.slot.typeOf ty = y.slot.typeOf ty
  definition : ∀ ty, x.definition.typeOf ty = y.definition.typeOf ty
  forward : x.forward = y.forward

structure PlannedParameter.Alike (p q : PlannedParameter) : Prop where
  ident : p.ident = q.ident
  ty : p.ty = q.ty
  spellings : p.spellings.Alike q.spellings

structure PlannedMethod.Alike (m n : PlannedMethod) : Prop where
  plain : m.plain = n.plain
  name : m.name = n.name
  ident : m.ident = n.ident
  params : List.Forall₂ PlannedParameter.Alike m.params n.params
  returns : m.returns = n.returns

structure Plan.Alike (p q : Plan) : Prop where
  metadata : p.metadata = q.metadata
  module : p.module = q.module
  methods : List.Forall₂ PlannedMethod.Alike p.methods q.methods

variable {surface method name : String} {seen : List String}

/-! ## Checks of surfaces that are alike -/

theorem Parameter.Alike.agree_projection {p q : Parameter} (h : p.Alike q) :
    Agree Projection.Alike (p.projection surface method) (q.projection surface method) := by
  unfold Parameter.projection
  obtain heq | ⟨hp, hq⟩ | ⟨hp, hq⟩ := h.mode
  · rw [h.name, heq]
    exact Agree.refl (fun x => ⟨fun _ => rfl, fun _ => rfl, rfl⟩) _
  · rw [hp, hq]
    exact .ok ⟨fun _ => rfl, fun _ => rfl, rfl⟩
  · rw [hp, hq]
    exact .ok ⟨fun _ => rfl, fun _ => rfl, rfl⟩

theorem Parameter.Alike.agree_plan {p q : Parameter} (h : p.Alike q) :
    Agree PlannedParameter.Alike (p.plan surface method seen) (q.plan surface method seen) := by
  unfold Parameter.plan
  rw [h.name, h.ty]
  by_cases hseen : seen.contains q.name
  · rw [if_pos hseen, if_pos hseen]
    exact .error _
  · rw [if_neg hseen, if_neg hseen]
    cases trimmedType? q.ty with
    | none => exact .error _
    | some ty =>
      refine h.agree_projection.bind fun x y hxy => ?_
      refine (Agree.refl (fun _ => rfl) (spellAt surface q.name (.parameter method))).bind ?_
      rintro ident _ rfl
      exact .ok ⟨rfl, rfl, hxy⟩

theorem agree_planParameters {ps qs : List Parameter} (h : List.Forall₂ Parameter.Alike ps qs) :
    Agree (List.Forall₂ PlannedParameter.Alike) (planParameters surface method seen ps)
      (planParameters surface method seen qs) := by
  induction h generalizing seen with
  | nil => exact .ok .nil
  | cons hp _ ih =>
    rw [planParameters, planParameters, hp.name]
    refine hp.agree_plan.bind fun x y hxy => ih.bind fun xs ys hrest => ?_
    exact .ok (.cons hxy hrest)

theorem Signature.Alike.agree_plan {s t : Signature} (h : s.Alike t) :
    Agree PlannedMethod.Alike (s.plan surface name) (t.plan surface name) := by
  unfold Signature.plan
  rw [h.name, h.returns]
  split
  · exact .error _
  · refine (Agree.refl (fun _ => rfl) (spellAt surface name .method)).bind ?_
    rintro ident _ rfl
    refine (Agree.refl (fun _ => rfl) (planReturns surface t.name t.returns)).bind ?_
    rintro returns _ rfl
    refine (agree_planParameters h.params).bind fun ps qs hps => ?_
    exact .ok ⟨rfl, rfl, rfl, hps, rfl⟩

theorem agree_planMethods {ss ts : List Signature} (h : List.Forall₂ Signature.Alike ss ts) :
    ∀ names : List String, Agree (List.Forall₂ PlannedMethod.Alike)
      (planMethods surface (ss.zip names)) (planMethods surface (ts.zip names)) := by
  induction h with
  | nil => exact fun names => .ok .nil
  | cons hs _ ih =>
    intro names
    cases names with
    | nil => exact .ok .nil
    | cons name names =>
      rw [List.zip_cons_cons, List.zip_cons_cons, planMethods, planMethods]
      refine hs.agree_plan.bind fun m n hmn => (ih names).bind fun ms ns hrest => ?_
      exact .ok (.cons hmn hrest)

namespace PlannedMethod.Alike

variable {m n : PlannedMethod}

theorem typeName (h : m.Alike n) : m.typeName = n.typeName := by
  rw [PlannedMethod.typeName, PlannedMethod.typeName, h.name]

theorem types (h : m.Alike n) : m.types = n.types := by
  have hparams : m.params.map PlannedParameter.ty = n.params.map PlannedParameter.ty :=
    map_eq_map_iff_forall₂.2 (h.params.imp fun _ _ hq => hq.ty)
  rw [PlannedMethod.types, PlannedMethod.types, hparams, h.returns]

theorem mentions (h : m.Alike n) (item : String) : m.mentions item = n.mentions item := by
  rw [PlannedMethod.mentions, PlannedMethod.mentions, h.types]

end PlannedMethod.Alike

/-- Methods that are alike mention the same types, and the first that does is alike. -/
theorem shadowed?_eq {ms ns : List PlannedMethod} (h : List.Forall₂ PlannedMethod.Alike ms ns) :
    shadowed? ms = shadowed? ns := by
  have htypes : generatedTypes ms = generatedTypes ns := by
    rw [generatedTypes, generatedTypes, map_eq_map_iff_forall₂.2 (h.imp fun _ _ hm => hm.typeName)]
  have hfirst (item : String) : (ms.find? (·.mentions item)).map (fun m => (item, m.plain)) =
      (ns.find? (·.mentions item)).map (fun m => (item, m.plain)) := by
    clear htypes
    induction h with
    | nil => rfl
    | cons hm _ ih =>
      rw [List.find?_cons, List.find?_cons, hm.mentions]
      split
      · rw [Option.map_some, Option.map_some, hm.plain]
      · exact ih
  rw [shadowed?, shadowed?, htypes]
  simp only [hfirst]

theorem Surface.Alike.agree_plan {s t : Surface} (h : s.Alike t) (names : Naming) :
    Agree Plan.Alike (s.plan names).1 (t.plan names).1 ∧ (s.plan names).2 = (t.plan names).2 := by
  have hmodule : s.planModule = t.planModule := by
    rw [planModule, planModule, h.metadata, h.module]
  have hnames : s.signatures.map Signature.name = t.signatures.map Signature.name :=
    map_eq_map_iff_forall₂.2 (h.signatures.imp fun _ _ hs => hs.name)
  unfold Surface.plan
  rw [hmodule, hnames]
  cases t.planModule with
  | error rejection => exact ⟨.error rejection, rfl⟩
  | ok module =>
    refine ⟨?_, rfl⟩
    have hnamed (assigned : List String) : Agree (List.Forall₂ PlannedMethod.Alike)
        (s.planNamed assigned) (t.planNamed assigned) := by
      rw [planNamed, planNamed, h.metadata]
      refine (agree_planMethods h.signatures assigned).bind fun ms ns hms => ?_
      rw [shadowed?_eq hms]
      split
      · exact .error _
      · exact .ok hms
    exact (hnamed _).bind fun ms ns hms => .ok ⟨h.metadata, rfl, hms⟩

/-! ## Code of plans that are alike -/

namespace PlannedMethod.Alike

variable {m n : PlannedMethod}

theorem slotType (h : m.Alike n) : m.slotType = n.slotType := by
  have hparams : m.params.map (fun q => q.spellings.slot.typeOf q.ty) =
      n.params.map fun q => q.spellings.slot.typeOf q.ty :=
    map_eq_map_iff_forall₂.2 (h.params.imp fun _ _ hq => by rw [hq.ty, hq.spellings.slot])
  rw [PlannedMethod.slotType, PlannedMethod.slotType, hparams, arrow, arrow, h.returns]

theorem parameterList (h : m.Alike n) : m.parameterList = n.parameterList := by
  rw [PlannedMethod.parameterList, PlannedMethod.parameterList]
  refine congrArg (", ".intercalate ·) (map_eq_map_iff_forall₂.2 (h.params.imp fun _ _ hq => ?_))
  rw [hq.ident, hq.ty, hq.spellings.definition]

theorem argumentList (h : m.Alike n) : m.argumentList = n.argumentList := by
  rw [PlannedMethod.argumentList, PlannedMethod.argumentList]
  refine congrArg (", ".intercalate ·) (map_eq_map_iff_forall₂.2 (h.params.imp fun _ _ hq => ?_))
  rw [hq.ident, hq.spellings.forward]

theorem withoutDocs_typeLines (h : m.Alike n) :
    withoutDocs (typeLines surface m) = withoutDocs (typeLines surface n) := by
  have hcode (m : PlannedMethod) : withoutDocs (typeLines surface m) =
      [.empty, code ("pub type " ++ m.typeName ++ " = " ++ m.slotType ++ ";")] := rfl
  rw [hcode, hcode, h.typeName, h.slotType]

theorem withoutDocs_forwarderLines {runtime : Runtime} (h : m.Alike n) :
    withoutDocs (forwarderLines runtime surface m) =
      withoutDocs (forwarderLines runtime surface n) := by
  have hcode (m : PlannedMethod) : withoutDocs (forwarderLines runtime surface m) = .empty ::
      block ("pub fn " ++ m.ident ++ "(" ++ m.parameterList ++ ") -> ::core::result::Result<" ++
          m.returns.getD "()" ++ ", " ++ runtime.item "ImportError" ++ "> \x7b")
        [code ("::core::result::Result::Ok((self::IMPORTS.forward(" ++ Text.quote m.name ++
          ", |__slots| __slots." ++ m.ident ++ ")?)(" ++ m.argumentList ++ "))")] "\x7d" := rfl
  rw [hcode, hcode, h.ident, h.parameterList, h.returns, h.name, h.argumentList]

end PlannedMethod.Alike

theorem slotsLines_eq {runtime : Runtime} {ms ns : List PlannedMethod}
    (h : List.Forall₂ PlannedMethod.Alike ms ns) : slotsLines runtime ms = slotsLines runtime ns := by
  have hslots : ms.map slotLine = ns.map slotLine :=
    map_eq_map_iff_forall₂.2 (h.imp fun m n hm => by rw [slotLine, slotLine, hm.ident, hm.typeName])
  have hempty : ms.map emptySlotLine = ns.map emptySlotLine :=
    map_eq_map_iff_forall₂.2 (h.imp fun m n hm => by rw [emptySlotLine, emptySlotLine, hm.ident])
  have hnames : ms.map (fun m => Text.quote m.name) = ns.map fun m => Text.quote m.name :=
    map_eq_map_iff_forall₂.2 (h.imp fun m n hm => by rw [hm.name])
  have hfilled : ms.map (fun m => "self." ++ m.ident ++ ".is_some()") =
      ns.map fun m => "self." ++ m.ident ++ ".is_some()" :=
    map_eq_map_iff_forall₂.2 (h.imp fun m n hm => by rw [hm.ident])
  rw [slotsLines, slotsLines, hslots, hempty, namesLine, namesLine, hnames, resolutionLine,
    resolutionLine, hfilled]

theorem withoutDocs_flatMap {lines : PlannedMethod → List Line} {ms ns : List PlannedMethod}
    (h : List.Forall₂ PlannedMethod.Alike ms ns)
    (hlines : ∀ m n, m.Alike n → withoutDocs (lines m) = withoutDocs (lines n)) :
    withoutDocs (ms.flatMap lines) = withoutDocs (ns.flatMap lines) := by
  induction h with
  | nil => rfl
  | cons hm _ ih =>
    rw [List.flatMap_cons, List.flatMap_cons, withoutDocs_append, withoutDocs_append, ih,
      hlines _ _ hm]

/-- Only the documentation tells which read-only references parameters are. -/
theorem Plan.Alike.withoutDocs_lines {p q : Plan} (h : p.Alike q) (options : Options) :
    withoutDocs (p.lines options) = withoutDocs (q.lines options) := by
  have hdoc (text : String) (lines : List Line) :
      withoutDocs (doc text :: lines) = withoutDocs lines := rfl
  have htypes : withoutDocs (p.methods.flatMap (typeLines q.metadata.surface)) =
      withoutDocs (q.methods.flatMap (typeLines q.metadata.surface)) :=
    withoutDocs_flatMap h.methods fun _ _ hm => hm.withoutDocs_typeLines
  have hforwarders :
      withoutDocs (p.methods.flatMap (forwarderLines options.runtime q.metadata.surface)) =
        withoutDocs (q.methods.flatMap (forwarderLines options.runtime q.metadata.surface)) :=
    withoutDocs_flatMap h.methods fun _ _ hm => hm.withoutDocs_forwarderLines
  simp only [Plan.lines, hdoc, withoutDocs_block, withoutDocs_append, h.metadata, h.module,
    slotsLines_eq h.methods, htypes, hforwarders]

theorem Surface.Alike.generate_eq {s t : Surface} (h : s.Alike t) {options : Options}
    (hdocs : options.docs = false) (names : Naming) :
    s.generate options names = t.generate options names := by
  obtain ⟨hplan, hnames⟩ := h.agree_plan names
  refine Prod.ext (hplan.map_eq fun p q hpq => ?_) hnames
  rw [Plan.source, Plan.source, hdocs]
  exact congrArg render (hpq.withoutDocs_lines options)

/-! ## Types and arguments -/

/-- A parameter as code has it: its type, and the argument that hands it on. -/
structure Source.Operand where
  ty : String
  argument : String
  deriving DecidableEq, Repr

/-- What code makes of a parameter.  Its slot and the function have one type for it, and its
    argument borrows again just where the mode has put `&mut` in front of its own type. -/
structure Parameter.Becomes (q : Parameter) (o : Operand) : Prop where
  projected : ∃ spellings, q.mode.projection? = some spellings ∧
    o.ty = spellings.slot.typeOf (Text.trim q.ty) ∧
    o.ty = spellings.definition.typeOf (Text.trim q.ty) ∧
    o.argument = spellings.forward.argument (Identifier.raw q.name)
  handed : o.argument = Identifier.raw q.name ∨ o.argument = "&mut *" ++ Identifier.raw q.name
  reborrowed_iff : o.argument = "&mut *" ++ Identifier.raw q.name ↔
    ∃ before after, o.ty = "&mut " ++ before ++ Text.trim q.ty ++ after

/-- The lines of a method with these operands: the type of its slot, the opening of its function,
    and the call. -/
structure Source.Hands (lines : List Line) (sig : Signature) (m : PlannedMethod)
    (operands : List Operand) : Prop where
  slot : .code 1 ("pub type " ++ m.typeName ++ " = " ++
    ("fn(" ++ ", ".intercalate (operands.map Operand.ty) ++ ")" ++ m.arrow) ++ ";") ∈ lines
  opening : ∃ result, .code 1 ("pub fn " ++ m.ident ++ "(" ++
    ", ".intercalate (List.zipWith (fun q o => Identifier.raw q.name ++ ": " ++ o.ty) sig.params
      operands) ++ ") -> " ++ result) ∈ lines
  call : .code 2 ("::core::result::Result::Ok((self::IMPORTS.forward(" ++ Text.quote m.name ++
    ", |__slots| __slots." ++ m.ident ++ ")?)(" ++
      ", ".intercalate (operands.map Operand.argument) ++ "))") ∈ lines

/-- A mode declares a parameter in the slot as it does in the function. -/
theorem Passing.slot_of_projection? {mode : Passing} {spellings : Projection}
    (h : mode.projection? = some spellings) : spellings.slot = spellings.definition := by
  cases mode <;> cases h <;> rfl

theorem Handed.argument_eq_or (x : Handed) (ident : String) :
    x.argument ident = ident ∨ x.argument ident = "&mut *" ++ ident := by
  cases x with
  | value | input => exact Or.inl rfl
  | ref | out => exact Or.inr rfl

/-- What stands in front of a type is too short to borrow mutably. -/
theorem ne_borrowed {start : String} (h : start.length < 5) (ty before after : String) :
    start ++ ty ≠ "&mut " ++ before ++ ty ++ after := by
  intro heq
  have hlength := congrArg String.length heq
  have hmut : "&mut ".length = 5 := by decide
  simp only [String.length_append, hmut] at hlength
  omega

/-- A mode borrows again in the call iff it borrows mutably in the type. -/
theorem Passing.reborrows_iff {mode : Passing} {spellings : Projection}
    (h : mode.projection? = some spellings) (ident ty : String) :
    spellings.forward.argument ident = "&mut *" ++ ident ↔
      ∃ before after, spellings.slot.typeOf ty = "&mut " ++ before ++ ty ++ after := by
  have hkept : ¬ ident = "&mut *" ++ ident := fun he => by
    simpa using congrArg String.length he
  -- a mode that hands on the parameter itself has at most `&` in front of the type
  cases mode <;> cases h
  case value =>
    refine iff_of_false hkept fun ⟨before, after, he⟩ => ?_
    exact ne_borrowed (by decide : "".length < 5) ty before after (String.empty_append.trans he)
  case ref =>
    refine iff_of_true rfl ⟨"", "", ?_⟩
    rw [String.append_empty, String.append_empty]
    rfl
  case out =>
    have hstart : "&mut " ++ "::core::mem::MaybeUninit<" = "&mut ::core::mem::MaybeUninit<" := by
      decide
    refine iff_of_true rfl ⟨"::core::mem::MaybeUninit<", ">", ?_⟩
    rw [hstart]
    rfl
  case input =>
    exact iff_of_false hkept fun ⟨before, after, he⟩ => ne_borrowed (by decide) ty before after he
  case readonlyRef =>
    exact iff_of_false hkept fun ⟨before, after, he⟩ => ne_borrowed (by decide) ty before after he

/-- The operand of a planned parameter. -/
def PlannedParameter.operand (q : PlannedParameter) : Operand where
  ty := q.spellings.slot.typeOf q.ty
  argument := q.spellings.forward.argument q.ident

theorem Parameter.becomes_of_plan {p : Parameter} {q : PlannedParameter}
    (h : p.plan surface method seen = .ok q) : p.Becomes q.operand := by
  obtain ⟨-, -, -, spellings, hspellings, rfl⟩ := Parameter.plan_eq_ok_iff.1 h
  refine ⟨⟨spellings, hspellings, rfl, ?_, rfl⟩, ?_, ?_⟩
  · rw [← Passing.slot_of_projection? hspellings]
    rfl
  · exact Handed.argument_eq_or _ _
  · exact Passing.reborrows_iff hspellings _ _

/-- The parameters of the function have the types of the operands. -/
theorem zipWith_operand {ps : List Parameter} {qs : List PlannedParameter}
    (h : List.Forall₂ (fun p q => p.plan surface method seen = .ok q) ps qs) :
    List.zipWith (fun p o => Identifier.raw p.name ++ ": " ++ o.ty) ps
        (qs.map PlannedParameter.operand) =
      qs.map fun q => q.ident ++ ": " ++ q.spellings.definition.typeOf q.ty := by
  induction h with
  | nil => rfl
  | cons hq _ ih =>
    obtain ⟨-, -, -, spellings, hspellings, rfl⟩ := Parameter.plan_eq_ok_iff.1 hq
    rw [List.map_cons, List.map_cons, List.zipWith_cons_cons, ih,
      ← Passing.slot_of_projection? hspellings]
    rfl

/-- The lines of a planned method hand on what its parameters become. -/
theorem Signature.hands_of_plan {options : Options} {p : Plan} {s : Signature} {m : PlannedMethod}
    (hm : m ∈ p.methods) (h : s.plan surface name = .ok m) :
    List.Forall₂ Parameter.Becomes s.params (m.params.map PlannedParameter.operand) ∧
      Hands (p.emitted options) s m (m.params.map PlannedParameter.operand) := by
  have hplans : List.Forall₂ (fun p q => p.plan surface s.name [] = .ok q) s.params m.params := by
    obtain ⟨-, -, returns, params, -, hparams, rfl⟩ := Signature.plan_eq_ok_iff.1 h
    exact (planParameters_eq_ok_iff.1 hparams).2.2
  refine ⟨?_, ?_, ⟨"::core::result::Result<" ++ m.returns.getD "()" ++ ", " ++
    options.runtime.item "ImportError" ++ "> \x7b", ?_⟩, ?_⟩
  · rw [List.forall₂_map_right_iff]
    exact hplans.imp fun p q hq => Parameter.becomes_of_plan hq
  · refine Plan.code_mem_emitted hm (List.mem_append_left _ ?_)
    rw [List.map_map]
    exact List.mem_cons_of_mem _ (List.mem_cons_of_mem _ List.mem_cons_self)
  · refine Plan.code_mem_emitted hm (List.mem_append_right _ (List.mem_append_right _ ?_))
    refine List.mem_cons.2 (Or.inl (congrArg (Line.code 0) ?_))
    rw [zipWith_operand hplans, PlannedMethod.parameterList]
    simp only [String.append_assoc]
    rfl
  · refine Plan.code_mem_emitted hm (List.mem_append_right _ (List.mem_append_right _ ?_))
    rw [List.map_map]
    exact List.mem_cons_of_mem _ List.mem_cons_self

/-- How parameters are passed in a generated module.  Without documentation, surfaces that differ
    in which read-only references their parameters are have the same result.  In the module of a
    surface that is accepted, the type of a slot and the function that forwards to it list the
    types of the parameters alike, and the call borrows again just those that the mode has put
    behind a mutable reference. -/
theorem Surface.generate_passing (s : Surface) (names : Naming) :
    (∀ t options, s.Alike t → options.docs = false →
      s.generate options names = t.generate options names) ∧
    ∀ options source, (s.generate options names).1 = .ok source →
      ∃ p, (s.plan names).1 = .ok p ∧ source = render (p.emitted options) ∧
        List.Forall₂ (fun sig m => ∃ operands,
          List.Forall₂ Parameter.Becomes sig.params operands ∧
            Hands (p.emitted options) sig m operands) s.signatures p.methods := by
  refine ⟨fun t options h hdocs => h.generate_eq hdocs names, fun options source hsource => ?_⟩
  obtain ⟨p, hp, rfl⟩ := generate_eq_ok_iff.1 hsource
  have hplans : List.Forall₂ (fun m sig => m ∈ p.methods ∧
      ∃ name, sig.plan s.metadata.surface name = .ok m) p.methods s.signatures :=
    (List.forall₂_and_left _ _).2 ⟨fun m hm => hm, (forall₂_of_plan hp).flip⟩
  refine ⟨p, hp, rfl, (hplans.imp ?_).flip⟩
  rintro m sig ⟨hm, name, hplan⟩
  exact ⟨_, Signature.hands_of_plan hm hplan⟩

end ImportBinding
