/-
  ImportBinding — reading the text of a module.

  The text of a module is read as it is meant when nothing that is put into it ends the statement
  or the comment that it is put in.  Names and literals never do.

  * `PlannedMethod.Legible` and `Runtime.Legible` are what this takes of methods and of the
    library;
  * `laid_typeLines` and its companions: the parts of a module are lines with their blocks, and
    `Plan.laid_lines` puts them together.
-/
import ImportBinding.Proofs.Source.Documentation
import ImportBinding.Proofs.Source.Layout

namespace ImportBinding

open Source

/-! ## Methods -/

/-- A method whose names are read as names, and whose types are of one piece. -/
structure PlannedMethod.Legible (m : PlannedMethod) : Prop where
  named : m.Named
  param : ∀ q ∈ m.params, Spelled q.ident
  types : ∀ ty ∈ m.types, Neat ty

theorem Declared.neat_typeOf {ty : String} (h : Neat ty) (d : Declared) : Neat (d.typeOf ty) := by
  cases d with
  | value => exact h
  | ref => exact Neat.append (s := "&mut ") (by decide) h
  | out => exact (Neat.append (s := "&mut ::core::mem::MaybeUninit<") (by decide) h).append (by decide)
  | input | readonlyRef => exact Neat.append (s := "&") (by decide) h

namespace PlannedMethod

variable {m : PlannedMethod}

theorem Legible.neat_type (h : m.Legible) : ∀ q ∈ m.params, Neat q.ty :=
  (forall_types.1 h.types).1

theorem Legible.neat_arrow (h : m.Legible) : Neat m.arrow := by
  have hreturns := (forall_types.1 h.types).2
  unfold arrow
  cases hm : m.returns with
  | none => decide
  | some ty => exact Neat.append (s := " -> ") (by decide) (hreturns ty hm)

theorem Legible.neat_slotType (h : m.Legible) : Neat m.slotType := by
  have hparams : Neat (", ".intercalate (m.params.map fun p => p.spellings.slot.typeOf p.ty)) :=
    neat_intercalate (List.forall_mem_map.2 fun q hq => Declared.neat_typeOf (h.neat_type q hq) _)
  have hopen : Leads .start "fn(" (.inside 1) := by decide
  exact ((hopen.append (hparams.leads 1)).append (by decide)).append h.neat_arrow

theorem Legible.neat_parameterList (h : m.Legible) : Neat m.parameterList := by
  refine neat_intercalate (List.forall_mem_map.2 fun q hq => ?_)
  exact ((neat_of_spelled (h.param q hq)).append (by decide)).append
    (Declared.neat_typeOf (h.neat_type q hq) _)

theorem Legible.neat_argumentList (h : m.Legible) : Neat m.argumentList := by
  refine neat_intercalate (List.forall_mem_map.2 fun q hq => ?_)
  have hident := neat_of_spelled (h.param q hq)
  cases q.spellings.forward with
  | value | input => exact hident
  | ref | out => exact Neat.append (s := "&mut *") (by decide) hident

end PlannedMethod

namespace Source

variable {m : PlannedMethod} {ms : List PlannedMethod} {runtime : Runtime} {surface : String}

/-! ## Parts of a module -/

/-- A path of names. -/
def Runtime.Legible (runtime : Runtime) : Prop :=
  ∀ c ∈ runtime.path.toList, isSpelled c ∨ c = ':'

instance (runtime : Runtime) : Decidable runtime.Legible :=
  List.decidableBAll (fun c => isSpelled c ∨ c = ':') runtime.path.toList

theorem Runtime.Legible.begins_item (h : runtime.Legible) {name : String} (hname : Spelled name) :
    Begins (runtime.item name) .start := by
  refine begins_of_forall (by simp [Runtime.item]) fun c hc => ?_
  simp only [Runtime.item, String.toList_append, List.mem_append] at hc
  rcases hc with (hc | hc) | hc
  · exact h c hc
  · have hcolons : "::".toList = List.replicate 2 ':' := by decide
    rw [hcolons] at hc
    exact Or.inr (List.eq_of_mem_replicate hc)
  · exact Or.inl (hname c hc)

theorem Runtime.Legible.neat_item (h : runtime.Legible) {name : String} (hname : Spelled name) :
    Neat (runtime.item name) :=
  (h.begins_item hname).2

/-- Neither a slash nor a line feed is in a path of names. -/
theorem Runtime.Legible.bare (h : runtime.Legible) : Text.Bare runtime.path := by
  have hnot {c : Char} (hc : c ∈ marks) : c ∉ runtime.path.toList :=
    fun hmem => notMem_marks (h c hmem) hc
  have hflat : Text.Flat runtime.path := hnot (by decide)
  refine Text.bare_iff.2 ⟨Bool.eq_false_iff.2 fun hcomment => ?_, hflat.later false⟩
  obtain ⟨n, text, hpath⟩ := Text.exists_of_isComment hcomment
  exact hnot (c := '/') (by decide) (by rw [hpath]; simp)

theorem laid_preamble (importParent required : Bool) (surface : String) :
    Laid (preambleLines importParent required surface) := by
  have hname : IsStatement ("pub const SURFACE_NAME: &str = " ++ Text.quote surface ++ ";") 0 := by
    have hbegins : Begins "pub const SURFACE_NAME: &str = " .start := by decide
    exact (hbegins.append (neat_quote surface)).isStatement true (by decide) (by decide)
  have hrequired : IsStatement ("pub const REQUIRED: bool = " ++
      (if required then "true" else "false") ++ ";") 0 := by
    cases required <;> decide
  have huse : Laid (if importParent then [code "use super::*;", .empty] else []) := by
    cases importParent
    · exact .nil
    · exact .code (by decide) (.empty .nil)
  exact (Laid.append (.code (by decide) (.empty .nil)) huse).append
    (.code hname (.code hrequired .nil))

theorem laid_typeLines (h : m.Legible) : Laid (typeLines surface m) := by
  have hbegins : Begins "pub type " .start := by decide
  have hname := neat_of_spelled h.named.spelled_typeName
  have htype : IsStatement ("pub type " ++ m.typeName ++ " = " ++ m.slotType ++ ";") 0 :=
    (((hbegins.append hname).append (by decide)).append h.neat_slotType).isStatement
      true (by decide) (by decide)
  exact .empty (.doc (.code htype .nil))

theorem isStatement_slot (h : m.Legible) :
    IsStatement ("pub " ++ m.ident ++ ": ::core::option::Option<" ++ m.typeName ++ ">,") 0 := by
  have hbegins : Begins "pub " .start := by decide
  have hident := neat_of_spelled h.named.spelled_ident
  have hname := neat_of_spelled h.named.spelled_typeName
  exact (((hbegins.append hident).append (by decide)).append hname).isStatement false (by decide)
    (by decide)

theorem Named.begins_ident (h : m.Named) : Begins m.ident .start := by
  refine begins_of_forall ?_ fun c hc => Or.inl (h.spelled_ident c hc)
  obtain ⟨c, hc, -⟩ := h.ident ▸ h.usable.firm_raw
  rintro hempty
  rw [hempty] at hc
  cases hc

theorem isStatement_emptySlot (h : m.Legible) :
    IsStatement (m.ident ++ ": ::core::option::Option::None,") 0 :=
  (Named.begins_ident h.named).isStatement false (by decide) (by decide)

theorem isStatement_names (ms : List PlannedMethod) :
    IsStatement ("const NAMES: &'static [&'static str] = &[" ++
      ", ".intercalate (ms.map fun m => Text.quote m.name) ++ "];") 0 := by
  have hbegins : Begins "const NAMES: &'static [&'static str] = &[" (.inside 1) := by decide
  have hnames : Neat (", ".intercalate (ms.map fun m => Text.quote m.name)) :=
    neat_intercalate (List.forall_mem_map.2 fun m _ => neat_quote m.name)
  exact (hbegins.append (hnames.leads 1)).isStatement true (by decide) (by decide)

theorem isStatement_resolution (h : ∀ m ∈ ms, m.Legible) :
    IsStatement ("::std::vec![" ++
      ", ".intercalate (ms.map fun m => "self." ++ m.ident ++ ".is_some()") ++ "]") 0 := by
  have hbegins : Begins "::std::vec![" (.inside 1) := by decide
  have hquestions : Neat (", ".intercalate (ms.map fun m => "self." ++ m.ident ++ ".is_some()")) :=
    neat_intercalate (List.forall_mem_map.2 fun m hm =>
      (Neat.append (s := "self.") (by decide) (neat_of_spelled (h m hm).named.spelled_ident)).append
        (by decide))
  exact (hbegins.append (hquestions.leads 1)).isStatement false (by decide) (by decide)

theorem laid_slotsLines (hpath : runtime.Legible) (h : ∀ m ∈ ms, m.Legible) :
    Laid (slotsLines runtime ms) := by
  have hslots : Laid (ms.map slotLine) := Laid.map fun m hm => ⟨_, rfl, isStatement_slot (h m hm)⟩
  have hempty : Laid (ms.map emptySlotLine) :=
    Laid.map fun m hm => ⟨_, rfl, isStatement_emptySlot (h m hm)⟩
  have htable : IsStatement ("impl " ++ runtime.item "SlotTable" ++ " for Slots \x7b") 1 := by
    have hbegins : Begins "impl " .start := by decide
    exact (hbegins.append (hpath.neat_item (by decide))).isStatement true (by decide) (by decide)
  have hbrace : IsClosing "\x7d" := by decide
  have hstruct : Laid (block "pub struct Slots \x7b" (ms.map slotLine) "\x7d") :=
    .single_block (by decide) hslots hbrace
  have himpl : Laid (block "impl Slots \x7b"
      (block "pub const UNRESOLVED: Self = Self \x7b" (ms.map emptySlotLine) "\x7d;") "\x7d") :=
    .single_block (by decide) (.single_block (by decide) hempty (by decide)) hbrace
  have hbody : Laid (block "fn resolution(&self) -> ::std::vec::Vec<bool> \x7b"
      [resolutionLine ms] "\x7d") :=
    .single_block (by decide) (.code (isStatement_resolution h) .nil) hbrace
  refine ((Laid.append (.empty (.doc (.code (by decide) .nil))) hstruct).append (.empty himpl)).append
    (.empty (.single_block htable ?_ hbrace))
  exact .code (isStatement_names ms) (.empty hbody)

theorem laid_cellLines (hpath : runtime.Legible) (required : Bool) :
    Laid (cellLines runtime required) := by
  have hcell : IsStatement ("static IMPORTS: " ++ runtime.item "ImportCell" ++ "<Slots> = " ++
      runtime.item "ImportCell" ++ "::new(") 1 := by
    have hbegins : Begins "static IMPORTS: " .start := by decide
    have hitem : Neat (runtime.item "ImportCell") := hpath.neat_item (by decide)
    exact (((hbegins.append hitem).append (by decide)).append hitem).isStatement false (by decide)
      (by decide)
  have hmeta : IsStatement (runtime.item "SurfaceMeta" ++ "::new(SURFACE_NAME, REQUIRED),") 0 :=
    (hpath.begins_item (by decide)).isStatement false (by decide) (by decide)
  have hload : IsStatement ("pub fn load() -> ::core::result::Result<(), " ++
      runtime.item "LoadError" ++ "> \x7b") 1 := by
    have hbegins : Begins "pub fn load() -> ::core::result::Result<(), " .start := by decide
    exact (hbegins.append (hpath.neat_item (by decide))).isStatement true (by decide) (by decide)
  have hstate : IsStatement ("pub fn import_state() -> " ++ runtime.item "ImportState" ++
      " \x7b") 1 := by
    have hbegins : Begins "pub fn import_state() -> " .start := by decide
    exact (hbegins.append (hpath.neat_item (by decide))).isStatement true (by decide) (by decide)
  have hslots : IsStatement "Slots::UNRESOLVED," 0 := by decide
  have hclosing : IsClosing ");" := by decide
  have hstatic := Laid.single_block hcell (.code hmeta (.code hslots .nil)) hclosing
  have hdoc (text : String) : Laid [.empty, doc text] := .empty (.doc .nil)
  have hcall {opening text : String} (ho : IsStatement opening 1) (ht : IsStatement text 0) :
      Laid (block opening [code text] "\x7d") :=
    .single_block ho (.code ht .nil) (by decide)
  refine (((((((Laid.append hstatic.empty (hdoc _)).append (hcall hload ?_)).append (hdoc _)).append
    (hcall ?_ ?_)).append (hdoc _)).append (hcall hstate ?_)).append
      (.empty (.doc (.doc (.doc .nil))))).append (hcall ?_ ?_)
  all_goals decide

theorem laid_forwarderLines (hpath : runtime.Legible) (h : m.Legible) :
    Laid (forwarderLines runtime surface m) := by
  have hident := neat_of_spelled h.named.spelled_ident
  have hreturns : Neat (m.returns.getD "()") := by
    have hall := (PlannedMethod.forall_types.1 h.types).2
    cases hm : m.returns with
    | none => decide
    | some ty => exact hall ty hm
  have hopening : IsStatement ("pub fn " ++ m.ident ++ "(" ++ m.parameterList ++
      ") -> ::core::result::Result<" ++ m.returns.getD "()" ++ ", " ++
        runtime.item "ImportError" ++ "> \x7b") 1 := by
    have hbegins : Begins "pub fn " .start := by decide
    have hparams := (hbegins.append hident).append (t := "(") (q := .inside 1) (by decide)
      |>.append (h.neat_parameterList.leads 1)
    exact ((((hparams.append (by decide)).append hreturns).append (by decide)).append
      (hpath.neat_item (by decide))).isStatement true (by decide) (by decide)
  have hcall : IsStatement ("::core::result::Result::Ok((self::IMPORTS.forward(" ++
      Text.quote m.name ++ ", |__slots| __slots." ++ m.ident ++ ")?)(" ++ m.argumentList ++
        "))") 0 := by
    have hbegins : Begins "::core::result::Result::Ok((self::IMPORTS.forward(" (.inside 3) := by
      decide
    have hslot := ((hbegins.append ((neat_quote m.name).leads 3)).append
      (t := ", |__slots| __slots.") (q := .inside 3) (by decide)).append (hident.leads 3)
    have hargs := (hslot.append (t := ")?)(") (q := .inside 2) (by decide)).append
      (h.neat_argumentList.leads 2)
    exact hargs.isStatement false (by decide) (by decide)
  exact .empty (.doc (.single_block hopening (.code hcall .nil) (by decide)))

end Source

/-! ## Modules -/

theorem Plan.laid_lines {options : Options} {p : Plan} (hpath : options.runtime.Legible)
    (hmodule : Spelled p.module) (h : ∀ m ∈ p.methods, m.Legible) : Laid (p.lines options) := by
  have hopening : IsStatement ("pub mod " ++ p.module ++ " \x7b") 1 := by
    have hbegins : Begins "pub mod " .start := by decide
    exact (hbegins.append (neat_of_spelled hmodule)).isStatement true (by decide) (by decide)
  have htypes : Laid (p.methods.flatMap (typeLines p.metadata.surface)) :=
    .flatMap fun m hm => laid_typeLines (h m hm)
  have hforwarders : Laid (p.methods.flatMap (forwarderLines options.runtime p.metadata.surface)) :=
    .flatMap fun m hm => laid_forwarderLines hpath (h m hm)
  have hpreamble := laid_preamble options.importParent p.metadata.required p.metadata.surface
  exact .doc (.single_block hopening ((((hpreamble.append htypes).append
    (laid_slotsLines hpath h)).append (laid_cellLines hpath _)).append hforwarders) (by decide))

/-! ## Surfaces -/

theorem Signature.legible_of_plan {surface name : String} {s : Signature} {m : PlannedMethod}
    (h : s.plan surface name = .ok m) (htypes : ∀ ty ∈ s.types, Neat (Text.trim ty)) :
    m.Legible := by
  have htypes' := Signature.types_of_plan h
  obtain ⟨hreserved, husable, returns, params, -, hparams, rfl⟩ := Signature.plan_eq_ok_iff.1 h
  have hspelled : List.Forall₂ (fun q p => Spelled q.ident ∧ p.plan surface s.name [] = .ok q)
      params s.params := by
    refine ((planParameters_eq_ok_iff.1 hparams).2.2.imp fun p q hq => ⟨?_, hq⟩).flip
    obtain ⟨-, -, hname, spellings, -, rfl⟩ := Parameter.plan_eq_ok_iff.1 hq
    exact hname.spelled_raw
  refine ⟨⟨husable, hreserved, rfl⟩, ((List.forall₂_and_left _ _).1 hspelled).1, ?_⟩
  rw [htypes']
  exact List.forall_mem_map.2 htypes

end ImportBinding
