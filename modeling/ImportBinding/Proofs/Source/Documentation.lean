/-
  ImportBinding — documentation and code.

  Documentation is written line by line beside the code, and tells of surfaces and types in
  their own words.  Whoever deletes the comments of a module finds the module without its
  documentation, unless such words bring a line feed along.

  * `PlannedMethod.Inline`: all but the types of a method is of one row; so are those of a plan,
    on a fresh run;
  * `clean_typeLines` and its companions tell when the lines of a part are clean;
  * `Surface.uncommented_generate_iff`: when the comments of a module are its documentation.
-/
import ImportBinding.Proofs.Naming
import ImportBinding.Proofs.Source.Module
import ImportBinding.Proofs.Source.Rows

namespace ImportBinding

open Source Text

/-! ## Methods -/

theorem Identifier.Usable.flat {name : String} (h : Identifier.Usable name) : Flat name :=
  fun hmem => absurd (h.isPart _ hmem) (by decide)

/-- A spelled name starts with a letter or an underscore. -/
theorem Identifier.Usable.firm_raw {name : String} (h : Identifier.Usable name) :
    Firm (Identifier.raw name) := by
  unfold Identifier.raw
  split
  · exact Firm.append (by decide) name
  · obtain ⟨⟨c, rest, hname, hstart, -⟩, -⟩ := h
    refine ⟨c, by rw [hname]; rfl, ?_, ?_⟩ <;>
    · rintro rfl
      exact absurd hstart (by decide)

theorem Identifier.Usable.flat_raw {name : String} (h : Identifier.Usable name) :
    Flat (Identifier.raw name) := by
  unfold Identifier.raw
  split
  · exact flat_append_iff.2 ⟨by decide, h.flat⟩
  · exact h.flat

namespace Declared

variable {comment : Bool} {ty name : String} {d : Declared}

theorem later_typeOf : Later comment (d.typeOf ty) ↔ Later comment ty := by
  cases d with
  | value => exact Iff.rfl
  | ref =>
    change Later comment ("&mut " ++ ty) ↔ _
    rw [later_append_flat (by decide)]
  | out =>
    change Later comment ("&mut ::core::mem::MaybeUninit<" ++ ty ++ ">") ↔ _
    rw [String.append_assoc, later_append_flat (by decide), later_append_firm (by decide)]
    exact and_iff_left (Flat.later (by decide) comment)
  | input | readonlyRef =>
    change Later comment ("&" ++ ty) ↔ _
    rw [later_append_flat (by decide)]

theorem later_describe (hty : Tight ty) (hname : Flat name) :
    Later comment (d.describe ty name) ↔ Later comment ty := by
  have hplain : Later comment (ty ++ (" " ++ name)) ↔ Later comment ty :=
    (later_append_space hty).trans (and_iff_left (hname.later comment))
  unfold describe
  cases h : d.keyword? with
  | none => simpa only [String.append_assoc] using hplain
  | some keyword =>
    have hkeyword : Flat keyword := by
      cases d <;> cases h <;> decide
    simp only [String.append_assoc]
    rw [later_append_flat hkeyword, later_append_flat (by decide), hplain]

end Declared

/-- A method of which all but the types is of one row.  The types of its parameters do not end in
    blanks. -/
structure PlannedMethod.Inline (m : PlannedMethod) : Prop where
  plain : Flat m.plain
  name : Flat m.name
  ident : Flat m.ident ∧ Firm m.ident
  param : ∀ q ∈ m.params, Flat q.name ∧ Flat q.ident
  tight : ∀ q ∈ m.params, Tight q.ty

namespace PlannedMethod

variable {m : PlannedMethod} {comment : Bool} {surface : String}

theorem forall_types {p : String → Prop} : (∀ ty ∈ m.types, p ty) ↔
    (∀ q ∈ m.params, p q.ty) ∧ ∀ ty ∈ m.returns, p ty := by
  simp only [types, List.forall_mem_append, List.forall_mem_map, Option.mem_toList, Option.mem_def]

theorem later_arrow : Later comment m.arrow ↔ ∀ ty ∈ m.returns, Later comment ty := by
  unfold arrow
  cases m.returns with
  | none => exact iff_of_true (Flat.later (by decide) comment) nofun
  | some ty => simp [later_append_flat (by decide : Flat " -> ")]

/-- Documentation shows a method with the surface and its types. -/
theorem later_shape (h : m.Inline) : Later comment (m.shape surface) ↔
    Later comment surface ∧ ∀ ty ∈ m.types, Later comment ty := by
  have hplain := h.plain
  have hparams : Later comment (", ".intercalate
      (m.params.map fun p => p.spellings.definition.describe p.ty p.name)) ↔
        ∀ q ∈ m.params, Later comment q.ty := by
    rw [later_intercalate, List.forall_mem_map]
    exact forall₂_congr fun q hq => Declared.later_describe (h.tight q hq) (h.param q hq).1
  rw [shape, forall_types, ← later_arrow, ← hparams]
  simp (disch := first | assumption | decide) only [String.append_assoc,
    later_append_firm_append, later_append_flat]

theorem later_slotType : Later comment m.slotType ↔ ∀ ty ∈ m.types, Later comment ty := by
  have hparams : Later comment
      (", ".intercalate (m.params.map fun p => p.spellings.slot.typeOf p.ty)) ↔
        ∀ q ∈ m.params, Later comment q.ty := by
    simp only [later_intercalate, List.forall_mem_map, Declared.later_typeOf]
  rw [slotType, forall_types, ← later_arrow, ← hparams]
  simp (disch := decide) only [String.append_assoc, later_append_firm_append, later_append_flat]

theorem later_parameterList (h : m.Inline) :
    Later comment m.parameterList ↔ ∀ q ∈ m.params, Later comment q.ty := by
  rw [parameterList, later_intercalate, List.forall_mem_map]
  refine forall₂_congr fun q hq => ?_
  have hident := (h.param q hq).2
  rw [String.append_assoc, later_append_flat hident, later_append_flat (by decide),
    Declared.later_typeOf]

theorem later_argumentList (h : m.Inline) : Later comment m.argumentList := by
  rw [argumentList, later_intercalate, List.forall_mem_map]
  intro q hq
  have hident := (h.param q hq).2
  cases q.spellings.forward with
  | value | input => exact hident.later comment
  | ref | out => exact (later_append_flat (by decide)).2 (hident.later comment)

end PlannedMethod

namespace Source

variable {m : PlannedMethod} {ms : List PlannedMethod} {runtime : Runtime} {surface : String}

/-! ## Parts of a module -/

theorem clean_preamble (importParent required : Bool) (surface : String) :
    Clean (preambleLines importParent required surface) := by
  have hname : Bare ("pub const SURFACE_NAME: &str = " ++ (Text.quote surface ++ ";")) := by
    rw [bare_append_flat (by decide) (by decide), later_append_flat (flat_quote surface)]
    exact Flat.later (by decide) false
  have hrequired : Bare ("pub const REQUIRED: bool = " ++
      ((if required then "true" else "false") ++ ";")) := by
    have hflag : Flat (if required then "true" else "false") := by
      cases required <;> decide
    rw [bare_append_flat (by decide) (by decide), later_append_flat hflag]
    exact Flat.later (by decide) false
  rw [preambleLines]
  cases importParent <;>
    simp (disch := first | exact firm_ofList (by decide) | exact flat_ofList (by decide) | decide)
      only [Bool.false_eq_true, if_true, if_false, List.cons_append, List.nil_append,
      clean_cons_code, clean_cons_empty, clean_nil, bare_of_flat, String.append_assoc, hname,
      hrequired, and_self]

/-- What the lines of a method take: the surface goes into documentation, and the types into
    documentation and into code. -/
theorem clean_typeLines (h : m.Inline) : Clean (typeLines surface m) ↔
    Later true surface ∧ ∀ ty ∈ m.types, Flat ty := by
  have hname := h.name
  have htype : Bare ("pub type " ++ m.typeName ++ " = " ++ m.slotType ++ ";") ↔
      ∀ ty ∈ m.types, Later false ty := by
    rw [← PlannedMethod.later_slotType]
    simp only [String.append_assoc, PlannedMethod.typeName]
    rw [bare_append_flat (by decide) (by decide), later_append_flat hname,
      later_append_flat (by decide), later_append_flat (by decide),
      later_append_firm (by decide)]
    exact and_iff_left (Flat.later (by decide) false)
  have hdoc : Later true ("Callable shape of `" ++ m.shape surface ++ "`.") ↔
      Later true surface ∧ ∀ ty ∈ m.types, Later true ty := by
    rw [← PlannedMethod.later_shape h, String.append_assoc, later_append_flat (by decide),
      later_append_firm (by decide)]
    exact and_iff_left (Flat.later (by decide) true)
  rw [typeLines, clean_cons_empty, clean_cons_doc, clean_cons_code, hdoc, htype, and_assoc]
  simp only [flat_iff, forall_and, clean_nil, and_true]

/-- An item of the library is found on its path. -/
theorem later_item {comment : Bool} {name close : String} (hname : Flat name) :
    Later comment (runtime.item name ++ close) ↔
      Later comment runtime.path ∧ Later comment close := by
  rw [Runtime.item, String.append_assoc, String.append_assoc,
    later_append_firm (Firm.append (by decide) _), later_append_flat (by decide),
    later_append_flat hname]

/-- A line of code that names an item of the library. -/
theorem bare_item {start name close : String} (hfirm : Firm start) (hflat : Flat start)
    (hname : Flat name) : Bare (start ++ (runtime.item name ++ close)) ↔
      Later false runtime.path ∧ Later false close := by
  rw [bare_append_flat hfirm hflat, later_item hname]

theorem clean_slotsLines (h : ∀ m ∈ ms, m.Inline) :
    Clean (slotsLines runtime ms) ↔ Later false runtime.path := by
  have hslots : Clean (ms.map slotLine) := by
    refine clean_map.2 fun m hm => clean_code_depth.2 ?_
    have hname := (h m hm).name
    have hident := (h m hm).ident.1
    simp only [String.append_assoc, PlannedMethod.typeName]
    rw [bare_append_flat (by decide) (by decide)]
    simp (disch := first | assumption | decide) only [later_append_flat, Flat.later_iff]
  have hempty : Clean (ms.map emptySlotLine) := by
    refine clean_map.2 fun m hm => clean_code_depth.2 ?_
    obtain ⟨hident, hfirm⟩ := (h m hm).ident
    rw [bare_append_flat hfirm hident]
    exact Flat.later (by decide) false
  have htable : Bare ("impl " ++ (runtime.item "SlotTable" ++ " for Slots \x7b")) ↔
      Later false runtime.path := by
    rw [bare_item (by decide) (by decide) (by decide)]
    exact and_iff_left (Flat.later (by decide) false)
  have hnames : Bare ("const NAMES: &'static [&'static str] = &[" ++
      (", ".intercalate (ms.map fun m => Text.quote m.name) ++ "];")) := by
    rw [bare_append_flat (by decide) (by decide), later_append_firm (by decide),
      later_intercalate, List.forall_mem_map]
    exact ⟨fun m _ => (flat_quote m.name).later false, Flat.later (by decide) false⟩
  have hresolution : Bare ("::std::vec![" ++
      (", ".intercalate (ms.map fun m => "self." ++ (m.ident ++ ".is_some()")) ++ "]")) := by
    rw [bare_append_flat (by decide) (by decide), later_append_firm (by decide),
      later_intercalate, List.forall_mem_map]
    refine ⟨fun m hm => ?_, Flat.later (by decide) false⟩
    have hident := (h m hm).ident.1
    simp (disch := first | assumption | decide) only [later_append_flat, Flat.later_iff]
  simp (disch := first | exact firm_ofList (by decide) | exact flat_ofList (by decide) | decide)
    only [slotsLines, namesLine, resolutionLine, clean_append, clean_cons_empty, clean_cons_doc,
    clean_cons_code, clean_block, clean_nil, bare_of_flat, Flat.later_iff, String.append_assoc,
    hslots, hempty, htable, hnames, hresolution, true_and, and_true]

/-- The path of the library starts lines of code. -/
theorem clean_cellLines (required : Bool) :
    Clean (cellLines runtime required) ↔ Bare runtime.path := by
  have hcell : Bare ("static IMPORTS: " ++ (runtime.item "ImportCell" ++ ("<Slots> = " ++
      (runtime.item "ImportCell" ++ "::new(")))) ↔ Later false runtime.path := by
    rw [bare_item (by decide) (by decide) (by decide), later_append_flat (by decide),
      later_item (by decide), and_self_left]
    exact and_iff_left (Flat.later (by decide) false)
  have hmeta : Bare (runtime.item "SurfaceMeta" ++ "::new(SURFACE_NAME, REQUIRED),") ↔
      Bare runtime.path := by
    rw [Runtime.item, String.append_assoc, String.append_assoc,
      bare_append_firm (Firm.append (by decide) _), later_append_flat (by decide),
      later_append_flat (by decide)]
    exact and_iff_left (Flat.later (by decide) false)
  have hload : Bare ("pub fn load() -> ::core::result::Result<(), " ++
      (runtime.item "LoadError" ++ "> \x7b")) ↔ Later false runtime.path := by
    rw [bare_item (by decide) (by decide) (by decide)]
    exact and_iff_left (Flat.later (by decide) false)
  have hstate : Bare ("pub fn import_state() -> " ++ (runtime.item "ImportState" ++ " \x7b")) ↔
      Later false runtime.path := by
    rw [bare_item (by decide) (by decide) (by decide)]
    exact and_iff_left (Flat.later (by decide) false)
  have hloadDoc : Flat (loadDoc required) := by
    cases required <;> exact flat_ofList (by decide)
  have hlater : Bare runtime.path → Later false runtime.path := fun h => (bare_iff.1 h).2
  simp (disch := first | assumption | exact firm_ofList (by decide) |
    exact flat_ofList (by decide) | decide) only [cellLines, clean_append, clean_cons_empty,
    clean_cons_doc, clean_cons_code, clean_block, clean_nil, bare_of_flat, Flat.later_iff,
    String.append_assoc, hcell, hmeta, hload, hstate, and_true]
  exact ⟨fun h => h.1.1.2, fun h => ⟨⟨⟨hlater h, h⟩, hlater h⟩, hlater h⟩⟩

theorem clean_forwarderLines (h : m.Inline) : Clean (forwarderLines runtime surface m) ↔
    (Later true surface ∧ ∀ ty ∈ m.types, Flat ty) ∧ Later false runtime.path := by
  have hident := h.ident.1
  have hdoc : Later true ("Forwards to `" ++ (m.shape surface ++ "`.")) ↔
      Later true surface ∧ ∀ ty ∈ m.types, Later true ty := by
    rw [← PlannedMethod.later_shape h, later_append_flat (by decide), later_append_firm (by decide)]
    exact and_iff_left (Flat.later (by decide) true)
  have hreturns : Later false (m.returns.getD "()") ↔ ∀ ty ∈ m.returns, Later false ty := by
    cases m.returns with
    | none => exact iff_of_true (Flat.later (by decide) false) nofun
    | some ty => simp
  have hfn : Bare ("pub fn " ++ (m.ident ++ ("(" ++ (m.parameterList ++
      (") -> ::core::result::Result<" ++ (m.returns.getD "()" ++ (", " ++
        (runtime.item "ImportError" ++ "> \x7b")))))))) ↔
      (∀ ty ∈ m.types, Later false ty) ∧ Later false runtime.path := by
    rw [bare_of_firm (Firm.append (by decide) _), PlannedMethod.forall_types, ← hreturns,
      ← PlannedMethod.later_parameterList h, and_assoc, later_append_flat (by decide),
      later_append_flat hident, later_append_flat (by decide),
      later_append_firm (Firm.append (by decide) _), later_append_flat (by decide),
      later_append_firm (Firm.append (by decide) _), later_append_flat (by decide),
      later_item (by decide)]
    exact and_congr_right' (and_congr_right' (and_iff_left (Flat.later (by decide) false)))
  have hcall : Bare ("::core::result::Result::Ok((self::IMPORTS.forward(" ++ (Text.quote m.name ++
      (", |__slots| __slots." ++ (m.ident ++ (")?)(" ++ (m.argumentList ++ "))")))))) := by
    rw [bare_append_flat (by decide) (by decide),
      later_append_flat (flat_quote _), later_append_flat (by decide), later_append_flat hident,
      later_append_flat (by decide), later_append_firm (by decide)]
    exact ⟨PlannedMethod.later_argumentList h, Flat.later (by decide) false⟩
  have hbrace : Bare "\x7d" := bare_of_flat (by decide) (by decide)
  simp only [forwarderLines, List.cons_append, List.nil_append, clean_cons_empty, clean_cons_doc,
    clean_cons_code, clean_block, clean_nil, String.append_assoc, hdoc, hfn, hcall, hbrace,
    and_true, and_assoc, flat_iff, forall_and]

/-! ## Modules -/

/-- The surface goes into documentation, the types into documentation and into code, and the path
    of the library into code. -/
theorem clean_lines {options : Options} {p : Plan} (hmodule : Flat p.module)
    (h : ∀ m ∈ p.methods, m.Inline) : Clean (p.lines options) ↔
      Later true p.metadata.surface ∧ (∀ m ∈ p.methods, ∀ ty ∈ m.types, Flat ty) ∧
        Bare options.runtime.path := by
  have hpolicy : Flat (policy p.metadata.required) := by
    cases p.metadata.required <;> decide
  have hdoc : Later true ("Import surface `" ++ (p.metadata.surface ++ ("` (" ++
      (policy p.metadata.required ++ ").")))) ↔ Later true p.metadata.surface := by
    rw [later_append_flat (by decide), later_append_firm (Firm.append (by decide) _),
      later_append_flat (by decide), later_append_flat hpolicy]
    exact and_iff_left (Flat.later (by decide) true)
  have hopening : Bare ("pub mod " ++ (p.module ++ " \x7b")) := by
    rw [bare_append_flat (by decide) (by decide),
      later_append_flat hmodule]
    exact Flat.later (by decide) false
  have hclosing : Bare "\x7d" := bare_of_flat (by decide) (by decide)
  have htypes : Clean (p.methods.flatMap (typeLines p.metadata.surface)) ↔
      ∀ m ∈ p.methods, Later true p.metadata.surface ∧ ∀ ty ∈ m.types, Flat ty :=
    clean_flatMap.trans (forall₂_congr fun m hm => clean_typeLines (h m hm))
  have hforwarders : Clean
      (p.methods.flatMap (forwarderLines options.runtime p.metadata.surface)) ↔
      ∀ m ∈ p.methods, (Later true p.metadata.surface ∧ ∀ ty ∈ m.types, Flat ty) ∧
        Later false options.runtime.path :=
    clean_flatMap.trans (forall₂_congr fun m hm => clean_forwarderLines (h m hm))
  have hpreamble := clean_preamble options.importParent p.metadata.required p.metadata.surface
  rw [Plan.lines_eq, clean_cons_doc, clean_block, clean_append, clean_append, clean_append,
    clean_append, htypes, clean_slotsLines h, clean_cellLines, hforwarders, String.append_assoc,
    String.append_assoc, String.append_assoc, String.append_assoc, hdoc]
  constructor
  · rintro ⟨hsurface, -, ⟨⟨⟨⟨-, hmethods⟩, -⟩, hpath⟩, -⟩, -⟩
    exact ⟨hsurface, fun m hm => (hmethods m hm).2, hpath⟩
  · rintro ⟨hsurface, hmethods, hpath⟩
    have hlater := (bare_iff.1 hpath).2
    refine ⟨hsurface, hopening, ⟨⟨⟨⟨hpreamble, ?_⟩, hlater⟩, hpath⟩, ?_⟩, hclosing⟩
    · exact fun m hm => ⟨hsurface, hmethods m hm⟩
    · exact fun m hm => ⟨⟨hsurface, hmethods m hm⟩, hlater⟩

end Source

/-! ## Surfaces -/

/-- On a fresh run a name starts with the plain name that it is made from. -/
theorem Naming.exists_suffix {plains : List String} {i : Nat} {plain : String}
    (h : plains[i]? = some plain) :
    ∃ suffix, (empty.assignAll plains).1[i]? = some (plain ++ suffix) := by
  obtain ⟨name, hname, hexact⟩ := (fresh_reserve plains).exact_assignFrom (fun _ hp => hp) h
  by_cases hold : plain ∈ [] ++ plains.take i
  · obtain ⟨n, -, rfl⟩ := hexact.2 hold
    exact ⟨Nat.repr n, hname⟩
  · rw [hexact.1 hold, ← String.append_empty (s := plain)] at hname
    exact ⟨"", hname⟩

theorem Signature.inline_of_plan {surface name : String} {s : Signature} {m : PlannedMethod}
    (h : s.plan surface name = .ok m) (hplain : Flat s.name) : m.Inline := by
  obtain ⟨-, husable, returns, params, -, hparams, rfl⟩ := Signature.plan_eq_ok_iff.1 h
  have hplanned : List.Forall₂ (fun q p => ((Flat q.name ∧ Flat q.ident) ∧ Tight q.ty) ∧
      p.plan surface s.name [] = .ok q) params s.params := by
    refine ((planParameters_eq_ok_iff.1 hparams).2.2.imp fun p q hq => ⟨?_, hq⟩).flip
    obtain ⟨-, hne, hname, spellings, -, rfl⟩ := Parameter.plan_eq_ok_iff.1 hq
    exact ⟨⟨hname.flat, hname.flat_raw⟩, tight_trim hne⟩
  have hinline := ((List.forall₂_and_left _ _).1 hplanned).1
  exact ⟨hplain, husable.flat, ⟨husable.flat_raw, husable.firm_raw⟩,
    fun q hq => (hinline q hq).1, fun q hq => (hinline q hq).2⟩

namespace Surface

variable {s : Surface} {p : Plan} {names : Naming}

theorem inline_of_plan (h : (s.plan names).1 = .ok p)
    (hplain : ∀ sig ∈ s.signatures, Flat sig.name) : ∀ m ∈ p.methods, m.Inline := by
  have hplan : List.Forall₂ (fun m sig => m.Inline ∧ Flat sig.name) p.methods s.signatures := by
    have hflat := (List.forall₂_and_left _ _).2 ⟨hplain, forall₂_of_plan h⟩
    refine (hflat.imp ?_).flip
    rintro sig m ⟨hname, name, hm⟩
    exact ⟨Signature.inline_of_plan hm hname, hname⟩
  exact ((List.forall₂_and_left _ _).1 hplan).1

/-- On a fresh run the names of the methods are of one row, like those made from them. -/
theorem flat_names_of_plan (h : (s.plan .empty).1 = .ok p) :
    ∀ sig ∈ s.signatures, Flat sig.name := by
  obtain ⟨hassigned, hnamed⟩ := methods_of_plan h
  intro sig hsig
  obtain ⟨i, hi⟩ := List.mem_iff_getElem?.1 hsig
  have hplain : (s.signatures.map Signature.name)[i]? = some sig.name := by
    rw [List.getElem?_map, hi]
    rfl
  obtain ⟨suffix, hsuffix⟩ := Naming.exists_suffix hplain
  have hmem : sig.name ++ suffix ∈ p.methods.map PlannedMethod.name := by
    rw [hassigned]
    exact List.mem_of_getElem? hsuffix
  obtain ⟨m, hm, hname⟩ := List.mem_map.1 hmem
  exact (flat_append_iff.1 (hname ▸ (hnamed m hm).usable.flat)).1

/-- When the lines of a module are clean, by its surface. -/
theorem clean_lines_of_plan {options : Options} (h : (s.plan names).1 = .ok p)
    (hplain : ∀ sig ∈ s.signatures, Flat sig.name) :
    Clean (p.lines options) ↔ Later true s.metadata.surface ∧
      (∀ sig ∈ s.signatures, ∀ ty ∈ sig.types, Flat (Text.trim ty)) ∧
      Bare options.runtime.path := by
  obtain ⟨husable, hraw⟩ := module_of_plan h
  have hflatModule : Flat p.module := by
    rw [hraw]
    exact husable.flat_raw
  have hmetadata := metadata_of_plan h
  have hall : (∀ m ∈ p.methods, ∀ ty ∈ m.types, Flat ty) ↔
      ∀ types ∈ p.methods.map PlannedMethod.types, ∀ ty ∈ types, Flat ty := by
    rw [List.forall_mem_map]
  rw [clean_lines hflatModule (inline_of_plan h hplain), hmetadata, hall, types_of_plan h]
  simp only [List.forall_mem_map]

/-- On a fresh run a surface is rejected with documentation as it is without it.  When it is not,
    deleting the comments of its module gives the module without documentation iff the name of
    the surface opens no row that is not a comment, no type has a line feed inside, and no row
    of the path of the library is a comment. -/
theorem uncommented_generate_iff (options : Options) (s : Surface) :
    let documented := (s.generate { options with docs := true } .empty).1
    let undocumented := (s.generate { options with docs := false } .empty).1
    (∃ rejection, documented = .error rejection ∧ undocumented = .error rejection) ∨
      ∃ source code, documented = .ok source ∧ undocumented = .ok code ∧
        (Text.uncommented source = code ↔ Later true s.metadata.surface ∧
          (∀ sig ∈ s.signatures, ∀ ty ∈ sig.types, Flat (Text.trim ty)) ∧
          Bare options.runtime.path) := by
  intro documented undocumented
  cases hplan : (s.plan .empty).1 with
  | error rejection =>
    have hgenerate (options : Options) : (s.generate options .empty).1 = .error rejection := by
      change (s.plan .empty).1.map (Plan.source options) = .error rejection
      rw [hplan]
      rfl
    exact Or.inl ⟨rejection, hgenerate _, hgenerate _⟩
  | ok p =>
    have hdocumented : documented = .ok (render (p.lines options)) :=
      generate_eq_ok_iff.2 ⟨p, hplan, rfl⟩
    have hundocumented : undocumented = .ok (render (withoutDocs (p.lines options))) :=
      generate_eq_ok_iff.2 ⟨p, hplan, rfl⟩
    refine Or.inr ⟨_, _, hdocumented, hundocumented, ?_⟩
    exact uncommented_render_iff.trans (clean_lines_of_plan hplan (flat_names_of_plan hplan))

end Surface

/-- A surface whose name has a line feed in it. -/
def torn : Surface where
  metadata := { surface := "A\nB", required := false }
  module := "a"
  signatures := []

/-- The rest of its name is left as code. -/
theorem torn_uncommented : ∃ source code, (torn.generate {} .empty).1 = .ok source ∧
    (torn.generate { docs := false } .empty).1 = .ok code ∧
    Text.uncommented source ≠ code ∧
    "B` (optional).".toList ∈ Text.rows (Text.uncommented source) := by
  have hok : (torn.plan .empty).1.isOk := by decide +kernel
  cases hplan : (torn.plan .empty).1 with
  | error rejection =>
    rw [hplan] at hok
    cases hok
  | ok p =>
    have hsource : (torn.generate {} .empty).1 = .ok (render (p.lines {})) :=
      Surface.generate_eq_ok_iff.2 ⟨p, hplan, rfl⟩
    have hcode : (torn.generate { docs := false } .empty).1 =
        .ok (render (withoutDocs (p.lines { docs := false }))) :=
      Surface.generate_eq_ok_iff.2 ⟨p, hplan, rfl⟩
    refine ⟨_, _, hsource, hcode, fun heq => ?_, ?_⟩
    · have hclean := (Surface.clean_lines_of_plan hplan (Surface.flat_names_of_plan hplan)).1
        (uncommented_render_iff.1 heq)
      exact absurd hclean.1 (by decide)
    · obtain ⟨module, methods, -, -, rfl⟩ := Surface.plan_eq_ok_iff.1 hplan
      have hrow : "B` (optional).".toList ∈ (doc ("Import surface `" ++ torn.metadata.surface ++
          "` (" ++ policy false ++ ").")).kept := by
        decide +kernel
      rw [rows_uncommented_render]
      exact List.mem_append_left _ (List.mem_flatMap.2 ⟨_, List.mem_cons_self, hrow⟩)

end ImportBinding
