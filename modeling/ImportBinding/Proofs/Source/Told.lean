/-
  ImportBinding — what the text of a module tells.

  The text of a module tells of its slots what its lines do.  The name of the surface is repeated
  in documentation, and what stands in its rows is read with it: once for each type of callables
  and once for each function that forwards.

  * `Surface.Legible` is what it takes of a surface to be read as it is meant;
  * `PlannedMethod.stray_shape`: documentation of a method has the stray rows of the surface;
  * `Surface.statements_of_plan`: without such rows the statements of the text are the code of the
    lines;
  * `Surface.entries_of_plan`: what the text of a module tells, with what the surface brings along.
-/
import ImportBinding.Proofs.Source.Legible

namespace ImportBinding

open Source Entry Text

/-! ## Stray rows -/

namespace Source

variable {surface text : String} {lines : List Line} {m : PlannedMethod} {runtime : Runtime}

/-- What the stray rows of a text declare in a module. -/
def brought (text : String) : List Entry :=
  (stray text).filterMap fun row => item? (.ofList row)

/-- The stray rows of documentation are read in front of what it documents. -/
theorem scan_told_documented (h : Commented lines) (hrooted : Rooted lines)
    (hstray : stray text = stray surface) :
    scan Entry.read [] ((.empty :: doc text :: lines).flatMap Line.told) =
      brought surface ++ scan Entry.read [] (.empty :: doc text :: lines) := by
  rw [flatMap_told_documented h, hrooted.codeLines.scan_append, scan_told_doc, hstray,
    scan_codeLines, scan_empty, scan_doc]
  rfl

theorem scan_told_typeLines (h : m.Named)
    (hstray : stray ("Callable shape of `" ++ m.shape surface ++ "`.") = stray surface) :
    scan Entry.read [] ((typeLines surface m).flatMap Line.told) =
      brought surface ++ [callable m.typeName] := by
  have hlines : scan Entry.read [] (typeLines surface m) = [callable m.typeName] :=
    scan_typeLines h
  rw [← hlines, typeLines]
  exact scan_told_documented (commented_code _) rooted_code hstray

theorem scan_told_forwarderLines (h : m.Named)
    (hstray : stray ("Forwards to `" ++ m.shape surface ++ "`.") = stray surface) :
    scan Entry.read [] ((forwarderLines runtime surface m).flatMap Line.told) =
      brought surface ++ [function (Identifier.raw m.name),
        forwarder (Identifier.raw m.name) m.name (Identifier.raw m.name)] := by
  have hlines : scan Entry.read [] (forwarderLines runtime surface m) =
      [function (Identifier.raw m.name),
        forwarder (Identifier.raw m.name) m.name (Identifier.raw m.name)] := scan_forwarderLines h
  rw [← hlines, forwarderLines]
  exact scan_told_documented (commented_block.2 (commented_code _)) rooted_block hstray

theorem rooted_told_typeLines (surface : String) (m : PlannedMethod) :
    Rooted ((typeLines surface m).flatMap Line.told) := by
  rw [typeLines]
  exact rooted_told_documented (commented_code _) rooted_code

theorem rooted_told_forwarderLines (runtime : Runtime) (surface : String) (m : PlannedMethod) :
    Rooted ((forwarderLines runtime surface m).flatMap Line.told) := by
  rw [forwarderLines]
  exact rooted_told_documented (commented_block.2 (commented_code _)) rooted_block

end Source

namespace PlannedMethod

variable {m : PlannedMethod} {surface before after : String}

theorem shape_eq (m : PlannedMethod) (surface : String) :
    m.shape surface = surface ++ m.shape "" := by
  simp only [shape, String.empty_append, String.append_assoc]

theorem flat_shape (h : m.Inline) (htypes : ∀ ty ∈ m.types, Flat ty) : Flat (m.shape "") := by
  have hlater (comment : Bool) : Later comment (m.shape "") :=
    (later_shape h).2 ⟨Flat.later (by decide) comment, fun ty hty => (htypes ty hty).later comment⟩
  exact flat_iff.2 ⟨hlater true, hlater false⟩

theorem firm_shape (m : PlannedMethod) : Firm (m.shape "") := by
  simp only [shape, String.empty_append, String.append_assoc]
  exact Firm.append (by decide) _

/-- Documentation that shows a method has the stray rows of the surface. -/
theorem stray_shape (h : m.Inline) (htypes : ∀ ty ∈ m.types, Flat ty) (hsurface : Capped surface)
    (hbefore : Flat before) (hafter : Flat after) :
    stray (before ++ m.shape surface ++ after) = stray surface := by
  have hflat := flat_append_iff.2 ⟨flat_shape h htypes, hafter⟩
  rw [String.append_assoc, stray_append_flat hbefore, shape_eq, String.append_assoc,
    stray_append_firm hsurface hflat (m.firm_shape.append after)]

end PlannedMethod

/-! ## Modules -/

namespace Plan

variable {p : Plan} {options : Options} (hpath : options.runtime.Legible)
  (hsurface : Capped p.metadata.surface) (hinline : ∀ m ∈ p.methods, m.Inline)
  (htypes : ∀ m ∈ p.methods, ∀ ty ∈ m.types, Flat ty)

include hsurface

theorem stray_module : stray ("Import surface `" ++ p.metadata.surface ++ "` (" ++
    policy p.metadata.required ++ ").") = stray p.metadata.surface := by
  have hpolicy : Flat ("` (" ++ (policy p.metadata.required ++ ").")) := by
    cases p.metadata.required <;> decide
  rw [String.append_assoc, String.append_assoc, String.append_assoc,
    stray_append_flat (by decide), stray_append_firm hsurface hpolicy (Firm.append (by decide) _)]

include hinline htypes

theorem stray_callable {m : PlannedMethod} (hm : m ∈ p.methods) :
    stray ("Callable shape of `" ++ m.shape p.metadata.surface ++ "`.") =
      stray p.metadata.surface :=
  PlannedMethod.stray_shape (hinline m hm) (htypes m hm) hsurface (by decide) (by decide)

theorem stray_forwarder {m : PlannedMethod} (hm : m ∈ p.methods) :
    stray ("Forwards to `" ++ m.shape p.metadata.surface ++ "`.") = stray p.metadata.surface :=
  PlannedMethod.stray_shape (hinline m hm) (htypes m hm) hsurface (by decide) (by decide)

include hpath

/-- A module is read line by line where the stray rows of the surface are statements. -/
theorem clear_lines (h : ∀ row ∈ stray p.metadata.surface, IsStatement (.ofList row) 0) :
    ∀ l ∈ p.lines options, l.Clear := by
  have hdoc {text : String} (ht : stray text = stray p.metadata.surface) : (doc text).Clear := by
    rw [doc, Line.Clear, ht]
    exact h
  have hcode (text : String) : (code text).Clear := trivial
  have hpreamble := (clean_preamble options.importParent p.metadata.required
    p.metadata.surface).commented.clear
  have hslots := ((clean_slotsLines hinline).2 (bare_iff.1 hpath.bare).2).commented.clear
  have hcells := ((clean_cellLines p.metadata.required).2 hpath.bare).commented.clear
  rw [Plan.lines_eq]
  refine List.forall_mem_cons.2 ⟨hdoc (stray_module hsurface), clear_block.2 ?_⟩
  simp only [List.forall_mem_append, List.forall_mem_flatMap]
  refine ⟨⟨⟨⟨hpreamble, fun m hm => ?_⟩, hslots⟩, hcells⟩, fun m hm => ?_⟩
  · have hstray := stray_callable hsurface hinline htypes hm
    exact List.forall_mem_cons.2 ⟨trivial, List.forall_mem_cons.2
      ⟨hdoc hstray, List.forall_mem_singleton.2 (hcode _)⟩⟩
  · have hstray := stray_forwarder hsurface hinline htypes hm
    exact List.forall_mem_cons.2 ⟨trivial, List.forall_mem_cons.2
      ⟨hdoc hstray, clear_block.2 (List.forall_mem_singleton.2 (hcode _))⟩⟩

/-- What is read of a module, with what its surface brings along. -/
theorem entries_told (h : ∀ m ∈ p.methods, m.Named) :
    entries ((p.lines options).flatMap Line.told) =
      ofNames (brought p.metadata.surface) (p.methods.map PlannedMethod.name) := by
  have hpreamble := (clean_preamble options.importParent p.metadata.required
    p.metadata.surface).commented
  have hslots := ((clean_slotsLines hinline).2 (bare_iff.1 hpath.bare).2).commented
  have hcells := ((clean_cellLines p.metadata.required).2 hpath.bare).commented
  have htypeLines := rooted_told_typeLines p.metadata.surface
  have hforwarderLines := rooted_told_forwarderLines options.runtime p.metadata.surface
  have hmodule (text : String) : scan readInside [] (doc text).told = [] :=
    (scan_told_doc text []).trans (List.filterMap_eq_nil_iff.2 fun _ _ => rfl)
  have hinside (opening : String) : (fun inner => readInside (opening :: inner)) = Entry.read := rfl
  rw [entries, Plan.lines_eq, List.flatMap_cons, told_block, rooted_block.scan_append, hmodule,
    scan_block, hinside]
  simp only [List.flatMap_append, List.flatMap_assoc]
  rw [(rooted_flatMap _ hforwarderLines).scan_append, (hcells.rooted_told rfl).scan_append,
    (hslots.rooted_told rfl).scan_append, (rooted_flatMap _ htypeLines).scan_append,
    hpreamble.scan_told, hslots.scan_told, hcells.scan_told, scan_preamble, scan_slotsLines h,
    scan_cellLines,
    scan_flatMap htypeLines fun m hm =>
      scan_told_typeLines (h m hm) (stray_callable hsurface hinline htypes hm),
    scan_flatMap hforwarderLines fun m hm =>
      scan_told_forwarderLines (h m hm) (stray_forwarder hsurface hinline htypes hm)]
  simp only [readInside, Option.toList_none, List.nil_append, List.append_nil,
    PlannedMethod.typeName, ofNames, List.flatMap_map, List.append_assoc]

end Plan

/-! ## Surfaces -/

namespace Surface

variable {s : Surface} {p : Plan} {names : Naming} {options : Options}

/-- What a surface and the options have to be for the text of the module to be read as it is
    meant.  The path of the library is made of names.  A type is of one piece.  What documentation
    repeats brings no line feed along, save for the surface: of its rows the last is a comment and
    the others are comments or statements. -/
structure Legible (options : Options) (s : Surface) : Prop where
  path : options.runtime.Legible
  types : ∀ sig ∈ s.signatures, ∀ ty ∈ sig.types, Neat (Text.trim ty)
  capped : options.docs → Capped s.metadata.surface
  rows : options.docs → ∀ row ∈ stray s.metadata.surface, IsStatement (.ofList row) 0
  flat : options.docs →
    ∀ sig ∈ s.signatures, Flat sig.name ∧ ∀ ty ∈ sig.types, Flat (Text.trim ty)

/-- What the surface brings along to its module. -/
def brings (options : Options) (s : Surface) : List Entry :=
  if options.docs then brought s.metadata.surface else []

theorem laid_of_plan (h : (s.plan names).1 = .ok p) (hlegible : s.Legible options) :
    Laid (p.lines options) := by
  have hmethods : ∀ m ∈ p.methods, m.Legible := by
    have hplan : List.Forall₂ (fun m sig => m.Legible ∧ sig ∈ s.signatures) p.methods
        s.signatures := by
      have hmem := (List.forall₂_and_left _ _).2 ⟨fun sig hsig => hsig, forall₂_of_plan h⟩
      refine (hmem.imp ?_).flip
      rintro sig m ⟨hsig, name, hm⟩
      exact ⟨Signature.legible_of_plan hm (hlegible.types sig hsig), hsig⟩
    exact ((List.forall₂_and_left _ _).1 hplan).1
  exact Plan.laid_lines hlegible.path (spelled_of_plan h) hmethods

/-- Without documentation, or where the surface brings nothing along, the statements of the text
    of a module are the code that is written of it. -/
theorem statements_of_plan (h : (s.plan names).1 = .ok p) (hlegible : s.Legible options)
    (hsurface : options.docs → Later true s.metadata.surface) :
    statements (render (p.emitted options)) = codeLines (p.emitted options) := by
  have hlaid := laid_of_plan h hlegible
  have hemitted : Laid (p.emitted options) ∧ Commented (p.emitted options) := by
    unfold Plan.emitted
    split
    · next hdocs =>
      have hsigs := hlegible.flat hdocs
      exact ⟨hlaid, Clean.commented ((clean_lines_of_plan h fun sig hsig => (hsigs sig hsig).1).2
        ⟨hsurface hdocs, fun sig hsig => (hsigs sig hsig).2, hlegible.path.bare⟩)⟩
    · refine ⟨hlaid.withoutDocs, fun l hl hdoc => ?_⟩
      have hnot := (List.mem_filter.1 hl).2
      rw [hdoc] at hnot
      cases hnot
  rw [statements_render hemitted.1 hemitted.2.clear, hemitted.2.flatMap_told]

/-- What the text of a module tells, with what the surface brings along. -/
theorem entries_of_plan (h : (s.plan names).1 = .ok p) (hlegible : s.Legible options) :
    entries (statements (render (p.emitted options))) =
      ofNames (s.brings options) (s.assigned names) := by
  obtain ⟨hassigned, hnamed⟩ := methods_of_plan h
  cases hdocs : options.docs with
  | false =>
    have hstatements := statements_of_plan h hlegible fun hdocs' => by
      rw [hdocs] at hdocs'
      cases hdocs'
    rw [hstatements, entries_codeLines, Plan.entries_emitted hnamed, hassigned, brings, hdocs]
    rfl
  | true =>
    have hsigs := hlegible.flat hdocs
    have hinline := inline_of_plan h fun sig hsig => (hsigs sig hsig).1
    have hmetadata := metadata_of_plan h
    have htypes : ∀ m ∈ p.methods, ∀ ty ∈ m.types, Flat ty := by
      have hall : ∀ types ∈ p.methods.map PlannedMethod.types, ∀ ty ∈ types, Flat ty := by
        rw [types_of_plan h]
        exact List.forall_mem_map.2 fun sig hsig => List.forall_mem_map.2 (hsigs sig hsig).2
      exact fun m hm => hall _ (List.mem_map_of_mem hm)
    have hcapped : Capped p.metadata.surface := by
      rw [hmetadata]
      exact hlegible.capped hdocs
    have hclear := Plan.clear_lines hlegible.path hcapped hinline htypes (by
      rw [hmetadata]
      exact hlegible.rows hdocs)
    have hemitted : p.emitted options = p.lines options := by
      rw [Plan.emitted, hdocs]
      rfl
    rw [hemitted, statements_render (laid_of_plan h hlegible) hclear,
      Plan.entries_told hlegible.path hcapped hinline htypes hnamed, hassigned, hmetadata, brings,
      hdocs]
    rfl

end Surface

end ImportBinding
