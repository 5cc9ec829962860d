/-
  ImportBinding — what generated modules say.

  Each part of a module is written by a loop of its own over the methods, or by none.  A part
  is read here as a whole, and the parts together.

  * `scan_typeLines`, `scan_slotsLines`, `scan_cellLines` and `scan_forwarderLines` are what
    the parts say;
  * `Plan.emitted` are the lines of a module, and `Plan.source_eq` says that the source is
    their text;
  * `Plan.entries_emitted`: what the lines of a module say, documentation aside.
-/
import ImportBinding.Proofs.Source.Entry
import ImportBinding.Proofs.Source.Scan
import ImportBinding.Source.Module

namespace ImportBinding

namespace Source

open Entry

variable {m : PlannedMethod} {ms : List PlannedMethod} {runtime : Runtime} {surface : String}

/-! ## Parts of a module -/

/-- The lines of a module in front of all that is written of its methods. -/
def preambleLines (importParent required : Bool) (surface : String) : List Line :=
  [code "#![allow(non_snake_case, non_camel_case_types, dead_code, unused_imports)]", .empty] ++
  (if importParent then [code "use super::*;", .empty] else []) ++
  [code ("pub const SURFACE_NAME: &str = " ++ Text.quote surface ++ ";"),
    code ("pub const REQUIRED: bool = " ++ (if required then "true" else "false") ++ ";")]

theorem read_brace : Entry.read [] "\x7d" = none := by decide

theorem rooted_typeLines (surface : String) (m : PlannedMethod) :
    Rooted (typeLines surface m) := rfl

theorem rooted_forwarderLines (runtime : Runtime) (surface : String) (m : PlannedMethod) :
    Rooted (forwarderLines runtime surface m) := rfl

theorem scan_preamble (importParent required : Bool) (surface : String) :
    scan Entry.read [] (preambleLines importParent required surface) =
      [constant "SURFACE_NAME", constant "REQUIRED"] := by
  have hallow : Entry.read []
      "#![allow(non_snake_case, non_camel_case_types, dead_code, unused_imports)]" = none := by
    decide
  have huse : Entry.read [] "use super::*;" = none := by decide
  have hname (rest : String) : Entry.read [] ("pub const SURFACE_NAME: &str = " ++ rest) =
      some (constant "SURFACE_NAME") :=
    @item_append "pub const " "SURFACE_NAME" ": &str = " _ _ (by simp [kinds]) (by decide)
      (by decide) (by decide) rest
  have hrequired (rest : String) : Entry.read [] ("pub const REQUIRED: bool = " ++ rest) =
      some (constant "REQUIRED") :=
    @item_append "pub const " "REQUIRED" ": bool = " _ _ (by simp [kinds]) (by decide) (by decide)
      (by decide) rest
  rw [preambleLines]
  cases importParent with
  | false =>
    simp only [Bool.false_eq_true, if_false, List.cons_append, List.nil_append, rooted_empty,
      rooted_code, rooted_nil, scan_code, scan_empty, scan_nil, String.append_assoc, hallow, hname,
      hrequired]
    rfl
  | true =>
    simp only [if_true, List.cons_append, List.nil_append, rooted_empty, rooted_code, rooted_nil,
      scan_code, scan_empty, scan_nil, String.append_assoc, hallow, huse, hname, hrequired]
    rfl

theorem scan_typeLines (h : m.Named) :
    scan Entry.read [] (typeLines surface m) = [callable m.typeName] := by
  have htext : "pub type " ++ m.typeName ++ " = " ++ m.slotType ++ ";" =
      "pub type " ++ m.typeName ++ " = " ++ (m.slotType ++ ";") := by
    simp only [String.append_assoc]
  have hcallable (rest : String) : Entry.read [] ("pub type " ++ m.typeName ++ " = " ++ rest) =
      some (callable m.typeName) :=
    item_append (by simp [kinds]) rfl h.spelled_typeName (by decide) rest
  rw [typeLines, scan_empty, scan_doc, scan_code _ rooted_nil, scan_nil, htext, hcallable]
  rfl

theorem scan_forwarderLines (h : m.Named) :
    scan Entry.read [] (forwarderLines runtime surface m) =
      [function (Identifier.raw m.name),
        forwarder (Identifier.raw m.name) m.name (Identifier.raw m.name)] := by
  obtain ⟨results, hopening⟩ : ∃ results, "pub fn " ++ m.ident ++ "(" ++ m.parameterList ++
      ") -> ::core::result::Result<" ++ m.returns.getD "()" ++ ", " ++ runtime.item "ImportError" ++
      "> \x7b" = "pub fn " ++ m.ident ++ "(" ++ results :=
    ⟨m.parameterList ++ (") -> ::core::result::Result<" ++ (m.returns.getD "()" ++ (", " ++
      (runtime.item "ImportError" ++ "> \x7b")))), by simp only [String.append_assoc]⟩
  have hfunction : Entry.read [] ("pub fn " ++ m.ident ++ "(" ++ results) =
      some (function m.ident) :=
    item_append (by simp [kinds]) rfl h.spelled_ident (by decide) results
  simp only [forwarderLines, List.cons_append, List.nil_append, scan_empty, scan_doc]
  rw [scan_block, scan_code _ rooted_nil, hopening, hfunction, read_forwarder h, read_brace,
    h.ident]
  rfl

/-- A function of the cell calls nothing of a slot. -/
theorem read_call (item call : String) : Entry.read [item] ("self::IMPORTS." ++ call) = none :=
  read_eq_none_of_text (after_eq_none (by decide) call)
    (after_eq_none (by decide) call) (after_eq_none (by decide) call)

theorem scan_cellLines (required : Bool) : scan Entry.read [] (cellLines runtime required) =
    [constant "IMPORTS", function "load", function "is_imported", function "import_state",
      function "attach"] := by
  have himports (rest : String) : Entry.read [] ("static IMPORTS: " ++ rest) =
      some (constant "IMPORTS") :=
    @item_append "static " "IMPORTS" ": " _ _ (by simp [kinds]) (by decide) (by decide)
      (by decide) rest
  have hload (rest : String) : Entry.read []
      ("pub fn load() -> ::core::result::Result<(), " ++ rest) = some (function "load") :=
    @item_append "pub fn " "load" "() -> ::core::result::Result<(), " _ _ (by simp [kinds])
      (by decide) (by decide) (by decide) rest
  have hstate (rest : String) : Entry.read [] ("pub fn import_state() -> " ++ rest) =
      some (function "import_state") :=
    @item_append "pub fn " "import_state" "() -> " _ _ (by simp [kinds]) (by decide) (by decide)
      (by decide) rest
  have himported : Entry.read [] "pub fn is_imported() -> bool \x7b" =
      some (function "is_imported") := by decide
  have hattach : Entry.read [] "pub fn attach<R>(bind: impl FnOnce(&mut Slots) -> R) -> R \x7b" =
      some (function "attach") := by decide
  have hclosing : Entry.read [] ");" = none := by decide
  have hmeta (rest text : String) : Entry.read ["static IMPORTS: " ++ rest] text = none :=
    read_eq_none_of_item (after_eq_none (by decide) rest) (after_eq_none (by decide) rest)
      (after_eq_none (by decide) rest)
  have hcalls (item : String) : Entry.read [item] "self::IMPORTS.load()" = none ∧
      Entry.read [item] "self::IMPORTS.is_imported()" = none ∧
      Entry.read [item] "self::IMPORTS.state()" = none ∧
      Entry.read [item] "self::IMPORTS.attach(bind)" = none :=
    ⟨read_call item "load()", read_call item "is_imported()", read_call item "state()",
      read_call item "attach(bind)"⟩
  simp only [cellLines, Rooted.scan_append, rooted_empty, rooted_doc, rooted_nil, rooted_block,
    rooted_code, scan_empty, scan_doc, scan_nil, scan_block, scan_code, String.append_assoc,
    himports, hload, hstate, himported, hattach, hclosing, hmeta, hcalls, read_brace]
  rfl

theorem scan_holder (h : ∀ m ∈ ms, m.Named) :
    scan Entry.read [] (block "pub struct Slots \x7b" (ms.map slotLine) "\x7d") =
      holder "Slots" :: (ms.map PlannedMethod.name).map fun name =>
        slot (Identifier.raw name) (name ++ "Fn") := by
  have hholder : Entry.read [] "pub struct Slots \x7b" = some (holder "Slots") := by
    decide
  have hslots : scan (fun inner => Entry.read ("pub struct Slots \x7b" :: inner)) []
      (ms.map slotLine) = ms.map fun m => slot (Identifier.raw m.name) (m.name ++ "Fn") :=
    scan_map fun m hm => ⟨_, rfl, read_slot (h m hm)⟩
  rw [scan_block, hholder, hslots, read_brace, List.map_map]
  exact List.append_nil _

theorem scan_unresolved (h : ∀ m ∈ ms, m.Named) :
    scan Entry.read [] (block "impl Slots \x7b"
      (block "pub const UNRESOLVED: Self = Self \x7b" (ms.map emptySlotLine) "\x7d;") "\x7d") =
        (ms.map PlannedMethod.name).map fun name => initial (Identifier.raw name) := by
  have himpl : Entry.read [] "impl Slots \x7b" = none := by decide
  have hconst : Entry.read ["impl Slots \x7b"] "pub const UNRESOLVED: Self = Self \x7b" = none := by
    decide
  have hclosing : Entry.read ["impl Slots \x7b"] "\x7d;" = none := by decide
  have hinitial : scan (fun inner => Entry.read ("impl Slots \x7b" ::
      "pub const UNRESOLVED: Self = Self \x7b" :: inner)) [] (ms.map emptySlotLine) =
        ms.map fun m => initial (Identifier.raw m.name) :=
    scan_map fun m hm => ⟨_, rfl, read_initial (h m hm)⟩
  rw [scan_block, scan_block, himpl, hconst, hclosing, read_brace, hinitial, List.map_map]
  exact (List.append_nil _).trans (List.append_nil _)

theorem scan_table {item : String} (hitem : OpensTable item) (h : ∀ m ∈ ms, m.Named) :
    scan Entry.read [] (block item ([namesLine ms, .empty] ++
      block "fn resolution(&self) -> ::std::vec::Vec<bool> \x7b" [resolutionLine ms] "\x7d")
        "\x7d") =
      [names (ms.map PlannedMethod.name),
        resolution ((ms.map PlannedMethod.name).map Identifier.raw)] := by
  have hopening : Entry.read [] item = none := by
    obtain ⟨rest, rfl⟩ := hitem.exists_append
    exact item_eq_none (by decide) rest
  have hresolution : Entry.read [item]
      "fn resolution(&self) -> ::std::vec::Vec<bool> \x7b" = none :=
    read_eq_none_of_text (by decide) (by decide) (by decide)
  have hclosing : Entry.read [item] "\x7d" = none :=
    read_eq_none_of_text (by decide) (by decide) (by decide)
  rw [scan_block, List.cons_append, namesLine, scan_code _ (by simp), List.cons_append, scan_empty,
    List.nil_append, scan_block, resolutionLine, scan_code _ rooted_nil]
  rw [hopening, read_names hitem h, hresolution, read_resolution hitem h, hclosing, read_brace]
  rfl

theorem scan_slotsLines (h : ∀ m ∈ ms, m.Named) :
    let assigned := ms.map PlannedMethod.name
    scan Entry.read [] (slotsLines runtime ms) = [holder "Slots"] ++
      assigned.map (fun name => slot (Identifier.raw name) (name ++ "Fn")) ++
      assigned.map (fun name => initial (Identifier.raw name)) ++
      [names assigned, resolution (assigned.map Identifier.raw)] := by
  have hderive : Entry.read [] "#[derive(Clone, Copy, Default)]" = none := by decide
  have htable : OpensTable ("impl " ++ runtime.item "SlotTable" ++ " for Slots \x7b") := by
    rw [OpensTable]
    simp only [String.toList_append]
    exact ⟨(List.prefix_append _ _).trans (List.prefix_append _ _), List.suffix_append _ _⟩
  simp only [slotsLines, Rooted.scan_append, rooted_empty, rooted_block, rooted_nil, scan_empty,
    scan_doc, scan_code, scan_nil, hderive, scan_holder h, scan_unresolved h, scan_table htable h]
  rfl

/-! ## Modules -/

/-- What the lines of a module declare and say, in their order. -/
def entries (lines : List Line) : List Entry :=
  scan Entry.readInside [] lines

theorem entries_codeLines (lines : List Line) : entries (codeLines lines) = entries lines :=
  scan_codeLines lines []

theorem flatMap_empty {α β : Type} (xs : List α) : xs.flatMap (fun _ => ([] : List β)) = [] :=
  List.flatMap_eq_nil_iff.2 fun _ _ => rfl

/-- What a module says that has slots of these names, when `found` stands in front of each type
    of callables and of each function that forwards. -/
def Entry.ofNames (found : List Entry) (assigned : List String) : List Entry :=
  [constant "SURFACE_NAME", constant "REQUIRED"] ++
  assigned.flatMap (fun name => found ++ [callable (name ++ "Fn")]) ++
  [holder "Slots"] ++
  assigned.map (fun name => slot (Identifier.raw name) (name ++ "Fn")) ++
  assigned.map (fun name => initial (Identifier.raw name)) ++
  [names assigned, resolution (assigned.map Identifier.raw)] ++
  [constant "IMPORTS", function "load", function "is_imported", function "import_state",
    function "attach"] ++
  assigned.flatMap fun name => found ++
    [function (Identifier.raw name), forwarder (Identifier.raw name) name (Identifier.raw name)]

end Source

open Source Entry

/-- The parts of a module, in their order. -/
theorem Plan.lines_eq (options : Options) (p : Plan) : p.lines options =
    doc ("Import surface `" ++ p.metadata.surface ++ "` (" ++ policy p.metadata.required ++ ").") ::
    block ("pub mod " ++ p.module ++ " \x7b")
      (preambleLines options.importParent p.metadata.required p.metadata.surface ++
        p.methods.flatMap (typeLines p.metadata.surface) ++
        slotsLines options.runtime p.methods ++
        cellLines options.runtime p.metadata.required ++
        p.methods.flatMap (forwarderLines options.runtime p.metadata.surface))
      "\x7d" := rfl

/-- The lines that are written of a planned module. -/
def Plan.emitted (options : Options) (p : Plan) : List Line :=
  if options.docs then p.lines options else withoutDocs (p.lines options)

theorem Plan.source_eq (options : Options) (p : Plan) :
    p.source options = render (p.emitted options) := rfl

theorem Surface.generate_eq_ok_iff {options : Options} {s : Surface} {names : Naming}
    {source : String} : (s.generate options names).1 = .ok source ↔
      ∃ p, (s.plan names).1 = .ok p ∧ source = render (p.emitted options) := by
  refine (Except.map_eq_ok_iff (x := (s.plan names).1) (f := Plan.source options)).trans ?_
  simp only [Plan.source_eq, eq_comm]

/-- The module of a plan is named by an identifier. -/
theorem Surface.spelled_of_plan {s : Surface} {names : Naming} {p : Plan}
    (h : (s.plan names).1 = .ok p) : Spelled p.module := by
  obtain ⟨husable, hraw⟩ := module_of_plan h
  rw [hraw]
  exact husable.spelled_raw

/-- The code of a method is written inside the module. -/
theorem Plan.code_mem_emitted {options : Options} {p : Plan} {m : PlannedMethod} {depth : Nat}
    {text : String} (h : m ∈ p.methods)
    (hcode : .code depth text ∈ typeLines p.metadata.surface m ++
      forwarderLines options.runtime p.metadata.surface m) :
    .code (depth + 1) text ∈ p.emitted options := by
  have hmodule : Line.code (depth + 1) text ∈ p.lines options := by
    refine List.mem_cons_of_mem _ (List.mem_cons_of_mem _ (List.mem_append_left _ ?_))
    refine List.mem_map.2 ⟨.code depth text, ?_, rfl⟩
    rcases List.mem_append.1 hcode with htype | hforwarder
    · refine List.mem_append_left _ (List.mem_append_left _ (List.mem_append_left _ ?_))
      exact List.mem_append_right _ (List.mem_flatMap.2 ⟨m, h, htype⟩)
    · exact List.mem_append_right _ (List.mem_flatMap.2 ⟨m, h, hforwarder⟩)
  unfold Plan.emitted
  split
  · exact hmodule
  · exact List.mem_filter.2 ⟨hmodule, rfl⟩

/-- What is read of a module does not depend on its documentation. -/
theorem Plan.scan_emitted {α : Type} (read : List String → String → Option α)
    (scope : List String) (options : Options) (p : Plan) :
    scan read scope (p.emitted options) = scan read scope (p.lines options) := by
  unfold Plan.emitted
  split
  · rfl
  · exact scan_filter (p := (!·.isDoc)) (fun _ _ => rfl) _ _

theorem Plan.entries_emitted {options : Options} {p : Plan} (h : ∀ m ∈ p.methods, m.Named) :
    entries (p.emitted options) = Entry.ofNames [] (p.methods.map PlannedMethod.name) := by
  have hdocs : entries (p.emitted options) = entries (p.lines options) :=
    p.scan_emitted readInside [] options
  have hinside (opening : String) : (fun inner => readInside (opening :: inner)) = Entry.read := rfl
  have htypes := rooted_flatMap p.methods (rooted_typeLines p.metadata.surface)
  have hforwarders :=
    rooted_flatMap p.methods (rooted_forwarderLines options.runtime p.metadata.surface)
  have hslots : Rooted (slotsLines options.runtime p.methods) := rfl
  have hcells : Rooted (cellLines options.runtime p.metadata.required) := rfl
  rw [hdocs, entries, Plan.lines_eq]
  simp only [scan_doc, scan_block, hinside, htypes.scan_append, hforwarders.scan_append,
    hslots.scan_append, hcells.scan_append]
  rw [scan_preamble, scan_flatMap (rooted_typeLines _) fun m hm => scan_typeLines (h m hm),
    scan_slotsLines h, scan_cellLines,
    scan_flatMap (rooted_forwarderLines _ _) fun m hm => scan_forwarderLines (h m hm)]
  simp only [readInside, Option.toList_none, List.nil_append, List.append_nil,
    PlannedMethod.typeName, Entry.ofNames, List.flatMap_map, List.append_assoc]

end ImportBinding
