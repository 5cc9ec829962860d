/-
  ImportBinding — sibling surfaces are independent.

  Several surfaces are generated one after another, and the only thing that one hands on to the
  next is that its module's name is given away, if it got a module.

  * `Judged` is what becomes of an input after the results before it;
  * `Owns` ties the owners of modules to the results so far, `Owns.step` says that one more
    input keeps it, and `Owns.judged` and `Owns.append_generateFrom` follow a whole run;
  * `generateFrom_kept`: the inputs that succeed have the same results without the others;
  * `generateAll_independent` puts this together, for the results and for the file.
-/
import ImportBinding.Proofs.Source.Module

namespace ImportBinding

open Source

/-! ## One input -/

/-- The result of an input when `owners` tells which surfaces own which modules. -/
def resultOf (options : Options) (owners : List (String × String)) :
    Except Rejection Surface → Except Rejection Generated
  | .error rejection => .error rejection
  | .ok s => generateOne options owners s

/-- The owners of modules after one more result: a rejected surface owns nothing. -/
def ownersAfter (owners : List (String × String)) :
    Except Rejection Generated → List (String × String)
  | .ok g => (g.module, g.surface) :: owners
  | .error _ => owners

/-- What becomes of an input after the results `earlier`.  A rejection stays as it is; a surface
    whose module went to another names that one; every other surface gets what it would get
    alone, with no name assigned before. -/
def Judged (options : Options) (earlier : List (Except Rejection Generated)) :
    Except Rejection Surface → Except Rejection Generated → Prop
  | .error rejection, result => result = .error rejection
  | .ok s, result =>
    (∀ g, .ok g ∈ earlier → g.module = s.module →
      result = .error (.duplicateModule s.metadata.surface s.module g.surface)) ∧
    ((∀ g, .ok g ∈ earlier → g.module ≠ s.module) →
      result = (s.generate options .empty).1.map fun source =>
        { surface := s.metadata.surface, module := s.module, source })

variable {options : Options} {owners : List (String × String)}
  {earlier : List (Except Rejection Generated)}

theorem generateFrom_cons (x : Except Rejection Surface) (rest : List (Except Rejection Surface)) :
    generateFrom options owners (x :: rest) = resultOf options owners x ::
      generateFrom options (ownersAfter owners (resultOf options owners x)) rest := by
  cases x with
  | error rejection => rfl
  | ok s =>
    rw [generateFrom, resultOf]
    cases generateOne options owners s <;> rfl

theorem length_generateFrom (surfaces : List (Except Rejection Surface)) : ∀ owners,
    (generateFrom options owners surfaces).length = surfaces.length := by
  induction surfaces with
  | nil => intro owners; rfl
  | cons x rest ih => intro owners; rw [generateFrom_cons, List.length_cons, ih, List.length_cons]

/-- A surface that gets its module alone gets it if nobody owns the name. -/
theorem resultOf_eq_ok_iff {x : Except Rejection Surface} {g : Generated} :
    resultOf options owners x = .ok g ↔ ∃ s, x = .ok s ∧ owners.lookup s.module = none ∧
      (s.generate options .empty).1 = .ok g.source ∧ g.surface = s.metadata.surface ∧
      g.module = s.module := by
  cases x with
  | error rejection => exact ⟨nofun, fun ⟨_, h, _⟩ => nomatch h⟩
  | ok s =>
    rw [resultOf, generateOne]
    cases hlookup : owners.lookup s.module with
    | some other =>
      refine ⟨nofun, ?_⟩
      rintro ⟨s', hs, hnone, -⟩
      obtain rfl := Except.ok.inj hs
      rw [hlookup] at hnone
      cases hnone
    | none =>
      refine Except.map_eq_ok_iff.trans ⟨?_, ?_⟩
      · rintro ⟨source, hsource, rfl⟩
        exact ⟨s, rfl, hlookup, hsource, rfl, rfl⟩
      · rintro ⟨s', hs, -, hsource, hsurface, hmodule⟩
        obtain rfl := Except.ok.inj hs
        refine ⟨g.source, hsource, ?_⟩
        rw [← hsurface, ← hmodule]

/-! ## Owners -/

/-- Two results that are not both modules of one name. -/
def Separate (r r' : Except Rejection Generated) : Prop :=
  ∀ g g', r = .ok g → r' = .ok g' → g.module ≠ g'.module

/-- `owners` tells of each module among the results the surface that got it, and of no other
    module; and no two of the modules have one name. -/
structure Owns (owners : List (String × String)) (earlier : List (Except Rejection Generated)) :
    Prop where
  owner : ∀ {g}, .ok g ∈ earlier → owners.lookup g.module = some g.surface
  owned : ∀ {module surface}, owners.lookup module = some surface →
    ∃ g, .ok g ∈ earlier ∧ g.module = module
  separate : earlier.Pairwise Separate

namespace Owns

theorem start : Owns [] [] where
  owner := fun h => absurd h (by simp)
  owned := fun h => nomatch h
  separate := .nil

theorem lookup_eq_none_iff (h : Owns owners earlier) {module : String} :
    owners.lookup module = none ↔ ∀ g, .ok g ∈ earlier → g.module ≠ module := by
  constructor
  · rintro hnone g hg rfl
    rw [h.owner hg] at hnone
    cases hnone
  · intro hfree
    cases hlookup : owners.lookup module with
    | none => rfl
    | some surface =>
      obtain ⟨g, hg, hmodule⟩ := h.owned hlookup
      exact absurd hmodule (hfree g hg)

theorem judged_resultOf (h : Owns owners earlier) (x : Except Rejection Surface) :
    Judged options earlier x (resultOf options owners x) := by
  cases x with
  | error rejection => rfl
  | ok s =>
    refine ⟨fun g hg hmodule => ?_, fun hfree => ?_⟩
    · rw [resultOf, generateOne, ← hmodule, h.owner hg]
    · rw [resultOf, generateOne, h.lookup_eq_none_iff.2 hfree]

/-- One more input keeps owners and results in agreement. -/
theorem step (h : Owns owners earlier) (x : Except Rejection Surface) :
    Owns (ownersAfter owners (resultOf options owners x))
      (earlier ++ [resultOf options owners x]) := by
  cases hresult : resultOf options owners x with
  | error rejection =>
    refine ⟨fun hg => ?_, fun hlookup => ?_, ?_⟩
    · exact h.owner (by simpa using hg)
    · obtain ⟨g, hg, hmodule⟩ := h.owned hlookup
      exact ⟨g, List.mem_append_left _ hg, hmodule⟩
    · exact List.pairwise_append.2 ⟨h.separate, List.pairwise_singleton _ _,
        fun r _ r' hr' g g' _ hg' => by cases (List.mem_singleton.1 hr') ▸ hg'⟩
  | ok g =>
    obtain ⟨s, -, hlookup, -, -, hmodule⟩ := resultOf_eq_ok_iff.1 hresult
    rw [← hmodule] at hlookup
    have hfree := h.lookup_eq_none_iff.1 hlookup
    refine ⟨fun {g'} hg' => ?_, fun {module surface} howner => ?_, ?_⟩
    · rw [ownersAfter, List.lookup_cons]
      rcases List.mem_append.1 hg' with hg' | hg'
      · rw [beq_eq_false_iff_ne.2 (hfree g' hg')]
        exact h.owner hg'
      · obtain rfl := Except.ok.inj (List.mem_singleton.1 hg')
        rw [beq_self_eq_true]
    · rw [ownersAfter, List.lookup_cons] at howner
      by_cases he : module = g.module
      · exact ⟨g, List.mem_append_right _ (List.mem_singleton_self _), he.symm⟩
      · rw [beq_eq_false_iff_ne.2 he] at howner
        obtain ⟨g', hg', hmodule'⟩ := h.owned howner
        exact ⟨g', List.mem_append_left _ hg', hmodule'⟩
    · refine List.pairwise_append.2 ⟨h.separate, List.pairwise_singleton _ _, ?_⟩
      rintro r hr r' hr' g₁ g₂ rfl rfl
      obtain rfl := Except.ok.inj (List.mem_singleton.1 hr')
      exact hfree g₁ hr

/-- A whole run keeps owners and results in agreement. -/
theorem append_generateFrom (surfaces : List (Except Rejection Surface)) : ∀ {owners earlier},
    Owns owners earlier →
    ∃ owners', Owns owners' (earlier ++ generateFrom options owners surfaces) := by
  induction surfaces with
  | nil =>
    intro owners earlier h
    exact ⟨owners, by rwa [generateFrom, List.append_nil]⟩
  | cons x rest ih =>
    intro owners earlier h
    rw [generateFrom_cons, List.append_cons]
    exact ih (h.step x)

/-- Every input of a run is judged by the results before it. -/
theorem judged (surfaces : List (Except Rejection Surface)) : ∀ {owners earlier},
    Owns owners earlier → ∀ {i x}, surfaces[i]? = some x →
    ∃ r, (generateFrom options owners surfaces)[i]? = some r ∧
      Judged options (earlier ++ (generateFrom options owners surfaces).take i) x r := by
  induction surfaces with
  | nil => intro owners earlier h i x hi; simp at hi
  | cons y rest ih =>
    intro owners earlier h i x hi
    rw [generateFrom_cons]
    cases i with
    | zero =>
      obtain rfl := Option.some.inj hi
      exact ⟨_, rfl, by simpa using h.judged_resultOf y⟩
    | succ i =>
      obtain ⟨r, hr, hjudged⟩ := ih (h.step y) hi
      refine ⟨r, hr, ?_⟩
      rwa [List.take_succ_cons, List.append_cons]

end Owns

/-- Every module comes from an input, and is what that surface gets alone. -/
theorem exists_of_mem_generateFrom {g : Generated} (surfaces : List (Except Rejection Surface)) :
    ∀ {owners}, .ok g ∈ generateFrom options owners surfaces →
    ∃ s : Surface, (s.generate options .empty).1 = .ok g.source ∧ g.module = s.module := by
  induction surfaces with
  | nil => intro owners hg; simp [generateFrom] at hg
  | cons x rest ih =>
    intro owners hg
    rw [generateFrom_cons] at hg
    rcases List.mem_cons.1 hg with hg | hg
    · obtain ⟨s, -, -, hsource, -, hmodule⟩ := resultOf_eq_ok_iff.1 hg.symm
      exact ⟨s, hsource, hmodule⟩
    · exact ih hg

/-! ## Names of modules -/

/-- Reads the name of a module, from the line that opens it. -/
def Source.module? (text : String) : Option String :=
  (after? "pub mod " text).map leading

/-- The modules that lines of source declare, by their identifiers. -/
def Source.modulesIn (lines : List Line) : List String :=
  scan (outermost module?) [] lines

/-- The lines of a plan declare its module and no other. -/
theorem Plan.modulesIn_emitted {p : Plan} (h : Spelled p.module) :
    modulesIn (p.emitted options) = [p.module] := by
  have hname : leading (p.module ++ " \x7b") = p.module := by
    have := @leading_append p.module " \x7b" h (by decide) ""
    rwa [String.append_empty] at this
  have hopening : module? ("pub mod " ++ p.module ++ " \x7b") = some p.module := by
    rw [module?, String.append_assoc, after_append, Option.map_some, hname]
  have hclosing : module? "\x7d" = none := by decide
  rw [modulesIn, p.scan_emitted, Plan.lines, scan_doc, scan_outermost_block, hopening, hclosing]
  rfl

/-- What is generated for a surface declares one module, spelled by the surface's module. -/
theorem Surface.modulesIn_of_generate {s : Surface} {names : Naming} {source : String}
    (h : (s.generate options names).1 = .ok source) : Identifier.Usable s.module ∧
      ∃ lines, source = render lines ∧ modulesIn lines = [Identifier.raw s.module] := by
  obtain ⟨p, hp, rfl⟩ := generate_eq_ok_iff.1 h
  obtain ⟨husable, hmodule⟩ := module_of_plan hp
  rw [← hmodule]
  exact ⟨husable, _, rfl, Plan.modulesIn_emitted (spelled_of_plan hp)⟩

/-! ## Inputs that succeed -/

/-- The inputs whose results, `results`, are modules. -/
def kept (surfaces : List (Except Rejection Surface))
    (results : List (Except Rejection Generated)) : List (Except Rejection Surface) :=
  ((surfaces.zip results).filter fun x => x.2.isOk).map Prod.fst

/-- The inputs that get a module among all of `surfaces`. -/
def succeeding (options : Options) (surfaces : List (Except Rejection Surface)) :
    List (Except Rejection Surface) :=
  kept surfaces (generateAll options surfaces)

theorem generateFrom_kept (surfaces : List (Except Rejection Surface)) : ∀ owners,
    generateFrom options owners (kept surfaces (generateFrom options owners surfaces)) =
      (generateFrom options owners surfaces).filter Except.isOk := by
  induction surfaces with
  | nil => intro owners; rfl
  | cons x rest ih =>
    intro owners
    rw [generateFrom_cons]
    cases hresult : resultOf options owners x with
    | error rejection => exact ih owners
    | ok g =>
      have hkept (results : List (Except Rejection Generated)) :
          kept (x :: rest) (.ok g :: results) = x :: kept rest results := rfl
      rw [hkept, generateFrom_cons, hresult, ih]
      rfl

theorem generateAll_succeeding (surfaces : List (Except Rejection Surface)) :
    generateAll options (succeeding options surfaces) =
      (generateAll options surfaces).filter Except.isOk :=
  generateFrom_kept surfaces []

/-! ## Files -/

/-- What a result leaves in a file: the name of a module, or a rejection. -/
def File.trace : Except Rejection Generated → String ⊕ Rejection
  | .ok g => .inl g.module
  | .error rejection => .inr rejection

theorem File.modules_ofResults (digest : Option String)
    (results : List (Except Rejection Generated)) :
    (results.map trace).filterMap Sum.getLeft? = (ofResults digest results).modules := by
  simp only [ofResults, List.map_filterMap, List.filterMap_map]
  refine List.filterMap_congr fun r _ => ?_
  cases r <;> rfl

theorem File.errors_ofResults (digest : Option String)
    (results : List (Except Rejection Generated)) :
    (results.map trace).filterMap Sum.getRight? = (ofResults digest results).errors := by
  rw [ofResults, List.filterMap_map]
  refine List.filterMap_congr fun r _ => ?_
  cases r <;> rfl

/-- The results that are modules make the same file, without rejections. -/
theorem File.ofResults_filter_isOk (digest : Option String)
    (results : List (Except Rejection Generated)) :
    ofResults digest (results.filter Except.isOk) =
      { ofResults digest results with errors := [] } := by
  have hok : (results.filter Except.isOk).filterMap Except.toOption =
      results.filterMap Except.toOption := by
    rw [List.filterMap_filter]
    refine List.filterMap_congr fun r _ => ?_
    cases r <;> rfl
  have herror : (results.filter Except.isOk).filterMap rejection? = [] := by
    rw [List.filterMap_filter]
    refine List.filterMap_eq_nil_iff.2 fun r _ => ?_
    cases r <;> rfl
  rw [ofResults, ofResults, hok, herror]

/-- The modules of a file are spelled differently, when no two have one name and each has a
    usable one. -/
theorem File.nodup_raw_modules {results : List (Except Rejection Generated)}
    (digest : Option String) (hseparate : results.Pairwise Separate)
    (husable : ∀ g, .ok g ∈ results → Identifier.Usable g.module) :
    ((ofResults digest results).modules.map Identifier.raw).Nodup := by
  rw [ofResults, List.Nodup, List.pairwise_map, List.pairwise_map, List.pairwise_filterMap]
  refine (List.Pairwise.and_mem.1 hseparate).imp ?_
  rintro r r' ⟨hr, hr', hne⟩ g hg g' hg' hraw
  obtain rfl := Except.toOption_eq_some_iff.1 hg
  obtain rfl := Except.toOption_eq_some_iff.1 hg'
  exact hne g g' rfl rfl ((Identifier.raw_inj (husable g hr) (husable g' hr')).1 hraw)

/-- Several surfaces are generated each on its own.  There is one result for each input, in
    order, and it is the one that the input has to have after the results before it.  No two
    results are modules of one name, each module declares itself under its own name and nothing
    else beside it, and the identifiers in a file are different ones.  The file of the inputs
    that succeed is the same but for the rejections, of which it has none; and the modules and
    the rejections of a file are all that the results leave, each in their order. -/
theorem generateAll_independent (options : Options) (digest : Option String)
    (surfaces : List (Except Rejection Surface)) :
    let results := generateAll options surfaces
    let file := File.generate options digest surfaces
    results.length = surfaces.length ∧
    (∀ i x, surfaces[i]? = some x →
      ∃ r, results[i]? = some r ∧ Judged options (results.take i) x r) ∧
    results.Pairwise Separate ∧
    (∀ g, .ok g ∈ results →
      ∃ lines, g.source = render lines ∧ modulesIn lines = [Identifier.raw g.module]) ∧
    (file.modules.map Identifier.raw).Nodup ∧
    File.generate options digest (succeeding options surfaces) = { file with errors := [] } ∧
    (results.map File.trace).filterMap Sum.getLeft? = file.modules ∧
    (results.map File.trace).filterMap Sum.getRight? = file.errors := by
  intro results file
  have hlength : results.length = surfaces.length := length_generateFrom surfaces []
  have hjudged : ∀ i x, surfaces[i]? = some x →
      ∃ r, results[i]? = some r ∧ Judged options (results.take i) x r :=
    fun i x hi => Owns.start.judged surfaces hi
  have hrun : ∃ owners, Owns owners results := Owns.start.append_generateFrom surfaces
  obtain ⟨owners, howns⟩ := hrun
  refine ⟨hlength, hjudged, howns.separate, fun g hg => ?_, ?_, ?_,
    File.modules_ofResults digest results, File.errors_ofResults digest results⟩
  · obtain ⟨s, hsource, hmodule⟩ := exists_of_mem_generateFrom surfaces hg
    rw [hmodule]
    exact (Surface.modulesIn_of_generate hsource).2
  · refine File.nodup_raw_modules digest howns.separate fun g hg => ?_
    obtain ⟨s, hsource, hmodule⟩ := exists_of_mem_generateFrom surfaces hg
    rw [hmodule]
    exact (Surface.modulesIn_of_generate hsource).1
  · rw [File.generate, generateAll_succeeding]
    exact File.ofResults_filter_isOk digest results

end ImportBinding
