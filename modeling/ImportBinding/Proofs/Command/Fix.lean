/-
  ImportBinding — fixing a document in place.

  A document that is fixed is printed, and what is printed is read as the repaired
  document.  Its report is clean, so fixing it again prints the same.

  * `readAll_printed`: what is printed with its last line feed is read again;
  * `Document.read_fixed`: the quickfixes of a text leave the repaired document;
  * `Command.fixed_stable` is fixing, on the bytes of a document;
  * `Command.fix_in_place` is fixing, on files.
-/
import ImportBinding.Proofs.Command.Session
import ImportBinding.Proofs.Patch.Regular
import ImportBinding.Proofs.Report.Form

namespace ImportBinding

open Json (Number Reader Regular Tree bytes)

/-! ## Printed values -/

/-- What is printed, with the line feed behind it, is read again. -/
theorem Json.readAll_printed {α : Type} {read : Reader α} (hu : Uniform read) {v : Json}
    (hv : v.Numbers Number.Plain) {a : α} (ha : read (.ofJson v) = .ok a) :
    readAll read (bytes (v.pretty ++ "\n")) = .ok a := by
  have hblank : Blanks (bytes "\n") := by
    rw [show bytes "\n" = [0x0a] by decide]
    simp [Blanks, isBlank]
  rw [bytes_append]
  refine Except.toOption_eq_some_iff.1 ?_
  rw [readAll_spells hu (spells_pretty hv) hblank, ha]
  rfl

/-- The value of a text that has whole numbers only is regular. -/
theorem Json.regular_of_ofText {text : List UInt8} {v : Json} (h : ofText text = .ok v)
    (hwhole : v.Numbers Number.Whole) : Regular Number.Plain maxDepth v := by
  have hfits : v.Numbers Number.Fits := numbers_value (fits_readValue _ _) (readAll_eq_ok h)
  obtain ⟨w, hw, rfl⟩ := content_of_ofText h
  exact Kept.regular maxDepth ⟨Numbers.and _ hwhole hfits, _, content_canonical maxDepth hw⟩
    (canonical_canonical w)

/-! ## Fixed documents -/

namespace Document

/-- The quickfixes of a text, when they succeed, leave a value that holds the repaired
    document. -/
theorem read_fixed {text : List UInt8} {d : Document} {v w : Json} {n : Nat}
    (hsize : text.length < UInt64.size) (hd : parse text = .ok d) (hv : Json.ofText text = .ok v)
    (h : d.check.applyQuickfixes v = (w, .ok n)) :
    read Json.maxDepth (.ofJson w) = .ok d.repair := by
  obtain ⟨w₀, hw₀, rfl⟩ := Json.content_of_ofText hv
  have haddressable := Json.addressable_of_read hsize hw₀
  have hread := read_value_of_parse hd hv
  have hclear := not_blocked_of_ok haddressable hread (congrArg Prod.snd h)
  obtain ⟨w', hw', hmended⟩ := (Mended.start haddressable hread).applyAll
    (fun _ => mends_of_mem_quickfixes) (fun _ => target_iff_mem_check.1) d.nodup_bodies_check
    (fun T hT hm => hclear (blocked_check_iff.2 ⟨T, hT, hm⟩))
  cases h.symm.trans hw'
  rw [hmended.reads, List.nil_append]
  refine congrArg _ (mend_eq_repair fun p => ?_)
  rw [Selection.ofList, decide_eq_true_iff]
  exact target_iff_mem_check

/-- The report of a repaired document is empty. -/
theorem check_repair (d : Document) : d.repair.check = .ofDiagnostics [] := by
  have hnil : d.repair.sites.filterMap Site.diagnostic? = [] :=
    List.perm_nil.1 (d.diagnostics_check_repair ▸ (Report.diagnostics_perm _).symm)
  rw [check, hnil]

end Document

namespace Command

theorem document_eq_ok_iff {path : String} {text : List UInt8} {d : Document} :
    document path text = .ok d ↔ Document.parse text = .ok d :=
  Except.mapError_eq_ok_iff

theorem fixed_eq_ok_iff {path : String} {text : List UInt8} {out : String} :
    fixed path text = .ok out ↔ ∃ d v w n, Document.parse text = .ok d ∧
      Json.ofText text = .ok v ∧ d.check.applyQuickfixes v = (w, .ok n) ∧ w.pretty ++ "\n" = out := by
  unfold fixed
  simp only [Except.bind_eq_ok_iff, Except.mapError_eq_ok_iff, document_eq_ok_iff]
  constructor
  · rintro ⟨d, hd, v, hv, h⟩
    split at h
    · next w n hw => cases h; exact ⟨d, v, w, n, hd, hv, hw, rfl⟩
    · cases h
  · rintro ⟨d, v, w, n, hd, hv, hw, rfl⟩
    exact ⟨d, hd, v, hv, by rw [hw]; rfl⟩

/-- What a document is fixed to is a document without flaws, and is fixed to itself. -/
theorem fixed_stable {path : String} {text : List UInt8} {out : String}
    (hsize : text.length < UInt64.size)
    (hwhole : ∀ v, Json.ofText text = .ok v → v.Numbers Number.Whole)
    (h : fixed path text = .ok out) :
    (∃ d, Document.parse (bytes out) = .ok d ∧ d.check = .ofDiagnostics []) ∧
      fixed path (bytes out) = .ok out := by
  obtain ⟨d, v, w, n, hd, hv, hw, rfl⟩ := fixed_eq_ok_iff.1 h
  have hregular : Regular Number.Plain Json.maxDepth w := by
    have hmends : ∀ q ∈ d.check.quickfixes, q.Mends := fun _ => Document.mends_of_mem_quickfixes
    have := Quickfix.regular_applyAll hmends (Json.regular_of_ofText hv (hwhole v hv))
    rwa [← Report.applyQuickfixes, hw] at this
  have hparse : Document.parse (bytes (w.pretty ++ "\n")) = .ok d.repair :=
    Document.parse_eq_ok_iff.2
      ⟨Json.readAll_printed (Document.uniform_read _) hregular.numbers
        (Document.read_fixed hsize hd hv hw), (Document.parse_eq_ok_iff.1 hd).2⟩
  have hvalue : Json.ofText (bytes (w.pretty ++ "\n")) = .ok w :=
    Json.readAll_printed (Json.uniform_value _) hregular.numbers hregular.value
  have hnone : d.repair.check.applyQuickfixes w = (w, .ok 0) := by
    rw [Report.applyQuickfixes, Report.quickfixes, d.diagnostics_check_repair]
    rfl
  exact ⟨⟨_, hparse, d.check_repair⟩,
    fixed_eq_ok_iff.2 ⟨_, w, w, 0, hparse, hvalue, hnone, rfl⟩⟩

/-! ## Files -/

variable {s s' : Session} {path : String}

/-- Fixing in place reads the file, does its work, and writes the file. -/
theorem execute_fix_eq_ok_iff : s.execute (.fix path true) = (.ok (), s') ↔
    ∃ text out w, s.workspace.read path = .ok text ∧ fixed path text = .ok out ∧
      s.workspace.write path (bytes out) = .ok w ∧ { s with workspace := w } = s' := by
  change s.perform (runFix path true) = _ ↔ _
  unfold runFix
  simp only [if_true, Session.perform_bind_eq_ok_iff, Session.perform_read, Session.perform_liftM,
    Session.perform_write, Prod.mk.injEq, Except.mapError_eq_ok_iff]
  constructor
  · rintro ⟨text, s₁, ⟨hread, rfl⟩, out, s₂, ⟨hout, rfl⟩, hwrite, hs⟩
    cases hw : s.workspace.write path (bytes out) with
    | error fault => rw [hw] at hwrite; cases hwrite
    | ok w =>
      rw [hw] at hs
      exact ⟨text, out, w, hread, hout, hw, hs⟩
  · rintro ⟨text, out, w, hread, hout, hw, rfl⟩
    exact ⟨text, s, ⟨hread, rfl⟩, out, s, ⟨hout, rfl⟩, by rw [hw]; exact ⟨rfl, rfl⟩⟩

/-- Fixing in place changes nothing when it fails. -/
theorem execute_fix_error {e : Failure} (h : s.execute (.fix path true) = (.error e, s')) :
    s' = s := by
  change s.perform (runFix path true) = _ at h
  unfold runFix at h
  rcases (Inert.read _ _).cases_error h with hs | ⟨text, h⟩
  · exact hs
  · rcases (Inert.liftM _).cases_error h with hs | ⟨out, h⟩
    · exact hs
    · simp only [if_true, Session.perform_write] at h
      cases hw : s.workspace.write path (bytes out) with
      | error fault => rw [hw] at h; cases h; rfl
      | ok w => rw [hw] at h; cases h

/-- A document without flaws is checked. -/
theorem execute_check {text : List UInt8} {d : Document} (hread : s.workspace.read path = .ok text)
    (hd : Document.parse text = .ok d) (hclean : d.check.isClean = true) :
    s.execute (.check path) =
      (.ok (), { s with output := s.output ++ (d.check.toJson.pretty ++ "\n") }) := by
  change s.perform (runCheck path) = _
  unfold runCheck
  simp only [Session.perform_bind, Session.perform_read, hread, Except.mapError_ok,
    Session.perform_liftM, document_eq_ok_iff.2 hd, Session.perform_print, hclean, Bool.not_true,
    Bool.false_eq_true, if_false]
  rfl

/-- Fixing a document in place fails and changes nothing, or it leaves a document without
    flaws that is fixed to itself.  Of the numbers in the text only whole ones are covered. -/
theorem fix_in_place {result : Except Failure Unit}
    (hsize : ∀ text, s.workspace.read path = .ok text → text.length < UInt64.size)
    (hwhole : ∀ text v, s.workspace.read path = .ok text → Json.ofText text = .ok v →
      v.Numbers Number.Whole)
    (h : s.execute (.fix path true) = (result, s')) :
    match result with
    | .error _ => s' = s
    | .ok () =>
      s'.execute (.check path) =
          (.ok (), { s' with
            output := s'.output ++ ((Report.ofDiagnostics []).toJson.pretty ++ "\n") }) ∧
        s'.execute (.fix path true) = (.ok (), s') := by
  cases result with
  | error e => exact execute_fix_error h
  | ok _ =>
    obtain ⟨text, out, w, hread, hout, hwrite, rfl⟩ := execute_fix_eq_ok_iff.1 h
    obtain ⟨⟨d, hd, hcheck⟩, hagain⟩ := fixed_stable (hsize text hread) (hwhole text · hread) hout
    have hreread : w.read path = .ok (bytes out) := Workspace.read_of_write hwrite
    have hclean : d.check.isClean = true := by
      rw [hcheck, Report.isClean, List.isEmpty_iff]
      exact List.perm_nil.1 (Report.diagnostics_perm [])
    constructor
    · rw [← hcheck]
      exact execute_check hreread hd hclean
    · exact execute_fix_eq_ok_iff.2
        ⟨bytes out, out, w, hreread, hagain, Workspace.write_of_read hreread, rfl⟩

end Command

namespace Implemented

/-- A workspace with the document in a file. -/
def session : Session :=
  { workspace := .ofFiles [] [("a.json", text)] }

set_option maxRecDepth 10000 in
theorem read_session : session.workspace.read "a.json" = .ok text := by rfl

/-- Fixing it succeeds. -/
theorem fix_in_place_session : ∃ s', session.execute (.fix "a.json" true) = (.ok (), s') ∧
    s'.execute (.check "a.json") =
        (.ok (), { s' with
          output := s'.output ++ ((Report.ofDiagnostics []).toJson.pretty ++ "\n") }) ∧
      s'.execute (.fix "a.json" true) = (.ok (), s') := by
  have hok : (session.execute (.fix "a.json" true)).1.isOk = true := by decide +kernel
  have hsize : ∀ text, session.workspace.read "a.json" = .ok text →
      text.length < UInt64.size := by
    intro text h
    cases read_session.symm.trans h
    decide +kernel
  have hwhole : ∀ text v, session.workspace.read "a.json" = .ok text →
      Json.ofText text = .ok v → v.Numbers Number.Whole := by
    intro text v h hv
    cases read_session.symm.trans h
    cases ofText_text.symm.trans hv
    simp [value, Json.Numbers, Json.NumbersItems, Json.NumbersMembers, Number.Whole]
  rcases h : session.execute (.fix "a.json" true) with ⟨e | u, s'⟩
  · rw [h] at hok
    cases hok
  · exact ⟨s', rfl, Command.fix_in_place hsize hwhole h⟩

end Implemented

end ImportBinding
