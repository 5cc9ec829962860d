/-
  ImportBinding — quickfixes touch nothing else.

  What the quickfixes of a report change in a value is known from the document and its report:
  marks of the reported containers, of those around them and of their methods, and bodies of
  their methods.  The value may have anything besides, at any depth, and keeps it.

  * `Document.Edited` are the pointers at which the report asks for a change, and
    `edited_iff`: they are the targets of the document;
  * `Document.Frames` is what a value keeps when it is mended at these pointers;
  * `Document.quickfixes_frame`: a value is mended at the edited pointers and nowhere else.
-/
import ImportBinding.Proofs.Conformance.Selection
import ImportBinding.Proofs.Declaration.Resolution

namespace ImportBinding

open Json (Field Members Pointer Tree)

/-! ## Edited pointers -/

/-- The pointers that a report asks to change: the marks of reported containers, of the containers
    around them and of their methods that are not partial, and the bodies that their methods
    have. -/
inductive Document.Edited (d : Document) : Pointer → Prop where
  | around {a : Address} {around : List Place} {c : Container} {e : Place}
      (h : d.At a around c) (hr : a.ReportedIn d.check.diagnostics) (he : e ∈ around)
      (hp : e.container.isPartial = false) : Edited d (e.pointer ++ ["partial"])
  | container {a : Address} {around : List Place} {c : Container} (h : d.At a around c)
      (hr : a.ReportedIn d.check.diagnostics) (hp : c.isPartial = false) :
      Edited d (a.pointer ++ ["partial"])
  | method {a : Address} {around : List Place} {c : Container} {i : Nat} {m : Method}
      (h : d.At a around c) (hr : a.ReportedIn d.check.diagnostics)
      (hi : c.methods[i]? = some m) (hp : m.isPartial = false) :
      Edited d (childPointer a.pointer "methods" i ++ ["partial"])
  | body {a : Address} {around : List Place} {c : Container} {i : Nat} {m : Method}
      (h : d.At a around c) (hr : a.ReportedIn d.check.diagnostics)
      (hi : c.methods[i]? = some m) (hb : m.body.isSome = true) :
      Edited d (childPointer a.pointer "methods" i ++ ["body"])

namespace Document

variable {d : Document} {a : Address} {around : List Place} {c : Container} {T : Pointer}

/-- A reported container is a site. -/
theorem At.exists_site (h : d.At a around c) (hr : a.ReportedIn d.check.diagnostics) :
    ∃ s ∈ d.sites, s.pointer = a.pointer ∧ s.around = around ∧ s.container = c := by
  obtain ⟨s, hs, hp, -⟩ := reported_iff.1 hr
  obtain ⟨b, hb⟩ := exists_siteAt hs
  obtain rfl := Address.pointer_inj.1 (hb.pointer.symm.trans hp)
  obtain ⟨rfl, rfl⟩ := h.unique hb.container
  exact ⟨s, hs, hp, rfl, rfl⟩

theorem target_iff_exists_site : d.Target T ↔ ∃ s ∈ d.sites, T ∈ s.flaws.map Flaw.target := by
  rw [← mem_targets_iff, flawTargets, List.mem_flatMap]

/-- What the report asks to change are the targets of the document. -/
theorem edited_iff : d.Edited T ↔ d.Target T := by
  rw [target_iff_exists_site]
  constructor
  · intro h
    cases h with
    | around h hr he hp =>
      obtain ⟨s, hs, -, rfl, rfl⟩ := h.exists_site hr
      exact ⟨s, hs, mem_flaws_iff.2 (Or.inl ⟨_, he, hp, rfl⟩)⟩
    | container h hr hp =>
      obtain ⟨s, hs, hpointer, rfl, rfl⟩ := h.exists_site hr
      exact ⟨s, hs, mem_flaws_iff.2 (Or.inr (Or.inl ⟨hp, by rw [hpointer]⟩))⟩
    | method h hr hi hp =>
      obtain ⟨s, hs, hpointer, rfl, rfl⟩ := h.exists_site hr
      refine ⟨s, hs, mem_flaws_iff.2 (Or.inr (Or.inr ⟨_, _, _, hi, .notPartial hp, ?_⟩))⟩
      rw [hpointer, childPointer_append]
    | body h hr hi hb =>
      obtain ⟨s, hs, hpointer, rfl, rfl⟩ := h.exists_site hr
      refine ⟨s, hs, mem_flaws_iff.2 (Or.inr (Or.inr ⟨_, _, _, hi, .body hb, ?_⟩))⟩
      rw [hpointer, childPointer_append]
  · rintro ⟨s, hs, hT⟩
    obtain ⟨a, ha⟩ := exists_siteAt hs
    have hr : a.ReportedIn d.check.diagnostics :=
      reported_iff.2 ⟨s, hs, ha.pointer, Site.flaws_ne_nil_of_target hT⟩
    rcases mem_flaws_iff.1 hT with ⟨e, he, hp, rfl⟩ | ⟨hp, rfl⟩ | ⟨i, m, q, hi, hq, rfl⟩
    · exact .around ha.container hr he hp
    · rw [ha.pointer]
      exact .container ha.container hr hp
    · rw [ha.pointer, ← childPointer_append]
      cases hq with
      | notPartial hp => exact .method ha.container hr hi hp
      | body hb => exact .body ha.container hr hi hb

/-- On the way to a pointer that could be edited nothing is selected. -/
theorem spares_of_editPath {S : Selection} (hS : ∀ T, S T = true ↔ d.Edited T) {p : Pointer}
    {last : String} (hp : Patch.EditPath (p ++ [last])) : S.Spares p := by
  intro q _ hq
  refine Bool.eq_false_of_not_eq_true fun hs => hp.not_of_isPrefix hq ?_
  exact (edited_iff.1 ((hS q).1 hs)).editPath

theorem spares_of_not_isPrefix {S : Selection} (hS : ∀ T, S T = true ↔ d.Edited T) {p : Pointer}
    (hp : ∀ T, d.Edited T → ¬ T <+: p) : S.Spares p :=
  fun q _ hq => Bool.eq_false_of_not_eq_true fun hs => hp q ((hS q).1 hs) hq

end Document

/-! ## Edited records -/

/-- The record of a target is an object, when no record in array form is in the way. -/
theorem Document.Target.exists_located {D : Nat} {d : Document} {v : Json} {p : Pointer}
    {last : String} (hT : d.Target (p ++ [last])) (hv : v.Addressable)
    (hr : Document.read D (.ofJson v) = .ok d) (hm : ¬ v.MeetsArray (p ++ [last])) :
    ∃ ms : Members, v.Located p (.object ms) := by
  obtain ⟨u', he, -⟩ := hT.exists_edits (S := fun _ => false) (fun _ => rfl) hv hm
    (by rw [d.mend_empty, hr])
  obtain ⟨p', last', ms, hp, hlocated⟩ := he.exists_located
  obtain ⟨rfl, -⟩ := List.append_inj' hp rfl
  exact ⟨ms, hlocated⟩

/-- An address is the way to an edit. -/
theorem Address.editPath (a : Address) : Patch.EditPath (a.pointer ++ ["partial"]) := by
  induction a with
  | nil => exact .setPartial
  | cons i rest ih => exact .item (Or.inl rfl) ih

/-- A container that is partial says so in the object it is read from. -/
theorem Container.find?_partial {D : Nat} {ms : Members} {c : Container} (hs : ms.Sorted)
    (hr : Container.read D (.ofJson (.object ms)) = .ok c) (hp : c.isPartial = true) :
    ms.find? "partial" = some (.bool true) := by
  obtain ⟨D, rfl⟩ := exists_read_succ hr
  obtain ⟨-, hpartial, -⟩ := (read_object_iff hs).1 hr
  rw [Field.Holds, Field.orElse, hp] at hpartial
  split at hpartial
  · cases hpartial
  · next v hv =>
    cases v with
    | bool b =>
      obtain rfl : b = true := Except.ok.inj hpartial
      exact hv
    | _ => cases hpartial

/-! ## Frames -/

/-- The value `w` has what `v` has, but for what the report asks to change: lists keep their
    lengths, objects their other keys, and what neither leads to an edited pointer nor lies behind
    one is the same. -/
structure Document.Frames (d : Document) (v w : Json) : Prop where
  items : ∀ p us, (∀ T, d.Edited T → ¬ T <+: p) → v.Located p (.array us) →
    ∃ us', w.Located p (.array us') ∧ us'.length = us.length
  keys : ∀ p, ∀ ms : Members, (∀ T, d.Edited T → ¬ T <+: p) → v.Located p (.object ms) →
    ∃ ms' : Members, w.Located p (.object ms') ∧
      ∀ k, ¬ d.Edited (p ++ [k]) → (ms'.find? k).isSome = (ms.find? k).isSome
  others : ∀ p x, (∀ T, d.Edited T → ¬ T <+: p ∧ ¬ p <+: T) → (w.Located p x ↔ v.Located p x)

namespace Document

variable {d : Document} {v : Json} {S : Selection}

/-- A value that is mended at the edited pointers keeps the rest. -/
theorem frames_mend (hv : v.Addressable) (hS : ∀ T, S T = true ↔ d.Edited T) :
    d.Frames v (v.mend S) where
  items := by
    intro p us hp hlocated
    have hmended := hlocated.mend hv (spares_of_not_isPrefix hS hp)
    rw [Json.mend_array] at hmended
    exact ⟨_, hmended, List.length_mapIdx⟩
  keys := by
    intro p ms hp hlocated
    have hmended := hlocated.mend hv (spares_of_not_isPrefix hS hp)
    rw [Json.mend] at hmended
    refine ⟨_, hmended, fun k hk => ?_⟩
    have hkept : S.below p [k] = false :=
      Bool.eq_false_of_not_eq_true fun hs => hk ((hS (p ++ [k])).1 hs)
    rw [(hlocated.addressable hv).sorted.find?_mend hkept, Option.isSome_map]
  others := by
    intro p x hp
    have hbelow : S.below p = fun _ => false := by
      funext q
      refine Bool.eq_false_of_not_eq_true fun hs => ?_
      exact (hp (p ++ q) ((hS (p ++ q)).1 hs)).2 (List.prefix_append p q)
    rw [Json.located_mend_iff hv (spares_of_not_isPrefix hS fun T hT => (hp T hT).1), hbelow]
    simp only [Json.mend_empty]
    exact exists_eq_right'

/-- In a mended value the marks that were selected are set. -/
theorem located_partial {p : Pointer} {ms : Members} (hv : v.Addressable)
    (hS : ∀ T, S T = true ↔ d.Edited T) (hpath : Patch.EditPath (p ++ ["partial"]))
    (hlocated : v.Located p (.object ms))
    (hset : d.Edited (p ++ ["partial"]) ∨ ms.find? "partial" = some (.bool true)) :
    (v.mend S).Located (p ++ ["partial"]) (.bool true) := by
  have hmended := hlocated.mend hv (spares_of_editPath hS hpath)
  have hs : ms.Sorted := (hlocated.addressable hv).sorted
  rw [Json.mend] at hmended
  refine hmended.append_singleton ?_
  rw [hs.mendMembers.find?_mendKeys, if_neg fun h => absurd h.1 (by decide), Json.find?_mendMembers]
  rcases hset with hset | hset
  · rw [if_pos ⟨rfl, (hS _).2 hset⟩]
  · rw [hset]
    exact ite_self _

/-- In a mended value the bodies that were selected are gone. -/
theorem located_body {p : Pointer} {ms : Members} (hv : v.Addressable)
    (hS : ∀ T, S T = true ↔ d.Edited T) (hset : d.Edited (p ++ ["body"]))
    (hlocated : v.Located p (.object ms)) :
    ∃ ns : Members, (v.mend S).Located p (.object ns) ∧ ns.find? "body" = none := by
  have hpath := (edited_iff.1 hset).editPath
  have hmended := hlocated.mend hv (spares_of_editPath hS hpath)
  have hs : ms.Sorted := (hlocated.addressable hv).sorted
  rw [Json.mend] at hmended
  refine ⟨_, hmended, ?_⟩
  rw [hs.mendMembers.find?_mendKeys, if_pos ⟨rfl, (hS _).2 hset⟩]

/-- When all quickfixes of a report succeed, the value is mended at the pointers that the report
    asks to change and at no others.  There the marks are set and the bodies gone; the mark of a
    reported container that was partial before is set too, unless it or a record around it has
    array form.  All else is as it was. -/
theorem quickfixes_frame {D n : Nat} {w : Json} (hv : v.Addressable)
    (hr : read D (.ofJson v) = .ok d) (h : d.check.applyQuickfixes v = (w, .ok n)) :
    (∃ S : Selection, (∀ T, S T = true ↔ d.Edited T) ∧ w = v.mend S) ∧
    (∀ p, d.Edited (p ++ ["partial"]) →
      Patch.lookup (Pointer.text (p ++ ["partial"])) w = .ok (.bool true)) ∧
    (∀ p, d.Edited (p ++ ["body"]) → ∃ ms : Members,
      Patch.lookup p.text w = .ok (.object ms) ∧ ms.find? "body" = none) ∧
    (∀ a around c, d.At a around c → a.ReportedIn d.check.diagnostics →
      ¬ v.MeetsArray (a.pointer ++ ["partial"]) →
      Patch.lookup (Pointer.text (a.pointer ++ ["partial"])) w = .ok (.bool true)) ∧
    d.Frames v w := by
  have hmended := mended_of_ok hv hr h
  have hn : (d.check.applyQuickfixes v).2 = .ok n := by rw [h]
  have hclear : ∀ T, d.Edited T → ¬ v.MeetsArray T := fun T hT hm =>
    not_blocked_of_ok hv hr hn (blocked_check_iff.2 ⟨T, target_iff_mem_check.2 (edited_iff.1 hT), hm⟩)
  obtain ⟨S, hS, hw⟩ : ∃ S : Selection, (∀ T, S T = true ↔ d.Edited T) ∧ w = v.mend S :=
    ⟨_, fun T => by rw [edited_iff, ← mem_selectedTargets_check]; exact decide_eq_true_iff,
      hmended.value⟩
  have haddressable : (v.mend S).Addressable := hw ▸ hmended.addressable
  subst hw
  have hmarks : ∀ p, d.Edited (p ++ ["partial"]) →
      Patch.lookup (Pointer.text (p ++ ["partial"])) (v.mend S) = .ok (.bool true) := by
    intro p hp
    obtain ⟨ms, hms⟩ := (edited_iff.1 hp).exists_located hv hr (hclear _ hp)
    exact (located_partial hv hS (edited_iff.1 hp).editPath hms (Or.inl hp)).lookup_eq haddressable
  refine ⟨⟨S, hS, rfl⟩, hmarks, fun p hp => ?_, fun a around c hc ha hm => ?_, frames_mend hv hS⟩
  · obtain ⟨ms, hms⟩ := (edited_iff.1 hp).exists_located hv hr (hclear _ hp)
    obtain ⟨ns, hns, hbody⟩ := located_body hv hS hp hms
    exact ⟨ns, hns.lookup_eq haddressable, hbody⟩
  · cases hp : c.isPartial with
    | false => exact hmarks _ (.container hc ha hp)
    | true =>
      obtain ⟨D', ms, hms, -, hread⟩ := hc.exists_object hv hr _ hm
      have hset := Container.find?_partial (hms.addressable hv).sorted hread hp
      exact (located_partial hv hS a.editPath hms (Or.inr hset)).lookup_eq haddressable

end Document

namespace Noted

/-- A marked container that is partial, in one that is not: one of its methods is not partial and
    the other is implemented. -/
def document : Document :=
  ⟨"modimport.decls@0.1.0", [⟨"N", false, none, [], [⟨"A", true, some ⟨some "S", none⟩,
    [⟨"f", false, [], none, none⟩, ⟨"g", true, [], none, some (.bool true)⟩], []⟩]⟩]⟩

/-- A value of it, with a body that is null and a member that no declaration has. -/
def value : Json :=
  .object [("containers", .array [.object [("containers", .array [.object [
      ("import", .object [("surface", .string "S")]),
      ("methods", .array [.object [("body", .null), ("name", .string "f")],
        .object [("body", .bool true), ("name", .string "g"), ("partial", .bool true)]]),
      ("name", .string "A"), ("note", .object [("body", .bool true)]),
      ("partial", .bool true)]]), ("name", .string "N")]]),
    ("schema_version", .string "modimport.decls@0.1.0")]

theorem addressable_value : value.Addressable := by
  simp only [value, Json.Addressable, Json.AddressableItems, Json.AddressableMembers,
    Json.Members.Sorted]
  decide

theorem read_value : Document.read Json.maxDepth (.ofJson value) = .ok document := by
  rfl

theorem edited_iff_mem {T : Pointer} : document.Edited T ↔ T ∈ [["containers", "0", "partial"],
    ["containers", "0", "containers", "0", "methods", "0", "partial"],
    ["containers", "0", "containers", "0", "methods", "1", "body"]] := by
  rw [Document.edited_iff, ← Document.mem_targets_iff]
  exact Iff.of_eq (congrArg (T ∈ ·) (by decide +kernel))

/-- Two marks are set and a body is dropped; the null body and the note are still there. -/
theorem quickfixes_frame_value : ∃ w n, document.check.applyQuickfixes value = (w, .ok n) ∧
    Patch.lookup "/containers/0/partial" w = .ok (.bool true) ∧
    Patch.lookup "/containers/0/containers/0/methods/0/partial" w = .ok (.bool true) ∧
    (∃ ms : Members, Patch.lookup "/containers/0/containers/0/methods/1" w = .ok (.object ms) ∧
      ms.find? "body" = none) ∧
    w.Located ["containers", "0", "containers", "0", "methods", "0", "body"] .null ∧
    w.Located ["containers", "0", "containers", "0", "note"] (.object [("body", .bool true)]) := by
  have hok : (document.check.applyQuickfixes value).2.isOk = true := by decide +kernel
  have hbody : value.Located ["containers", "0", "containers", "0", "methods", "0", "body"] .null :=
    .member rfl (.item (i := 0) rfl (.member rfl (.item (i := 0) rfl
      (.member rfl (.item (i := 0) rfl (.member rfl .here))))))
  have hnote : value.Located ["containers", "0", "containers", "0", "note"]
      (.object [("body", .bool true)]) :=
    .member rfl (.item (i := 0) rfl (.member rfl (.item (i := 0) rfl (.member rfl .here))))
  cases hrun : document.check.applyQuickfixes value with
  | mk w r =>
    cases r with
    | error => rw [hrun] at hok; cases hok
    | ok n =>
      obtain ⟨-, hmarks, hbodies, -, hframes⟩ :=
        Document.quickfixes_frame addressable_value read_value hrun
      simp only [edited_iff_mem] at hmarks hbodies
      refine ⟨w, n, rfl, hmarks ["containers", "0"] (by decide),
        hmarks ["containers", "0", "containers", "0", "methods", "0"] (by decide),
        hbodies ["containers", "0", "containers", "0", "methods", "1"] (by decide),
        (hframes.others _ _ fun T hT => ?_).2 hbody, (hframes.others _ _ fun T hT => ?_).2 hnote⟩
      all_goals
        rw [edited_iff_mem] at hT
        revert T
        decide

end Noted

namespace Positional

/-- The text of a container that is not partial, around a marked one that is, in array form. -/
def text : List UInt8 :=
  Json.bytes ("\x7b\"schema_version\":\"modimport.decls@0.1.0\",\"containers\":[" ++
    "\x7b\"name\":\"N\",\"containers\":[[\"A\",true,\x7b\"surface\":\"S\"\x7d]]\x7d]\x7d")

/-- Its document. -/
def document : Document :=
  ⟨"modimport.decls@0.1.0", [⟨"N", false, none, [],
    [⟨"A", true, some ⟨some "S", none⟩, [], []⟩]⟩]⟩

/-- Its value. -/
def value : Json :=
  .object [("containers", .array [.object [("containers", .array [.array [.string "A", .bool true,
      .object [("surface", .string "S")]]]), ("name", .string "N")]]),
    ("schema_version", .string "modimport.decls@0.1.0")]

/-- What the quickfix leaves. -/
def marked : Json :=
  .object [("containers", .array [.object [("containers", .array [.array [.string "A", .bool true,
      .object [("surface", .string "S")]]]), ("name", .string "N"), ("partial", .bool true)]]),
    ("schema_version", .string "modimport.decls@0.1.0")]

set_option maxRecDepth 10000 in
theorem parse_text : Document.parse text = .ok document := by rfl

set_option maxRecDepth 10000 in
theorem ofText_text : Json.ofText text = .ok value := by rfl

/-- The quickfix of the inner container marks the outer one, and nothing gives the inner one a
    mark at its pointer. -/
theorem unmarked_inner : Document.parse text = .ok document ∧ Json.ofText text = .ok value ∧
    Address.ReportedIn [0, 0] document.check.diagnostics ∧
    ∃ w n, document.check.applyQuickfixes value = (w, .ok n) ∧
      (Patch.lookup "/containers/0/containers/0/partial" w).isOk = false := by
  refine ⟨parse_text, ofText_text, Document.reported_iff.2
    ⟨_, List.mem_cons_self, by decide +kernel, by decide +kernel⟩, ?_⟩
  have haddressable : document.Addressable := by
    simp only [document, Document.Addressable, AllAddressable, Container.Addressable]
    decide
  have hrun : document.check.applyQuickfixes value = (marked, .ok 1) := by
    rw [Report.applyQuickfixes, Report.quickfixes, Document.diagnostics_check haddressable]
    rfl
  exact ⟨marked, 1, hrun, by decide +kernel⟩

end Positional

end ImportBinding
