/-
  ImportBinding — the segments of a text.

  Behind each slash of a text stands a segment, which goes up to the next slash or to the end.

  * `Pointer.spelled` writes segments, and `Pointer.segments_append_flatMap`: they are found again
    behind anything without a slash;
  * `Pointer.tokens?_eq_some_iff`: the texts that have tokens are those of segments.
-/
import ImportBinding.Json.Pointer
import ImportBinding.Proofs.Text.Whole

namespace ImportBinding.Json.Pointer

variable {s : List Char} {segs segs' : List (List Char)}

/-- The text with the given segments behind its slashes. -/
def spelled (segs : List (List Char)) : String :=
  .ofList (segs.flatMap ('/' :: ·))

/-- The token that a segment spells. -/
def token (seg : List Char) : String :=
  .ofList (unescape seg)

theorem segments_append_flatMap (hs : '/' ∉ s) (hsegs : ∀ seg ∈ segs, '/' ∉ seg) :
    segments (s ++ segs.flatMap ('/' :: ·)) = s :: segs := by
  induction segs generalizing s with
  | nil => rw [List.flatMap_nil, List.append_nil, segments_of_notMem hs]
  | cons seg rest ih =>
    obtain ⟨hseg, hrest⟩ := List.forall_mem_cons.1 hsegs
    rw [List.flatMap_cons, List.cons_append, segments_append hs, ih hseg hrest]

theorem segments_spelled (h : ∀ seg ∈ segs, '/' ∉ seg) :
    segments (spelled segs).toList = [] :: segs := by
  rw [spelled, String.toList_ofList]
  exact segments_append_flatMap List.not_mem_nil h

theorem flatMap_segments (s : List Char) : (segments s).flatMap ('/' :: ·) = '/' :: s := by
  induction s with
  | nil => rfl
  | cons c rest ih =>
    obtain ⟨first, more, hsegs⟩ := List.exists_cons_of_ne_nil (List.splitOnP_ne_nil (· == '/') rest)
    rw [segments, hsegs, List.flatMap_cons, List.cons_append, List.cons_inj_right] at ih
    rw [segments, List.splitOnP_cons_eq_if_modifyHead, hsegs]
    split
    · next hc =>
      rw [beq_iff_eq.1 hc, List.flatMap_cons, List.flatMap_cons, List.cons_append, List.cons_append,
        List.nil_append, ih]
    · rw [List.modifyHead_cons, List.flatMap_cons, List.cons_append, List.cons_append, ih]

/-- The texts that have tokens are those of segments without slashes. -/
theorem tokens?_eq_some_iff {text : String} {p : Pointer} : tokens? text = some p ↔
    ∃ segs, (∀ seg ∈ segs, '/' ∉ seg) ∧ text = spelled segs ∧ p = segs.map token := by
  constructor
  · intro h
    unfold tokens? at h
    split at h
    · next hs => exact ⟨[], nofun, String.toList_inj.1 hs, (Option.some.inj h).symm⟩
    · next c rest hs =>
      split at h
      · next hc =>
        subst hc
        refine ⟨segments rest, fun seg hseg => Text.notMem_of_mem_splitOn hseg, ?_,
          (Option.some.inj h).symm⟩
        rw [← String.toList_inj, spelled, String.toList_ofList, flatMap_segments, hs]
      · cases h
  · rintro ⟨segs, hsegs, rfl, rfl⟩
    rw [tokens?, spelled, String.toList_ofList]
    rcases segs with - | ⟨seg, rest⟩
    · rfl
    · obtain ⟨hseg, hrest⟩ := List.forall_mem_cons.1 hsegs
      rw [List.flatMap_cons, List.cons_append]
      simp only [if_true, segments_append_flatMap hseg hrest]
      rfl

/-- A text is told by its segments. -/
theorem spelled_inj (h : ∀ seg ∈ segs, '/' ∉ seg) (h' : ∀ seg ∈ segs', '/' ∉ seg) :
    spelled segs = spelled segs' ↔ segs = segs' := by
  refine ⟨fun he => ?_, congrArg spelled⟩
  have hsegs := segments_spelled h
  rw [he, segments_spelled h'] at hsegs
  exact (List.cons.inj hsegs).2.symm

end ImportBinding.Json.Pointer
