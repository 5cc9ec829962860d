/-
  ImportBinding — trimming.

  * `exists_trimmed`: trimming takes away blanks, and only from the ends;
  * `trim_eq_empty_iff`: nothing is left of a blank text, and of no other;
  * `runs_trim`: runs without blanks are not changed by it.
-/
import ImportBinding.Text.Blank
import Mathlib.Data.List.TakeWhile

namespace ImportBinding.Text

/-- Trimming takes away blanks at both ends. -/
theorem exists_trimmed (s : List Char) : ∃ before after, s = before ++ (trimmed s ++ after) ∧
    (∀ c ∈ before, isBlank c) ∧ ∀ c ∈ after, isBlank c := by
  have hafter := List.takeWhile_append_dropWhile (p := isBlank) (l := (s.dropWhile isBlank).reverse)
  refine ⟨s.takeWhile isBlank, ((s.dropWhile isBlank).reverse.takeWhile isBlank).reverse, ?_,
    fun c hc => List.mem_takeWhile_imp hc, fun c hc => ?_⟩
  · rw [trimmed, ← List.reverse_append, hafter, List.reverse_reverse,
      List.takeWhile_append_dropWhile]
  · exact List.mem_takeWhile_imp (List.mem_reverse.1 hc)

/-- Nothing is left of a blank text. -/
theorem trim_eq_empty_iff {s : String} : trim s = "" ↔ Blank s := by
  rw [trim, ← String.toList_inj, String.toList_ofList, String.toList_empty]
  constructor
  · intro h c hc
    obtain ⟨before, after, hs, hbefore, hafter⟩ := exists_trimmed s.toList
    rw [h, List.nil_append] at hs
    rw [hs] at hc
    rcases List.mem_append.1 hc with hc | hc
    · exact hbefore c hc
    · exact hafter c hc
  · intro h
    rw [trimmed, List.dropWhile_eq_nil_iff.2 h]
    rfl

/-! ## Runs -/

variable {p : Char → Bool}

/-- The runs of characters of a class, as characters. -/
def runsOf (p : Char → Bool) (s : List Char) : List (List Char) :=
  (s.splitOnP (!p ·)).filter (!·.isEmpty)

theorem runs_eq (s : String) : runs p s = (runsOf p s.toList).map .ofList := rfl

/-- A run ends at a character of another class. -/
theorem runsOf_append_cons (s t : List Char) {c : Char} (hc : p c = false) :
    runsOf p (s ++ c :: t) = runsOf p s ++ runsOf p t := by
  rw [runsOf, List.splitOnP_append_cons _ _ (by rw [hc]; rfl), List.filter_append]
  rfl

theorem runsOf_append_left {s : List Char} (h : ∀ c ∈ s, p c = false) (t : List Char) :
    runsOf p (s ++ t) = runsOf p t := by
  induction s with
  | nil => rfl
  | cons c rest ih =>
    obtain ⟨hc, hrest⟩ := List.forall_mem_cons.1 h
    exact (runsOf_append_cons [] (rest ++ t) hc).trans (ih hrest)

theorem runsOf_append_right {t : List Char} (h : ∀ c ∈ t, p c = false) (s : List Char) :
    runsOf p (s ++ t) = runsOf p s := by
  cases t with
  | nil => rw [List.append_nil]
  | cons c rest =>
    obtain ⟨hc, hrest⟩ := List.forall_mem_cons.1 h
    have hnone : runsOf p rest = [] := by
      have := runsOf_append_left hrest []
      rwa [List.append_nil] at this
    rw [runsOf_append_cons s rest hc, hnone, List.append_nil]

/-- Trimming changes no run without blanks. -/
theorem runs_trim (h : ∀ c, isBlank c → p c = false) (s : String) :
    runs p (trim s) = runs p s := by
  obtain ⟨before, after, hs, hbefore, hafter⟩ := exists_trimmed s.toList
  rw [runs_eq, runs_eq, trim, String.toList_ofList, hs,
    runsOf_append_left fun c hc => h c (hbefore c hc),
    runsOf_append_right fun c hc => h c (hafter c hc), ← hs]

end ImportBinding.Text
