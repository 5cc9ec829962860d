/-
  ImportBinding — words that stand by themselves.

  A word stands by itself in a text when no character of its class is next to it.

  * `mem_splitOnP_iff`: the pieces of a text are what stands between two of its separators;
  * `Whole`: a word stands by itself, and `mem_runs_iff`: the runs of a class are the words that
    do;
  * `whole_iff`: to stand by itself in a wider class is to have, besides, none of its characters
    next to it.
-/
import ImportBinding.Proofs.Text.Blank
import Mathlib.Data.List.Basic

namespace ImportBinding.Text

/-! ## Pieces -/

section

variable {α : Type} {q : α → Bool} {s w : List α}

/-- The first separator of a list with what stands before and behind it, if there is one. -/
theorem exists_first_separator (q : α → Bool) (s : List α) : (∀ c ∈ s, q c = false) ∨
    ∃ first c rest, s = first ++ c :: rest ∧ (∀ d ∈ first, q d = false) ∧ q c = true := by
  induction s with
  | nil => exact Or.inl nofun
  | cons c s ih =>
    by_cases hc : q c = true
    · exact Or.inr ⟨[], c, s, rfl, nofun, hc⟩
    · have hc : q c = false := Bool.eq_false_iff.2 hc
      rcases ih with hs | ⟨first, d, rest, rfl, hfirst, hd⟩
      · exact Or.inl (List.forall_mem_cons.2 ⟨hc, hs⟩)
      · exact Or.inr ⟨c :: first, d, rest, rfl, List.forall_mem_cons.2 ⟨hc, hfirst⟩, hd⟩

/-- The pieces of a list are what has no separator in it and stands between two of them, or
    between one of them and an end. -/
theorem mem_splitOnP_iff : w ∈ s.splitOnP q ↔ (∀ c ∈ w, q c = false) ∧
    ∃ before after, s = before ++ (w ++ after) ∧ (∀ c ∈ before.getLast?, q c = true) ∧
      ∀ c ∈ after.head?, q c = true := by
  constructor
  · intro h
    induction hn : s.length using Nat.strongRecOn generalizing s with
    | ind n ih =>
      rcases exists_first_separator q s with hs | ⟨first, c, rest, rfl, hfirst, hc⟩
      · rw [List.splitOnP_eq_singleton hs, List.mem_singleton] at h
        subst h
        exact ⟨hs, [], [], by simp, nofun, nofun⟩
      · rw [List.splitOnP_append_cons first rest hc, List.splitOnP_eq_singleton hfirst,
          List.singleton_append, List.mem_cons] at h
        rcases h with rfl | h
        · refine ⟨hfirst, [], c :: rest, rfl, nofun, ?_⟩
          rintro d hd
          exact Option.some.inj hd ▸ hc
        · have hlt : rest.length < n := by
            rw [← hn, List.length_append, List.length_cons]
            omega
          obtain ⟨hw, before, after, rfl, hbefore, hafter⟩ := ih _ hlt h rfl
          refine ⟨hw, first ++ c :: before, after, by simp, fun d hd => ?_, hafter⟩
          rcases before.eq_nil_or_concat' with rfl | ⟨before, e, rfl⟩
          · simp only [List.getLast?_append, List.getLast?_singleton, Option.some_or,
              Option.mem_some_iff] at hd
            exact hd ▸ hc
          · refine hbefore d ?_
            simpa [List.getLast?_append, List.getLast?_cons] using hd
  · rintro ⟨hw, before, after, rfl, hbefore, hafter⟩
    -- what stands before the word, and what stands behind it, are split off at the separators
    have hfront : w ∈ (w ++ after).splitOnP q := by
      rcases after with - | ⟨d, after⟩
      · rw [List.append_nil, List.splitOnP_eq_singleton hw]
        exact List.mem_singleton_self w
      · rw [List.splitOnP_append_cons w after (hafter d rfl), List.splitOnP_eq_singleton hw]
        exact List.mem_cons_self
    rcases before.eq_nil_or_concat' with rfl | ⟨before, d, rfl⟩
    · exact hfront
    · rw [List.append_assoc, List.singleton_append, List.splitOnP_append_cons _ _
        (hbefore d (by simp))]
      exact List.mem_append_right _ hfront

theorem notMem_of_mem_splitOn [BEq α] [LawfulBEq α] {c : α} (h : w ∈ s.splitOn c) : c ∉ w :=
  fun hc => by simpa using (mem_splitOnP_iff.1 h).1 c hc

end

/-! ## Words -/

variable {p wide : Char → Bool} {word text : String}

/-- What stands before and behind a word does not go on with characters of the class `p`. -/
def Apart (p : Char → Bool) (before after : List Char) : Prop :=
  (∀ c ∈ before.getLast?, p c = false) ∧ ∀ c ∈ after.head?, p c = false

/-- The word stands somewhere in the text without a character of the class `p` next to it. -/
def Whole (p : Char → Bool) (word text : String) : Prop :=
  ∃ before after, text.toList = before ++ (word.toList ++ after) ∧ Apart p before after

/-- The word stands somewhere in the text without a character of the class `p` next to it, but
    with one of the class `wide`. -/
def Embedded (p wide : Char → Bool) (word text : String) : Prop :=
  ∃ before after, text.toList = before ++ (word.toList ++ after) ∧ Apart p before after ∧
    ¬ Apart wide before after

theorem Apart.mono {before after : List Char} (hwide : ∀ c, p c → wide c)
    (h : Apart wide before after) : Apart p before after := by
  have hnot (c : Char) (hc : wide c = false) : p c = false := by
    by_contra hp
    rw [hwide c (by simpa using hp)] at hc
    cases hc
  exact ⟨fun c hc => hnot c (h.1 c hc), fun c hc => hnot c (h.2 c hc)⟩

/-- The runs of a class are the words of it that stand by themselves. -/
theorem mem_runs_iff : word ∈ runs p text ↔
    word ≠ "" ∧ (∀ c ∈ word.toList, p c) ∧ Whole p word text := by
  have hword : word ∈ runs p text ↔ word.toList ∈ text.toList.splitOnP (!p ·) ∧ word ≠ "" := by
    rw [runs, List.mem_map]
    constructor
    · rintro ⟨cs, hcs, rfl⟩
      rw [List.mem_filter] at hcs
      simpa using hcs
    · rintro ⟨hmem, hne⟩
      exact ⟨word.toList, by simpa [List.mem_filter] using ⟨hmem, hne⟩, by simp⟩
  rw [hword, mem_splitOnP_iff]
  simp only [Bool.not_eq_false', Bool.not_eq_true', Whole, Apart]
  rw [and_comm]

/-- A word that stands by itself in a class does so in a wider one too, or has a character of
    that next to it. -/
theorem whole_iff (hwide : ∀ c, p c → wide c) :
    Whole p word text ↔ Whole wide word text ∨ Embedded p wide word text := by
  constructor
  · rintro ⟨before, after, htext, hapart⟩
    by_cases h : Apart wide before after
    · exact Or.inl ⟨before, after, htext, h⟩
    · exact Or.inr ⟨before, after, htext, hapart, h⟩
  · rintro (⟨before, after, htext, hapart⟩ | ⟨before, after, htext, hapart, -⟩)
    · exact ⟨before, after, htext, hapart.mono hwide⟩
    · exact ⟨before, after, htext, hapart⟩

end ImportBinding.Text
