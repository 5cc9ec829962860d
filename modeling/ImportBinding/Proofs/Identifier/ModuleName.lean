/-
  ImportBinding — names of modules.

  The name of a module has the characters of its container's name as small letters, with a `_`
  where a word starts.  A `_` that stands there already need not be looked for: what precedes the
  start of a word is a letter or a digit.

  * `Opens` says where a word starts, and `moduleChars_cons` what stands there in the name;
  * `written` writes the name from left to right and does look; `getLast?_written` is what makes
    that idle: what was written last is what was read last;
  * `written_append`: the name of what is left goes behind what is written;
  * `usable_moduleName_iff`: which containers give a module with a usable name.
-/
import ImportBinding.Proofs.Identifier
import Mathlib

namespace ImportBinding

namespace ModuleName

variable {prev next : Option Char} {c : Char} {cs out : List Char} {i : Nat}

/-! ## Words -/

/-- A word starts at `c`, which stands between `prev` and `next`: it is a capital, behind a small
    letter or a digit, or behind a capital and in front of a small letter. -/
def Opens (prev : Option Char) (c : Char) (next : Option Char) : Prop :=
  c.isUpper ∧ ∃ p ∈ prev, p.isLower ∨ p.isDigit ∨ p.isUpper ∧ ∃ n ∈ next, n.isLower

theorem opensWord_iff : opensWord prev c next = true ↔ Opens prev c next := by
  cases prev <;> cases next <;> simp [opensWord, Opens, or_assoc]

theorem toLower_eq_underscore_iff : c.toLower = '_' ↔ c = '_' := by
  by_cases hc : c.isUpper
  · have hlower : c.toLower.isLower := by simp [Char.isAlpha, hc]
    constructor
    · intro h
      rw [h] at hlower
      exact absurd hlower (by decide)
    · rintro rfl
      exact absurd hc (by decide)
  · rw [Char.toLower_eq_of_not_isUpper hc]

/-- A word starts with a letter, and behind a letter or a digit. -/
theorem Opens.apart (h : Opens prev c next) :
    prev.map Char.toLower ≠ some '_' ∧ c.toLower ≠ '_' := by
  obtain ⟨hc, p, hp, hprev⟩ := h
  constructor
  · rw [Option.mem_def.1 hp, Option.map_some]
    intro heq
    obtain rfl := toLower_eq_underscore_iff.1 (Option.some.inj heq)
    exact absurd hprev (by simp)
  · rw [ne_eq, toLower_eq_underscore_iff]
    rintro rfl
    exact absurd hc (by decide)

/-! ## Characters of the name -/

/-- What stands in front of a character. -/
def wordBreak (prev : Option Char) (c : Char) (next : Option Char) : List Char :=
  if opensWord prev c next then ['_'] else []

theorem wordBreak_of_opens (h : Opens prev c next) : wordBreak prev c next = ['_'] :=
  if_pos (opensWord_iff.2 h)

theorem wordBreak_of_not_opens (h : ¬ Opens prev c next) : wordBreak prev c next = [] :=
  if_neg (mt opensWord_iff.1 h)

theorem eq_of_mem_wordBreak {d : Char} (h : d ∈ wordBreak prev c next) : d = '_' := by
  unfold wordBreak at h
  split at h
  · exact List.mem_singleton.1 h
  · cases h

theorem moduleChars_cons : moduleChars prev (c :: cs) =
    wordBreak prev c cs.head? ++ c.toLower :: moduleChars (some c) cs := by
  rw [moduleChars, wordBreak]
  split <;> rfl

theorem toList_moduleName {s : String} : (moduleName s).toList = moduleChars none s.toList :=
  String.toList_ofList

theorem forall_mem_moduleChars {q : Char → Prop} (hq : q '_') :
    (∀ d ∈ moduleChars prev cs, q d) ↔ ∀ d ∈ cs, q d.toLower := by
  induction cs generalizing prev with
  | nil => simp [moduleChars]
  | cons c cs ih =>
    have hbreak : ∀ d ∈ wordBreak prev c cs.head?, q d := fun d hd => eq_of_mem_wordBreak hd ▸ hq
    rw [moduleChars_cons, List.forall_mem_append, List.forall_mem_cons, List.forall_mem_cons, ih]
    exact and_iff_right hbreak

theorem isUpper_of_mem_moduleChars : ∀ d ∈ moduleChars prev cs, d.isUpper = false :=
  (forall_mem_moduleChars (q := fun d => d.isUpper = false) rfl).2 fun d _ =>
    Char.isUpper_toLower_eq_false d

/-- But for `_` the name has the characters of the container's name. -/
theorem filter_moduleChars :
    (moduleChars prev cs).filter (· ≠ '_') = (cs.map Char.toLower).filter (· ≠ '_') := by
  induction cs generalizing prev with
  | nil => rfl
  | cons c cs ih =>
    have hbreak : (wordBreak prev c cs.head?).filter (· ≠ '_') = [] :=
      List.filter_eq_nil_iff.2 fun d hd => by simp [eq_of_mem_wordBreak hd]
    rw [moduleChars_cons, List.filter_append, hbreak, List.nil_append, List.map_cons,
      List.filter_cons, List.filter_cons, ih]

/-- No word starts in small letters. -/
theorem moduleChars_eq_self (h : ∀ d ∈ cs, d.isUpper = false) : moduleChars prev cs = cs := by
  induction cs generalizing prev with
  | nil => rfl
  | cons c cs ih =>
    obtain ⟨hc, hrest⟩ := List.forall_mem_cons.1 h
    have hopens : ¬ Opens prev c cs.head? := fun h => absurd h.1 (by simp [hc])
    rw [moduleChars_cons, wordBreak_of_not_opens hopens, ih hrest, List.nil_append,
      Char.toLower_eq_of_not_isUpper (by simp [hc])]

/-! ## Writing -/

/-- A character is written behind `out`, with a `_` in front when a word starts at it and no `_`
    stands there already. -/
def write (out : List Char) (prev : Option Char) (c : Char) (next : Option Char) : List Char :=
  if c.isUpper then
    (if opensWord prev c next && out.getLast? != some '_' then out ++ ['_'] else out) ++ [c.toLower]
  else out ++ [c]

/-- What is written for the first `i` characters. -/
def written (cs : List Char) : Nat → List Char
  | 0 => []
  | i + 1 =>
    match cs[i]? with
    | some c => write (written cs i) (cs.take i).getLast? c cs[i + 1]?
    | none => written cs i

/-- The `_` of a word is always written, as long as what was written last is what was read last. -/
theorem write_eq (h : out.getLast? = prev.map Char.toLower) :
    write out prev c next = out ++ (wordBreak prev c next ++ [c.toLower]) := by
  unfold write
  by_cases hopens : Opens prev c next
  · -- a letter or a digit was read last, so no `_` was written last
    have hlast : (out.getLast? != some '_') = true := bne_iff_ne.2 (h ▸ hopens.apart.1)
    simp [hopens.1, opensWord_iff.2 hopens, hlast, wordBreak_of_opens hopens]
  · have hword : opensWord prev c next = false := by
      simpa using mt opensWord_iff.1 hopens
    rw [wordBreak_of_not_opens hopens, hword]
    split
    · rfl
    · next hc => rw [Char.toLower_eq_of_not_isUpper hc, List.nil_append]

theorem getLast?_written : (written cs i).getLast? = (cs.take i).getLast?.map Char.toLower := by
  induction i with
  | zero => simp [written]
  | succ i ih =>
    rw [written, List.take_add_one]
    cases cs[i]? with
    | none => simpa using ih
    | some c => simp [write_eq ih]

theorem written_succ (h : cs[i]? = some c) : written cs (i + 1) =
    written cs i ++ (wordBreak (cs.take i).getLast? c cs[i + 1]? ++ [c.toLower]) := by
  rw [written, h]
  exact write_eq getLast?_written

/-- The name of what is left goes behind what is written. -/
theorem written_append :
    written cs i ++ moduleChars (cs.take i).getLast? (cs.drop i) = moduleChars none cs := by
  induction i with
  | zero => simp [written]
  | succ i ih =>
    rw [← ih]
    cases hc : cs[i]? with
    | none =>
      have hlen : cs.length ≤ i := List.getElem?_eq_none_iff.1 hc
      rw [written, hc, List.drop_eq_nil_of_le hlen, List.drop_eq_nil_of_le (Nat.le_succ_of_le hlen)]
      simp [moduleChars]
    | some c =>
      have hdrop : cs.drop i = c :: cs.drop (i + 1) := by
        obtain ⟨hlt, rfl⟩ := List.getElem?_eq_some_iff.1 hc
        exact List.drop_eq_getElem_cons hlt
      have hlast : (cs.take (i + 1)).getLast? = some c := by simp [List.take_add_one, hc]
      rw [written_succ hc, hdrop, moduleChars_cons, List.head?_drop, hlast]
      simp

theorem written_length : written cs cs.length = moduleChars none cs := by
  simpa [moduleChars] using @written_append cs cs.length

/-! ## Usable names -/

theorem isStart_toLower_iff : Identifier.isStart c.toLower ↔ c.isAlpha ∨ c = '_' := by
  simp [Identifier.isStart, toLower_eq_underscore_iff, or_comm]

theorem isPart_toLower_iff : Identifier.isPart c.toLower ↔ c.isAlpha ∨ c.isDigit ∨ c = '_' := by
  by_cases hc : c.isUpper
  · simp [Identifier.isPart, Char.isAlphanum, Char.isAlpha, hc]
  · simp [Char.toLower_eq_of_not_isUpper hc, Identifier.isPart, Char.isAlphanum, or_comm, or_assoc]

/-- No word starts at the first character, which nothing precedes. -/
theorem head?_moduleChars : (moduleChars none cs).head? = cs.head?.map Char.toLower := by
  cases cs with
  | nil => rfl
  | cons c cs =>
    have hopens : ¬ Opens none c cs.head? := by simp [Opens]
    rw [moduleChars_cons, wordBreak_of_not_opens hopens]
    rfl

/-- A container gives a usable name when its own is made like one, unless a word comes out that
    is no name; `Self` never comes out. -/
theorem usable_moduleName_iff {s : String} : Identifier.Usable (moduleName s) ↔
    (∃ c ∈ s.toList.head?, c.isAlpha ∨ c = '_') ∧
      (∀ c ∈ s.toList, c.isAlpha ∨ c.isDigit ∨ c = '_') ∧
      moduleName s ∉ ["_", "crate", "self", "super"] := by
  have hself : moduleName s ≠ "Self" := by
    intro h
    have hS : 'S' ∈ moduleChars none s.toList := by simp [← toList_moduleName, h]
    exact absurd (isUpper_of_mem_moduleChars 'S' hS) (by decide)
  have hword : moduleName s ∉ Identifier.unusable ↔
      moduleName s ∉ ["_", "crate", "self", "super"] := by
    simp [Identifier.unusable, hself]
  rw [Identifier.usable_iff, hword, toList_moduleName, head?_moduleChars,
    forall_mem_moduleChars (by decide)]
  simp [isStart_toLower_iff, isPart_toLower_iff]

/-- The name of a module has no capital, and but for `_` it is the container's name in small
    letters.  It is written from left to right, each character with a `_` in front iff a word
    starts at it; that `_` never comes to stand next to another.  A module that is named after a
    module has the same name.  The name can be spelled iff the container's name starts with a
    letter or `_`, is made of letters, digits and `_`, and what comes out is none of four words;
    and names that can be spelled are told by their spelling. -/
theorem moduleName_exact (s : String) :
    (∀ c ∈ (moduleName s).toList, ¬ c.isUpper) ∧
    (moduleName s).toList.filter (· ≠ '_') = s.toLower.toList.filter (· ≠ '_') ∧
    (moduleName s = .ofList (written s.toList s.toList.length) ∧ ∀ i c, s.toList[i]? = some c →
      (Opens (s.toList.take i).getLast? c s.toList[i + 1]? →
        written s.toList (i + 1) = written s.toList i ++ ['_', c.toLower] ∧
        (written s.toList i).getLast? ≠ some '_' ∧ c.toLower ≠ '_') ∧
      (¬ Opens (s.toList.take i).getLast? c s.toList[i + 1]? →
        written s.toList (i + 1) = written s.toList i ++ [c.toLower])) ∧
    moduleName (moduleName s) = moduleName s ∧
    ((∃ name, Identifier.spell (moduleName s) = .ok name) ↔
      (∃ c ∈ s.toList.head?, c.isAlpha ∨ c = '_') ∧
        (∀ c ∈ s.toList, c.isAlpha ∨ c.isDigit ∨ c = '_') ∧
        moduleName s ∉ ["_", "crate", "self", "super"]) ∧
    ∀ a b name, Identifier.spell a = .ok name → Identifier.spell b = .ok name → a = b := by
  refine ⟨fun c hc => ?_, ?_, ⟨?_, fun i c hc => ⟨fun hopens => ?_, fun hopens => ?_⟩⟩, ?_, ?_, ?_⟩
  · rw [isUpper_of_mem_moduleChars c (toList_moduleName ▸ hc)]
    exact Bool.false_ne_true
  · rw [toList_moduleName, filter_moduleChars, String.toLower, String.toList_map]
  · rw [written_length, moduleName]
  · have hlast : (written s.toList i).getLast? ≠ some '_' := by
      rw [getLast?_written]
      exact hopens.apart.1
    exact ⟨by rw [written_succ hc, wordBreak_of_opens hopens]; rfl, hlast, hopens.apart.2⟩
  · rw [written_succ hc, wordBreak_of_not_opens hopens, List.nil_append]
  · rw [moduleName, toList_moduleName, moduleChars_eq_self isUpper_of_mem_moduleChars]
    rfl
  · rw [← usable_moduleName_iff]
    simp [Identifier.spell_eq_ok_iff]
  · intro a b name ha hb
    obtain ⟨ha, hname⟩ := Identifier.spell_eq_ok_iff.1 ha
    obtain ⟨hb, hname'⟩ := Identifier.spell_eq_ok_iff.1 hb
    exact (Identifier.raw_inj ha hb).1 (hname.symm.trans hname')

example : moduleName "HTTPClient2Go_Fast" = "http_client2_go_fast" := by decide

end ModuleName

end ImportBinding
