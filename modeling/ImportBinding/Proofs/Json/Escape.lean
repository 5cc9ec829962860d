/-
  ImportBinding — escapes in tokens.

  A token is spelled in two passes over it: each `~` is replaced, then each slash.  It is read
  back by two passes in the other order.  No pass makes or uses up what is meant for the other
  one, so one walk over the characters does the work of both.

  * `escape_eq` and `unescape_eq`: the walk is the two passes;
  * `Escaped`: each `~` starts an escape, and `escaped_iff`: that is so of the spelling that a
    token has by escaping it, and of no other;
  * `escaped_iff_spelled_once`: a key that is itself such a text has no other spelling, and each
    other key has one.
-/
import ImportBinding.Json.Pointer

namespace ImportBinding.Json.Pointer

/-! ## Passes -/

/-- Each `c` replaced by the characters `new`. -/
def replaceChar (c : Char) (new s : List Char) : List Char :=
  s.flatMap fun d => if d = c then new else [d]

/-- Each `a` with a `b` behind it replaced by `c`, from left to right. -/
def replacePair (a b c : Char) : List Char → List Char
  | x :: y :: rest =>
    if x = a ∧ y = b then c :: replacePair a b c rest else x :: replacePair a b c (y :: rest)
  | s => s

/-- The spelling of a token, by a pass for each of the two characters. -/
def escapeByPasses (token : List Char) : List Char :=
  replaceChar '/' ['~', '1'] (replaceChar '~' ['~', '0'] token)

/-- The token of a spelling, by a pass for each of the two escapes. -/
def unescapeByPasses (s : List Char) : List Char :=
  replacePair '~' '0' '~' (replacePair '~' '1' '/' s)

theorem escape_cons (c : Char) (rest : List Char) :
    escape (c :: rest) = escapeChar c ++ escape rest :=
  List.flatMap_cons

theorem escape_eq (token : List Char) : escape token = escapeByPasses token := by
  rw [escapeByPasses, replaceChar, replaceChar, List.flatMap_assoc, escape]
  congr 1
  funext c
  rw [escapeChar]
  split
  · rfl
  · rw [List.flatMap_singleton]

section

variable {a b c x : Char} {s rest : List Char}

theorem replacePair_pair : replacePair a b c (a :: b :: rest) = c :: replacePair a b c rest := by
  rw [replacePair, if_pos ⟨rfl, rfl⟩]

/-- What starts no pair stays. -/
theorem replacePair_cons (h : x = a → s.head? ≠ some b) :
    replacePair a b c (x :: s) = x :: replacePair a b c s := by
  cases s with
  | nil => rfl
  | cons y rest =>
    rw [replacePair, if_neg]
    rintro ⟨hx, rfl⟩
    exact h hx rfl

/-- A pass puts nothing in front but what it found there, and what it writes. -/
theorem head?_replacePair {d : Char} (hd : d ≠ c) (h : (replacePair a b c s).head? = some d) :
    s.head? = some d := by
  rcases s with - | ⟨x, - | ⟨y, rest⟩⟩
  · exact h
  · exact h
  · rw [replacePair] at h
    split at h
    · exact absurd (Option.some.inj h).symm hd
    · exact h

end

/-- The walk stops at no `~` but one with a `0` or a `1` behind it. -/
theorem unescape_stray {c : Char} {s : List Char}
    (h : c = '~' → s.head? ≠ some '0' ∧ s.head? ≠ some '1') :
    unescape (c :: s) = c :: unescape s := by
  by_cases hc : c = '~'
  · obtain ⟨hzero, hone⟩ := h hc
    rw [unescape.eq_def]
    split
    · next he => cases he; exact absurd rfl hzero
    · next he => cases he; exact absurd rfl hone
    · next he => cases he; rfl
    · next he => cases he
  · exact unescape_cons hc s

/-- Induction on a spelling: an escape of `~`, one of a slash, any other character. -/
theorem spelling_induction {motive : List Char → Prop} (nil : motive [])
    (tilde : ∀ rest, motive rest → motive ('~' :: '0' :: rest))
    (slash : ∀ rest, motive rest → motive ('~' :: '1' :: rest))
    (other : ∀ c rest, (c = '~' → rest.head? ≠ some '0' ∧ rest.head? ≠ some '1') →
      motive rest → motive (c :: rest)) (s : List Char) : motive s := by
  induction s using unescape.induct with
  | case1 rest ih => exact tilde rest ih
  | case2 rest ih => exact slash rest ih
  | case3 c rest hzero hone ih =>
    refine other c rest (fun hc => ⟨fun hhead => ?_, fun hhead => ?_⟩) ih
    · obtain ⟨rest', rfl⟩ := List.head?_eq_some_iff.1 hhead
      exact hzero rest' hc rfl
    · obtain ⟨rest', rfl⟩ := List.head?_eq_some_iff.1 hhead
      exact hone rest' hc rfl
  | case4 => exact nil

theorem unescape_eq (s : List Char) : unescape s = unescapeByPasses s := by
  unfold unescapeByPasses
  induction s using spelling_induction with
  | nil => rfl
  | tilde rest ih =>
    have hfirst : replacePair '~' '1' '/' ('~' :: '0' :: rest) =
        '~' :: '0' :: replacePair '~' '1' '/' rest := by
      rw [replacePair_cons fun _ => by simp, replacePair_cons fun h => absurd h (by decide)]
    rw [unescape, hfirst, replacePair_pair, ih]
  | slash rest ih =>
    rw [unescape, replacePair_pair, replacePair_cons fun h => absurd h (by decide), ih]
  | other c rest hstray ih =>
    -- the first pass writes slashes, so a `0` behind a `~` was there before it
    rw [unescape_stray hstray, replacePair_cons fun hc => (hstray hc).2,
      replacePair_cons fun hc hhead => (hstray hc).1 (head?_replacePair (by decide) hhead), ih]

/-! ## Spellings -/

/-- Each `~` of a spelling starts an escape. -/
def Escaped (s : List Char) : Prop :=
  ∀ before after, s = before ++ '~' :: after → after.head? = some '0' ∨ after.head? = some '1'

theorem escaped_nil : Escaped [] := by
  intro before after h
  simp at h

theorem escaped_cons_iff {c : Char} {s : List Char} : Escaped (c :: s) ↔
    (c = '~' → s.head? = some '0' ∨ s.head? = some '1') ∧ Escaped s := by
  constructor
  · intro h
    refine ⟨?_, fun before after hs => h (c :: before) after (congrArg _ hs)⟩
    rintro rfl
    exact h [] s rfl
  · rintro ⟨hfirst, hrest⟩ before after h
    rcases before with - | ⟨d, before⟩
    · obtain ⟨hc, rfl⟩ := List.cons.inj h
      exact hfirst hc
    · exact hrest before after (List.cons.inj h).2

theorem escaped_cons_of_ne {c : Char} (hc : c ≠ '~') {s : List Char} :
    Escaped (c :: s) ↔ Escaped s := by
  rw [escaped_cons_iff]
  exact and_iff_right fun h => absurd h hc

theorem escaped_escape (token : List Char) : Escaped (escape token) := by
  induction token with
  | nil => exact escaped_nil
  | cons c rest ih =>
    rw [escape_cons, escapeChar]
    split
    · exact escaped_cons_iff.2 ⟨fun _ => Or.inl rfl, (escaped_cons_of_ne (by decide)).2 ih⟩
    · split
      · exact escaped_cons_iff.2 ⟨fun _ => Or.inr rfl, (escaped_cons_of_ne (by decide)).2 ih⟩
      · next hc _ => exact (escaped_cons_of_ne hc).2 ih

/-- A spelling without stray `~` is the one that its token has by escaping it. -/
theorem escaped_iff {s : List Char} (hs : '/' ∉ s) : Escaped s ↔ s = escape (unescape s) := by
  refine ⟨fun h => ?_, fun h => h ▸ escaped_escape _⟩
  induction s using spelling_induction with
  | nil => rfl
  | tilde rest ih =>
    have hrest : Escaped rest := (escaped_cons_of_ne (by decide)).1 (escaped_cons_iff.1 h).2
    rw [unescape, escape_cons, ← ih (by grind) hrest]
    rfl
  | slash rest ih =>
    have hrest : Escaped rest := (escaped_cons_of_ne (by decide)).1 (escaped_cons_iff.1 h).2
    rw [unescape, escape_cons, ← ih (by grind) hrest]
    rfl
  | other c rest hstray ih =>
    obtain ⟨hfirst, hrest⟩ := escaped_cons_iff.1 h
    have hc : c ≠ '~' := fun hc => (hfirst hc).elim (hstray hc).1 (hstray hc).2
    have hslash : c ≠ '/' := fun hc => hs (hc ▸ List.mem_cons_self)
    rw [unescape_cons hc, escape_cons, ← ih (by grind) hrest, escapeChar, if_neg hc, if_neg hslash]
    rfl

/-- An escape gives a `~` or a slash, and all else is what it was. -/
theorem head?_of_head?_unescape {s : List Char} {d : Char} (h : (unescape s).head? = some d)
    (htilde : d ≠ '~') (hslash : d ≠ '/') : s.head? = some d := by
  induction s using spelling_induction with
  | nil => cases h
  | tilde => exact absurd (Option.some.inj h).symm htilde
  | slash => exact absurd (Option.some.inj h).symm hslash
  | other c rest hstray => rwa [unescape_stray hstray] at h

/-- A stray `~` of a spelling is a stray `~` of its token. -/
theorem escaped_of_unescape {s : List Char} (h : Escaped (unescape s)) : Escaped s := by
  induction s using spelling_induction with
  | nil => exact escaped_nil
  | tilde rest ih =>
    rw [unescape, escaped_cons_iff] at h
    exact escaped_cons_iff.2 ⟨fun _ => Or.inl rfl, (escaped_cons_of_ne (by decide)).2 (ih h.2)⟩
  | slash rest ih =>
    rw [unescape, escaped_cons_iff] at h
    exact escaped_cons_iff.2 ⟨fun _ => Or.inr rfl, (escaped_cons_of_ne (by decide)).2 (ih h.2)⟩
  | other c rest hstray ih =>
    rw [unescape_stray hstray, escaped_cons_iff] at h
    refine escaped_cons_iff.2 ⟨fun hc => (h.1 hc).imp (fun hzero => ?_) (fun hone => ?_), ih h.2⟩
    · exact head?_of_head?_unescape hzero (by decide) (by decide)
    · exact head?_of_head?_unescape hone (by decide) (by decide)

theorem unescape_escape_append (token s : List Char) :
    unescape (escape token ++ s) = token ++ unescape s := by
  induction token with
  | nil => rfl
  | cons c rest ih =>
    rw [escape_cons, List.append_assoc, List.cons_append, ← ih, escapeChar]
    split
    · next hc => rw [hc]; rfl
    · next hc =>
      split
      · next hslash => rw [hslash]; rfl
      · exact unescape_cons hc _

/-- Escaping leaves the first character as it is, or puts a `~` in its place. -/
theorem head?_escape {s : List Char} {d : Char} (hd : d ≠ '~') (h : (escape s).head? = some d) :
    s.head? = some d := by
  rcases s with - | ⟨c, rest⟩
  · exact h
  · rw [escape_cons, escapeChar] at h
    split at h
    · exact absurd (Option.some.inj h).symm hd
    · split at h
      · exact absurd (Option.some.inj h).symm hd
      · exact h

/-- A key has no spelling but the escaped one iff each `~` in it looks like the start of an
    escape; else one that does not can be left as it is. -/
theorem escaped_iff_spelled_once {key : List Char} :
    Escaped key ↔ ∀ s, '/' ∉ s → unescape s = key → s = escape key := by
  constructor
  · rintro h s hs rfl
    exact (escaped_iff hs).1 (escaped_of_unescape h)
  · rintro h before after rfl
    by_cases hstart : after.head? = some '0' ∨ after.head? = some '1'
    · exact hstart
    · exfalso
      have hslash : '/' ∉ escape before ++ '~' :: escape after := by
        simp [slash_notMem_escape]
      have hstray : unescape ('~' :: escape after) = '~' :: after := by
        rw [unescape_stray fun _ => ⟨fun h0 => ?_, fun h1 => ?_⟩, unescape_escape]
        · exact hstart (Or.inl (head?_escape (by decide) h0))
        · exact hstart (Or.inr (head?_escape (by decide) h1))
      have hspelled := h _ hslash (by rw [unescape_escape_append, hstray])
      rw [escape, escape, escape, List.flatMap_append] at hspelled
      have hlength := congrArg List.length (List.append_cancel_left hspelled)
      simp [escapeChar] at hlength

end ImportBinding.Json.Pointer
