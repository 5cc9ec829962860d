/-
  ImportBinding — the spelling of indexes.

  * `decimal?_repr`: the decimal digits of a number spell it, so different numbers have
    different spellings (`repr_inj`);
  * `index?_repr`: a number that a word of 64 bits holds is the index of its digits;
  * `Plain` spellings have no sign and no zero in front, and `plain_iff`: those are the decimal
    digits of an index, and it has no other such spelling.
-/
import ImportBinding.Json.Pointer

namespace ImportBinding.Json

theorem decimal?_append_singleton (cs : List Char) (c : Char) : ∀ {n : Nat},
    decimal? n (cs ++ [c]) = (decimal? n cs).bind fun m => decimal? m [c] := by
  induction cs with
  | nil => intro n; rfl
  | cons d rest ih =>
    intro n
    rw [List.cons_append, decimal?, decimal?]
    split
    · exact ih
    · rfl

theorem decimal?_digit {n d : Nat} (h : d < 10) : decimal? n [d.digitChar] = some (n * 10 + d) := by
  have hd : d.digitChar.isDigit = true := by simpa using h
  have hv : d.digitChar.toNat - '0'.toNat = d := Nat.toNat_digitChar_sub_48_of_lt_ten h
  rw [decimal?, if_pos hd, hv, decimal?]

/-- The decimal digits of a number spell it. -/
theorem decimal?_repr (n : Nat) : decimal? 0 (Nat.repr n).toList = some n := by
  rw [Nat.toList_repr]
  induction n using Nat.strongRecOn with
  | ind n ih =>
    by_cases h : n < 10
    · rw [Nat.toDigits_of_lt_base h, decimal?_digit h, Nat.zero_mul, Nat.zero_add]
    · rw [Nat.toDigits_of_base_le (by decide) (by omega), decimal?_append_singleton,
        ih (n / 10) (by omega), Option.bind_some, decimal?_digit (by omega)]
      exact congrArg some (by omega)

theorem repr_inj {m n : Nat} : Nat.repr m = Nat.repr n ↔ m = n := by
  constructor
  · intro h
    have hm := decimal?_repr m
    rw [h, decimal?_repr n] at hm
    exact (Option.some.inj hm).symm
  · rintro rfl; rfl

theorem isDigit_of_mem_toList_repr {i : Nat} : ∀ c ∈ (Nat.repr i).toList, c.isDigit = true := by
  rw [Nat.toList_repr]
  exact fun c hc => Nat.isDigit_of_mem_toDigits (by decide) (by decide) hc

theorem word?_repr {i : Nat} (h : i < UInt64.size) : word? (Nat.repr i).toList = some i := by
  rw [word?, if_neg (by simp), decimal?_repr i, Option.filter_some, if_pos (by simpa using h)]

theorem index?_of_head?_ne {token : String} (h : token.toList.head? ≠ some '+') :
    index? token = word? token.toList := by
  unfold index?
  split
  · next rest he => exact absurd (by rw [he]; rfl) h
  · rfl

/-- A number that a word of 64 bits holds is the index of its digits. -/
theorem index?_repr {i : Nat} (h : i < UInt64.size) : index? (Nat.repr i) = some i := by
  rw [index?_of_head?_ne, word?_repr h]
  intro hplus
  exact absurd (isDigit_of_mem_toList_repr _ (List.mem_of_mem_head? hplus)) (by decide)

/-- A number that a word of 64 bits holds is also the index of its digits behind a `+`. -/
theorem index?_plus_repr {i : Nat} (h : i < UInt64.size) : index? ("+" ++ Nat.repr i) = some i := by
  have hplus : ("+" ++ Nat.repr i).toList = '+' :: (Nat.repr i).toList := by simp
  rw [index?, hplus]
  exact word?_repr h

theorem word?_eq_some_iff {digits : List Char} {i : Nat} : word? digits = some i ↔
    digits ≠ [] ∧ decimal? 0 digits = some i ∧ i < UInt64.size := by
  rw [word?]
  split
  · next h => simp [h]
  · next h => simp [h, Option.filter_eq_some_iff, UInt64.size]

theorem lt_size_of_index? {token : String} {i : Nat} (h : index? token = some i) :
    i < UInt64.size := by
  unfold index? at h
  split at h
  · exact (word?_eq_some_iff.1 h).2.2
  · exact (word?_eq_some_iff.1 h).2.2

/-! ## Plain indexes -/

/-- Digits alone, and no zero in front of others. -/
def Plain (token : String) : Prop :=
  (∀ c ∈ token.toList, c.isDigit = true) ∧ ∀ rest, token.toList = '0' :: rest → rest = []

theorem digitChar_of_isDigit {c : Char} (h : c.isDigit = true) :
    c.toNat - '0'.toNat < 10 ∧ (c.toNat - '0'.toNat).digitChar = c := by
  obtain ⟨hlow, hhigh⟩ := Char.isDigit_iff_toNat.1 h
  have hlt : c.toNat - '0'.toNat < 10 := by
    simp only [Char.reduceToNat] at hlow hhigh ⊢
    omega
  refine ⟨hlt, Char.toNat_inj.1 ?_⟩
  rw [Nat.toNat_digitChar_of_lt_ten hlt]
  simp only [Char.reduceToNat] at hlow ⊢
  omega

/-- Digits behind those of a number that is not zero go on with it. -/
theorem toDigits_of_decimal? {cs : List Char} {n : Nat} : ∀ {m : Nat}, 0 < m →
    decimal? m cs = some n → Nat.toDigits 10 m ++ cs = Nat.toDigits 10 n := by
  induction cs with
  | nil =>
    intro m _ h
    rw [List.append_nil, Option.some.inj h]
  | cons c rest ih =>
    intro m hm h
    rw [decimal?] at h
    split at h
    · next hc =>
      obtain ⟨hd, hchar⟩ := digitChar_of_isDigit hc
      have hmore := Nat.toDigits_append_toDigits (b := 10) (by decide) hm hd
      rw [Nat.toDigits_of_lt_base hd, hchar, Nat.mul_comm] at hmore
      rw [← ih (by omega) h, ← hmore, List.append_assoc, List.singleton_append]
    · cases h

/-- The decimal digits of a number have no zero in front of others. -/
theorem plain_repr (i : Nat) : Plain (Nat.repr i) := by
  refine ⟨isDigit_of_mem_toList_repr, ?_⟩
  rw [Nat.toList_repr]
  induction i using Nat.strongRecOn with
  | ind i ih =>
    intro rest h
    by_cases hlt : i < 10
    · rw [Nat.toDigits_of_lt_base hlt] at h
      exact (List.cons.inj h).2.symm
    · rw [Nat.toDigits_of_base_le (by decide) (by omega)] at h
      exfalso
      rcases hfront : Nat.toDigits 10 (i / 10) with - | ⟨c, more⟩
      · exact Nat.toDigits_ne_nil hfront
      · rw [hfront, List.cons_append] at h
        obtain ⟨rfl, -⟩ := List.cons.inj h
        obtain rfl := ih (i / 10) (by omega) more hfront
        have hzero : Nat.repr (i / 10) = Nat.repr 0 := by
          rw [← String.toList_inj, Nat.toList_repr, hfront]
          rfl
        have hsmall : i / 10 = 0 := repr_inj.1 hzero
        omega

/-- Of the spellings of an index one is plain. -/
theorem plain_iff {token : String} {i : Nat} (h : index? token = some i) :
    Plain token ↔ token = Nat.repr i := by
  refine ⟨fun ⟨hdigits, hzero⟩ => ?_, fun he => he ▸ plain_repr i⟩
  rw [index?_of_head?_ne fun hplus => absurd (hdigits _ (List.mem_of_mem_head? hplus)) (by decide)]
    at h
  obtain ⟨hne, hdecimal, -⟩ := word?_eq_some_iff.1 h
  rw [← String.toList_inj, Nat.toList_repr]
  rcases htoken : token.toList with - | ⟨c, rest⟩
  · exact absurd htoken hne
  · rw [htoken] at hdecimal
    by_cases hc : c = '0'
    · subst hc
      obtain rfl := hzero rest htoken
      obtain rfl : 0 = i := Option.some.inj hdecimal
      rfl
    · have hdigit := hdigits c (by rw [htoken]; exact List.mem_cons_self)
      obtain ⟨hd, hchar⟩ := digitChar_of_isDigit hdigit
      have hpos : 0 < c.toNat - '0'.toNat := by
        rcases Nat.eq_zero_or_pos (c.toNat - '0'.toNat) with h0 | h0
        · rw [h0] at hchar
          exact absurd hchar.symm hc
        · exact h0
      rw [decimal?, if_pos hdigit, Nat.zero_mul, Nat.zero_add] at hdecimal
      have hall := toDigits_of_decimal? hpos hdecimal
      rwa [Nat.toDigits_of_lt_base hd, hchar] at hall

end ImportBinding.Json
