/-
  ImportBinding — whole numbers that are written and read back.

  A reader takes digits as long as 64 bits hold them, so the whole numbers it gives are
  those that `Number.Fits` admits, and each of these it reads back from its digits.

  * `Numeral.fits_of_value`: what a numeral stands for fits;
  * `accumulate_repr`: the digits of a number add up to it;
  * `Numeral.scanWhole_repr` reads the digits of a number, which end where `Ends` says so;
  * `Literal.number_toString` reads a written whole number.
-/
import ImportBinding.Proofs.Json.Quoted

namespace ImportBinding.Json

/-! ## Numbers that fit -/

/-- A number that a text can show: a whole one fits 64 bits. -/
def Number.Fits : Number → Prop
  | integer n => -(Numeral.maxNegative : Int) ≤ n ∧ n ≤ Numeral.maxWord
  | float _ => True

namespace Numeral

theorem accumulate_le {limit n : Nat} (h : n ≤ limit) (ds : List UInt8) :
    (accumulate limit n ds).1 ≤ limit := by
  induction ds generalizing n with
  | nil => exact h
  | cons d ds ih =>
    rw [accumulate]
    split
    · next hle => exact ih hle
    · exact h

theorem fits_ofMagnitude {negative : Bool} {n : Nat} (h : n ≤ maxWord) :
    (ofMagnitude negative n).Fits := by
  unfold ofMagnitude
  split
  · split
    · trivial
    · next hn =>
      simp only [Number.Fits, maxNegative, maxWord] at *
      omega
  · simp only [Number.Fits, maxNegative, maxWord] at *
    omega

theorem fits_ofDecimal {stop : Nat} {negative : Bool} {significand : Nat} {power : Int} {n : Number}
    (h : ofDecimal stop negative significand power = .ok n) : n.Fits := by
  unfold ofDecimal at h
  split at h
  · cases h; trivial
  · cases h

/-- The number of a numeral fits. -/
theorem fits_of_value {x : Numeral} {n : Number} (h : x.value = .ok n) : n.Fits := by
  have hle := accumulate_le (Nat.zero_le maxWord) x.whole
  unfold value at h
  dsimp only at h
  split at h
  · cases h; exact fits_ofMagnitude hle
  · split at h
    · exact fits_ofDecimal h
    · split at h
      · exact fits_ofDecimal h
      · split at h
        · cases h
        · cases h; trivial

end Numeral

/-! ## Digits -/

/-- The byte of a digit. -/
def digitByte (d : Nat) : UInt8 :=
  UInt8.ofNat (0x30 + d)

theorem utf8EncodeChar_digitChar : ∀ d < 10,
    String.utf8EncodeChar (Nat.digitChar d) = [digitByte d] := by
  decide

theorem isDigit_digitByte : ∀ d < 10, isDigit (digitByte d) = true := by
  decide

theorem digitValue_digitByte : ∀ d < 10, digitValue (digitByte d) = d := by
  decide

theorem bytes_repr_of_lt {n : Nat} (h : n < 10) : bytes (Nat.repr n) = [digitByte n] := by
  rw [bytes_eq_flatMap, Nat.toList_repr, Nat.toDigits_of_lt_base h, List.flatMap_singleton,
    utf8EncodeChar_digitChar n h]

theorem bytes_repr_of_le {n : Nat} (h : 10 ≤ n) :
    bytes (Nat.repr n) = bytes (Nat.repr (n / 10)) ++ [digitByte (n % 10)] := by
  rw [bytes_eq_flatMap, bytes_eq_flatMap, Nat.toList_repr, Nat.toList_repr,
    Nat.toDigits_of_base_le (by decide) h, List.flatMap_append, List.flatMap_singleton,
    utf8EncodeChar_digitChar (n % 10) (by omega)]

theorem isDigit_of_mem_repr (n : Nat) : ∀ b ∈ bytes (Nat.repr n), isDigit b = true := by
  induction n using Nat.strongRecOn with
  | ind n ih =>
    by_cases h : n < 10
    · rw [bytes_repr_of_lt h]
      simpa using isDigit_digitByte n h
    · rw [bytes_repr_of_le (by omega)]
      intro b hb
      rcases List.mem_append.1 hb with hb | hb
      · exact ih (n / 10) (by omega) b hb
      · rw [List.mem_singleton.1 hb]
        exact isDigit_digitByte (n % 10) (by omega)

/-- The first digit of a number is zero only when no others follow. -/
theorem exists_bytes_repr (n : Nat) : ∃ d more, bytes (Nat.repr n) = d :: more ∧
    (d = 0x30 → n = 0 ∧ more = []) := by
  induction n using Nat.strongRecOn with
  | ind n ih =>
    by_cases h : n < 10
    · refine ⟨digitByte n, [], bytes_repr_of_lt h, fun hd => ⟨?_, rfl⟩⟩
      rw [← digitValue_digitByte n h, hd]
      rfl
    · obtain ⟨d, more, he, hd⟩ := ih (n / 10) (by omega)
      refine ⟨d, more ++ [digitByte (n % 10)], ?_, fun hzero => ?_⟩
      · rw [bytes_repr_of_le (by omega), he, List.cons_append]
      · have := (hd hzero).1
        omega

namespace Numeral

theorem accumulate_append_singleton {limit n k : Nat} {ds : List UInt8} (d : UInt8)
    (h : accumulate limit n ds = (k, [])) :
    accumulate limit n (ds ++ [d]) = accumulate limit k [d] := by
  induction ds generalizing n with
  | nil =>
    cases h
    rfl
  | cons e ds ih =>
    rw [accumulate] at h
    split at h
    · next hle =>
      rw [List.cons_append, accumulate, if_pos hle]
      exact ih h
    · cases h

/-- The digits of a number add up to it. -/
theorem accumulate_repr {limit n : Nat} (h : n ≤ limit) :
    accumulate limit 0 (bytes (Nat.repr n)) = (n, []) := by
  induction n using Nat.strongRecOn with
  | ind n ih =>
    by_cases hlt : n < 10
    · rw [bytes_repr_of_lt hlt, accumulate, digitValue_digitByte n hlt, Nat.zero_mul, Nat.zero_add,
        if_pos h, accumulate]
    · have hn : n / 10 * 10 + n % 10 = n := by omega
      rw [bytes_repr_of_le (by omega),
        accumulate_append_singleton _ (ih (n / 10) (by omega) (by omega)), accumulate,
        digitValue_digitByte (n % 10) (by omega), hn, if_pos h, accumulate]

end Numeral

/-! ## Reading -/

/-- Nothing goes on with a number before these bytes. -/
def Ends (rest : List UInt8) : Prop :=
  ∀ b, rest.head? = some b → isDigit b = false ∧ b ≠ 0x2e ∧ b ≠ 0x65 ∧ b ≠ 0x45

namespace Numeral

theorem takeWhile_repr (n : Nat) {rest : List UInt8} (h : Ends rest) :
    (bytes (Nat.repr n) ++ rest).takeWhile isDigit = bytes (Nat.repr n) ∧
      (bytes (Nat.repr n) ++ rest).dropWhile isDigit = rest := by
  have hdigits := isDigit_of_mem_repr n
  rw [List.takeWhile_append_of_pos hdigits, List.dropWhile_append_of_pos hdigits]
  cases rest with
  | nil => simp
  | cons b rest =>
    have hb := (h b rfl).1
    simp [hb]

theorem scanWhole_repr (n offset : Nat) {rest : List UInt8} (h : Ends rest) :
    ∃ offset', scanWhole ⟨offset, bytes (Nat.repr n) ++ rest⟩ =
      .ok (bytes (Nat.repr n), ⟨offset', rest⟩) := by
  obtain ⟨htake, hdrop⟩ := takeWhile_repr n h
  obtain ⟨d, more, he, hd⟩ := exists_bytes_repr n
  refine ⟨offset + (bytes (Nat.repr n)).length, ?_⟩
  simp only [scanWhole, digits, Cursor.skip, htake, hdrop]
  rw [he]
  dsimp only
  rw [if_neg fun hzero => hzero.2 (hd hzero.1).2]

/-- A numeral that ends behind its whole digits. -/
theorem scan_of_scanWhole {c : Cursor} {ds : List UInt8} {offset : Nat} {rest : List UInt8}
    (hwhole : scanWhole (if c.next? == some 0x2d then c.step else c) = .ok (ds, ⟨offset, rest⟩))
    (h : Ends rest) :
    scan c = .ok (⟨c.next? == some 0x2d, ds, [], none, offset, offset⟩, ⟨offset, rest⟩) := by
  have hpoint : ¬ Cursor.next? ⟨offset, rest⟩ = some 0x2e := fun hn => (h _ hn).2.1 rfl
  have hmark : ¬ (Cursor.next? ⟨offset, rest⟩ = some 0x65 ∨ Cursor.next? ⟨offset, rest⟩ = some 0x45) := by
    rintro (hn | hn)
    · exact (h _ hn).2.2.1 rfl
    · exact (h _ hn).2.2.2 rfl
  have hfraction : scanFraction ⟨offset, rest⟩ = .ok ([], ⟨offset, rest⟩) := by
    rw [scanFraction, if_neg hpoint]
  have hpower : scanPower ⟨offset, rest⟩ = .ok (none, offset, ⟨offset, rest⟩) := by
    rw [scanPower, if_neg hmark]
  exact Except.bind_eq_ok_iff.2 ⟨_, hwhole, Except.bind_eq_ok_iff.2 ⟨_, hfraction,
    Except.bind_eq_ok_iff.2 ⟨_, hpower, rfl⟩⟩⟩

end Numeral

theorem bytes_toString_negSucc (n : Nat) :
    bytes (toString (Int.negSucc n)) = 0x2d :: bytes (Nat.repr (n + 1)) := by
  have hsign : bytes "-" = [0x2d] := by decide
  rw [show toString (Int.negSucc n) = "-" ++ Nat.repr (n + 1) from rfl, bytes_append, hsign]
  rfl

/-- A whole number starts with a digit or with a minus. -/
theorem exists_bytes_toString (n : Int) : ∃ b more, bytes (toString n) = b :: more ∧
    (b = 0x2d ∨ isDigit b = true) := by
  cases n with
  | ofNat n =>
    obtain ⟨d, more, he, -⟩ := exists_bytes_repr n
    refine ⟨d, more, he, Or.inr (isDigit_of_mem_repr n d ?_)⟩
    rw [he]
    exact List.mem_cons_self
  | negSucc n => exact ⟨0x2d, bytes (Nat.repr (n + 1)), bytes_toString_negSucc n, Or.inl rfl⟩

/-- Whole digits alone are a whole number. -/
theorem Numeral.value_whole {negative : Bool} {n powerStart stop : Nat} (h : n ≤ maxWord) :
    Numeral.value ⟨negative, bytes (Nat.repr n), [], none, powerStart, stop⟩ =
      .ok (ofMagnitude negative n) := by
  rw [value, accumulate_repr h]
  rfl

/-- Whole digits, with or without a sign, are read as a literal. -/
theorem Literal.number_of_scanWhole {c : Cursor} {n offset : Nat} {rest : List UInt8}
    (hwhole : Numeral.scanWhole (if c.next? == some 0x2d then c.step else c) =
      .ok (bytes (Nat.repr n), ⟨offset, rest⟩))
    (hn : n ≤ Numeral.maxWord) (h : Ends rest) :
    ∃ l, Literal.number c = (l, ⟨offset, rest⟩) ∧
      l.Shows (.number (Numeral.ofMagnitude (c.next? == some 0x2d) n)) := by
  refine ⟨⟨c.offset, offset,
    .ok (.number (Numeral.ofMagnitude (c.next? == some 0x2d) n)), none⟩, ?_, rfl, rfl⟩
  rw [number, Numeral.scan_of_scanWhole hwhole h]
  dsimp only
  rw [Numeral.value_whole hn]
  rfl

/-- A written whole number that fits is read back. -/
theorem Literal.number_toString {n : Int} (hn : (Number.integer n).Fits) (offset : Nat)
    {rest : List UInt8} (h : Ends rest) :
    ∃ l offset', Literal.number ⟨offset, bytes (toString n) ++ rest⟩ = (l, ⟨offset', rest⟩) ∧
      l.Shows (.number (.integer n)) := by
  cases n with
  | ofNat n =>
    have hle : n ≤ Numeral.maxWord := Int.ofNat_le.1 hn.2
    obtain ⟨offset', hwhole⟩ := Numeral.scanWhole_repr n offset h
    have hsign : (Cursor.next? ⟨offset, bytes (Nat.repr n) ++ rest⟩ == some 0x2d) = false := by
      obtain ⟨d, more, he, -⟩ := exists_bytes_repr n
      have hd : isDigit d = true := isDigit_of_mem_repr n d (by rw [he]; exact List.mem_cons_self)
      rw [he]
      refine beq_eq_false_iff_ne.2 fun hminus => ?_
      rw [Option.some.inj hminus] at hd
      exact absurd hd (by decide)
    obtain ⟨l, hl, hshows⟩ := number_of_scanWhole (c := ⟨offset, bytes (Nat.repr n) ++ rest⟩)
      (by rw [hsign]; exact hwhole) hle h
    rw [hsign] at hshows
    exact ⟨l, offset', hl, hshows⟩
  | negSucc n =>
    simp only [Number.Fits, Numeral.maxNegative] at hn
    obtain ⟨offset', hwhole⟩ := Numeral.scanWhole_repr (n + 1) (offset + 1) h
    obtain ⟨l, hl, hshows⟩ := number_of_scanWhole
      (c := ⟨offset, 0x2d :: bytes (Nat.repr (n + 1)) ++ rest⟩) hwhole
      (by simp only [Numeral.maxWord]; omega) h
    rw [← bytes_toString_negSucc] at hl
    have hvalue : Numeral.ofMagnitude true (n + 1) = .integer (Int.negSucc n) := by
      rw [Numeral.ofMagnitude, if_pos rfl, if_neg (by simp only [Numeral.maxNegative]; omega)]
      rfl
    exact ⟨l, offset', hl, hvalue ▸ hshows⟩

end ImportBinding.Json
