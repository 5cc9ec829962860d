/-
  ImportBinding — strings that are written and read back.

  Between its quotes a written string has, for each character, its spelling.  A reader that
  keeps the string finds the bytes of the character there, and one that passes over it
  finds nothing wrong.

  * `bytes_append` and `bytes_ofList` are the bytes of a text;
  * `StandsFor`: some bytes of a literal stand for others;
  * `standsFor_escape` is the spelling of a character;
  * `Literal.string_stringBody` reads a written string.
-/
import ImportBinding.Proofs.Json.Form

namespace ImportBinding.Json

/-! ## Bytes -/

theorem bytes_ofList (cs : List Char) : bytes (.ofList cs) = cs.flatMap String.utf8EncodeChar := by
  rw [bytes, String.toUTF8, String.toByteArray_ofList, List.utf8Encode, List.toList_data_toByteArray]

theorem bytes_eq_flatMap (s : String) : bytes s = s.toList.flatMap String.utf8EncodeChar := by
  rw [← bytes_ofList, String.ofList_toList]

@[simp] theorem bytes_append (s t : String) : bytes (s ++ t) = bytes s ++ bytes t := by
  simp [bytes_eq_flatMap]

theorem fromUTF8?_bytes (s : String) : String.fromUTF8? ⟨(bytes s).toArray⟩ = some s := by
  have h : (⟨(bytes s).toArray⟩ : ByteArray) = s.toByteArray := by
    rw [bytes, String.toUTF8, Array.toArray_toList]
  rw [h, String.fromUTF8?, dif_pos s.isValidUTF8]
  rfl

theorem bytes_of_fromUTF8? {text : List UInt8} {s : String}
    (h : String.fromUTF8? ⟨text.toArray⟩ = some s) : bytes s = text := by
  unfold String.fromUTF8? at h
  split at h
  · cases h
    change text.toArray.toList = text
    rfl
  · cases h

theorem bytes_inj {s t : String} (h : bytes s = bytes t) : s = t := by
  have hs := fromUTF8?_bytes s
  rw [h, fromUTF8?_bytes] at hs
  exact (Option.some.inj hs).symm

/-! ## Parts of a literal -/

/-- The bytes `text` of a string literal stand for the bytes `out`: a reader puts these to
    those it has, and there is nothing wrong with them. -/
def StandsFor (text out : List UInt8) : Prop :=
  ∀ acc offset rest, ∃ offset',
    textBytes acc offset (text ++ rest) = textBytes (out.reverse ++ acc) offset' rest ∧
      passText offset (text ++ rest) = passText offset' rest

theorem StandsFor.nil : StandsFor [] [] :=
  fun _ offset _ => ⟨offset, rfl, rfl⟩

theorem StandsFor.append {text₁ text₂ out₁ out₂ : List UInt8} (h₁ : StandsFor text₁ out₁)
    (h₂ : StandsFor text₂ out₂) : StandsFor (text₁ ++ text₂) (out₁ ++ out₂) := by
  intro acc offset rest
  obtain ⟨offset₁, ht₁, hp₁⟩ := h₁ acc offset (text₂ ++ rest)
  obtain ⟨offset₂, ht₂, hp₂⟩ := h₂ (out₁.reverse ++ acc) offset₁ rest
  refine ⟨offset₂, ?_, ?_⟩
  · rw [List.append_assoc, ht₁, ht₂, List.reverse_append, List.append_assoc]
  · rw [List.append_assoc, hp₁, hp₂]

/-- The backslash and a letter. -/
theorem standsFor_letter {e x : UInt8} (h : unescape? e = some x) : StandsFor [0x5c, e] [x] := by
  have he : e ≠ 0x75 := by rintro rfl; cases h
  intro acc offset rest
  refine ⟨offset + 2, ?_, ?_⟩
  · rw [textBytes.eq_def]
    simp [he, h]
  · rw [passText.eq_def]
    simp [he, h]

/-- The backslash, the letter `u` and four hexadecimal digits. -/
theorem standsFor_unit {a b c d : UInt8} {n : Nat} (h : hexUnit? a b c d = some n)
    (hn : n < 0xd800) :
    StandsFor [0x5c, 0x75, a, b, c, d] (String.utf8EncodeChar (Char.ofNat n)) := by
  have htrailing : isTrailing n = false := by simp [isTrailing]; omega
  have hleading : isLeading n = false := by simp [isLeading]; omega
  intro acc offset rest
  refine ⟨offset + 6, ?_, ?_⟩
  · rw [textBytes.eq_def]
    simp [h, htrailing, hleading, pushCode]
  · rw [passText.eq_def]
    simp [h]

/-- A byte of a literal that stands for itself. -/
def Bare (b : UInt8) : Prop :=
  b ≠ 0x22 ∧ b ≠ 0x5c ∧ ¬ b < 0x20

theorem standsFor_bare {text : List UInt8} (h : ∀ b ∈ text, Bare b) : StandsFor text text := by
  induction text with
  | nil => exact StandsFor.nil
  | cons b rest ih =>
    obtain ⟨h₁, h₂, h₃⟩ := h b (by simp)
    have hb : StandsFor [b] [b] := by
      intro acc offset rest
      refine ⟨offset + 1, ?_, ?_⟩
      · rw [textBytes.eq_def]
        simp [h₁, h₂, h₃]
      · rw [passText.eq_def]
        simp [h₁, h₂, h₃]
    exact hb.append (ih fun b hb => h b (by simp [hb]))

/-! ## Characters -/

theorem bare_ofNat {n : Nat} (h₁ : 0x20 ≤ n) (h₂ : n ≠ 0x22) (h₃ : n ≠ 0x5c) (h₄ : n < 256) :
    Bare (UInt8.ofNat n) := by
  have hn : (UInt8.ofNat n).toNat = n := by simp [Nat.mod_eq_of_lt h₄]
  refine ⟨fun h => h₂ ?_, fun h => h₃ ?_, fun h => ?_⟩
  · rw [← hn, h]; rfl
  · rw [← hn, h]; rfl
  · have hlt : (UInt8.ofNat n).toNat < 0x20 := UInt8.lt_iff_toNat_lt.1 h
    omega

/-- The bytes of a character that needs no escape need none. -/
theorem bare_of_mem {c : Char} (hquote : c ≠ '"') (hslash : c ≠ '\\') (hcontrol : ¬ c.toNat < 0x20)
    {b : UInt8} (hb : b ∈ String.utf8EncodeChar c) : Bare b := by
  have h₁ : c.val.toNat ≠ 0x22 := fun h => hquote (Char.ext (UInt32.toNat_inj.1 h))
  have h₂ : c.val.toNat ≠ 0x5c := fun h => hslash (Char.ext (UInt32.toNat_inj.1 h))
  have h₃ : ¬ c.val.toNat < 0x20 := hcontrol
  unfold String.utf8EncodeChar at hb
  dsimp only at hb
  split at hb
  · obtain rfl := List.mem_singleton.1 hb
    exact bare_ofNat (by omega) h₁ h₂ (by omega)
  · split at hb
    · simp only [List.mem_cons, List.not_mem_nil, or_false] at hb
      rcases hb with rfl | rfl <;> exact bare_ofNat (by omega) (by omega) (by omega) (by omega)
    · split at hb
      · simp only [List.mem_cons, List.not_mem_nil, or_false] at hb
        rcases hb with rfl | rfl | rfl <;>
          exact bare_ofNat (by omega) (by omega) (by omega) (by omega)
      · simp only [List.mem_cons, List.not_mem_nil, or_false] at hb
        rcases hb with rfl | rfl | rfl | rfl <;>
          exact bare_ofNat (by omega) (by omega) (by omega) (by omega)

/-- The spelling of a control without a letter of its own. -/
theorem standsFor_control : ∀ n < 0x20, StandsFor
    (['\\', 'u', '0', '0', Nat.digitChar (n / 16), Nat.digitChar (n % 16)].flatMap
      String.utf8EncodeChar) (String.utf8EncodeChar (Char.ofNat n)) := by
  intro n hn
  have hu : hexUnit? 0x30 0x30 (UInt8.ofNat (Nat.digitChar (n / 16)).toNat)
      (UInt8.ofNat (Nat.digitChar (n % 16)).toNat) = some n := by
    revert n
    decide
  have htext : ['\\', 'u', '0', '0', Nat.digitChar (n / 16), Nat.digitChar (n % 16)].flatMap
      String.utf8EncodeChar = [0x5c, 0x75, 0x30, 0x30,
        UInt8.ofNat (Nat.digitChar (n / 16)).toNat, UInt8.ofNat (Nat.digitChar (n % 16)).toNat] := by
    revert n
    decide
  rw [htext]
  exact standsFor_unit hu (by omega)

/-- The escape of a character that has a letter of its own stands for the character. -/
theorem standsFor_lettered {c : Char} (h : c ∈ ['"', '\\', '\x08', '\x0c', '\n', '\r', '\t']) :
    StandsFor ((escape c).flatMap String.utf8EncodeChar) (String.utf8EncodeChar c) := by
  simp only [List.mem_cons, List.not_mem_nil, or_false] at h
  rcases h with rfl | rfl | rfl | rfl | rfl | rfl | rfl
  · exact standsFor_letter (e := 0x22) rfl
  · exact standsFor_letter (e := 0x5c) rfl
  · exact standsFor_letter (e := 0x62) rfl
  · exact standsFor_letter (e := 0x66) rfl
  · exact standsFor_letter (e := 0x6e) rfl
  · exact standsFor_letter (e := 0x72) rfl
  · exact standsFor_letter (e := 0x74) rfl

/-- The spelling of a character stands for the character. -/
theorem standsFor_escape (c : Char) :
    StandsFor ((escape c).flatMap String.utf8EncodeChar) (String.utf8EncodeChar c) := by
  by_cases hletter : c ∈ ['"', '\\', '\x08', '\x0c', '\n', '\r', '\t']
  · exact standsFor_lettered hletter
  · simp only [List.mem_cons, List.not_mem_nil, or_false, not_or] at hletter
    obtain ⟨hquote, hslash, hback, hfeed, hline, hreturn, htab⟩ := hletter
    rw [escape, if_neg hquote, if_neg hslash, if_neg hback, if_neg hfeed, if_neg hline,
      if_neg hreturn, if_neg htab]
    split
    · next h => simpa using standsFor_control c.toNat h
    · next hcontrol =>
      rw [List.flatMap_singleton]
      exact standsFor_bare fun b hb => bare_of_mem hquote hslash hcontrol hb

/-! ## Strings -/

/-- The bytes of a written string between its quotes. -/
def stringBody (s : String) : List UInt8 :=
  (s.toList.flatMap escape).flatMap String.utf8EncodeChar

theorem bytes_stringText (s : String) : bytes (stringText s) = 0x22 :: (stringBody s ++ [0x22]) := by
  have hquote : String.utf8EncodeChar '"' = [0x22] := rfl
  rw [stringText, bytes_ofList, List.flatMap_append, List.flatMap_cons, stringBody,
    List.flatMap_singleton, hquote]
  rfl

theorem standsFor_stringBody (s : String) : StandsFor (stringBody s) (bytes s) := by
  rw [stringBody, bytes_eq_flatMap]
  generalize s.toList = cs
  induction cs with
  | nil => exact StandsFor.nil
  | cons c cs ih =>
    simp only [List.flatMap_cons, List.flatMap_append]
    exact (standsFor_escape c).append ih

/-- A written string is read back from behind its opening quote. -/
theorem Literal.string_stringBody (s : String) (offset : Nat) (rest : List UInt8) :
    ∃ l offset', Literal.string ⟨offset, stringBody s ++ 0x22 :: rest⟩ = (l, ⟨offset', rest⟩) ∧
      l.Shows s := by
  obtain ⟨offset', htext, hpass⟩ := standsFor_stringBody s [] offset (0x22 :: rest)
  have hend : textBytes ((bytes s).reverse ++ []) offset' (0x22 :: rest) =
      .ok (bytes s, ⟨offset' + 1, rest⟩) := by
    rw [textBytes.eq_def]
    simp
  have hafter : passText offset' (0x22 :: rest) = .ok ⟨offset' + 1, rest⟩ := by
    rw [passText.eq_def]
    simp
  have hkept : keepText ⟨offset, stringBody s ++ 0x22 :: rest⟩ = .ok s := by
    rw [keepText, htext, hend]
    simp [bind, Except.bind, fromUTF8?_bytes, pure, Except.pure]
  refine ⟨⟨offset - 1, offset' + 1, .ok s, none⟩, offset' + 1, ?_, rfl, rfl⟩
  rw [Literal.string, hpass, hafter, hkept]

end ImportBinding.Json
