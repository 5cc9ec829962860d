/-
  ImportBinding — spelled identifiers.

  A name is spelled with its own characters, and with `r#` in front when it is a keyword.  No
  name has a `#` in it, so the spelling tells the name.

  * `Usable.isPart`: a name is made of the characters of identifiers, and `usable_iff` says which
    texts made of them are names;
  * `raw_inj`: different names are spelled differently;
  * `Usable.quote_eq`: a name stands in a literal as it is.
-/
import ImportBinding.Identifier
import ImportBinding.Text.Blank
import ImportBinding.Text.Quoted

namespace ImportBinding

namespace Identifier

theorem isPart_of_isStart {c : Char} (h : isStart c) : isPart c := by
  rcases Bool.or_eq_true_iff.1 h with h | h
  · exact Bool.or_eq_true_iff.2 (Or.inl h)
  · exact Bool.or_eq_true_iff.2 (Or.inr (Bool.or_eq_true_iff.2 (Or.inl h)))

theorem toNat_of_isPart {c : Char} (h : isPart c) : 0x20 ≤ c.toNat ∧ c.toNat < 0x7f := by
  rcases Bool.or_eq_true_iff.1 h with h | h
  · obtain rfl := beq_iff_eq.1 h
    decide
  · change ((decide (_ ∧ _) || (decide _ && decide _)) || (decide _ && decide _)) = true at h
    simp only [Bool.or_eq_true, Bool.and_eq_true, decide_eq_true_eq, ge_iff_le,
      UInt32.le_iff_toNat_le] at h
    change ((65 ≤ c.toNat ∧ c.toNat ≤ 90) ∨ (97 ≤ c.toNat ∧ c.toNat ≤ 122)) ∨
      (48 ≤ c.toNat ∧ c.toNat ≤ 57) at h
    omega

/-- No blank stands in an identifier. -/
theorem isPart_of_isBlank (c : Char) (h : Text.isBlank c) : isPart c = false := by
  refine Bool.eq_false_iff.2 fun hpart => ?_
  have hrange := toNat_of_isPart hpart
  have hspace : c.toNat ≠ 0x20 := by
    intro hc
    obtain rfl : c = ' ' := Char.toNat_inj.1 hc
    exact absurd hpart (by decide)
  simp only [Text.isBlank, Bool.or_eq_true, Bool.and_eq_true, beq_iff_eq, decide_eq_true_eq] at h
  omega

/-- A name is made of the characters of identifiers. -/
theorem Usable.isPart {name : String} (h : Usable name) : ∀ c ∈ name.toList, isPart c := by
  obtain ⟨⟨c, rest, hname, hstart, hrest⟩, -⟩ := h
  rw [hname]
  intro d hd
  rcases List.mem_cons.1 hd with rfl | hd
  · exact isPart_of_isStart hstart
  · exact hrest d hd

/-- A usable name starts as names do, goes on as they do, and is a name. -/
theorem usable_iff {name : String} : Usable name ↔
    (∃ c ∈ name.toList.head?, isStart c) ∧ (∀ c ∈ name.toList, isPart c) ∧ name ∉ unusable := by
  constructor
  · intro h
    obtain ⟨⟨c, rest, hname, hstart, -⟩, hword⟩ := id h
    exact ⟨⟨c, by simp [hname], hstart⟩, h.isPart, hword⟩
  · rintro ⟨⟨c, hc, hstart⟩, hpart, hword⟩
    obtain ⟨rest, hname⟩ := List.head?_eq_some_iff.1 hc
    rw [hname] at hpart
    exact ⟨⟨c, rest, hname, hstart, (List.forall_mem_cons.1 hpart).2⟩, hword⟩

theorem Usable.hash_not_mem {name : String} (h : Usable name) : '#' ∉ name.toList :=
  fun hmem => absurd (h.isPart _ hmem) (by decide)

/-- No name is the raw spelling of another. -/
theorem Usable.ne_raw {name : String} (h : Usable name) (other : String) :
    name ≠ "r#" ++ other := by
  rintro rfl
  exact h.hash_not_mem (by simp)

/-- Different names are spelled differently. -/
theorem raw_inj {a b : String} (ha : Usable a) (hb : Usable b) : raw a = raw b ↔ a = b := by
  refine ⟨fun h => ?_, congrArg raw⟩
  unfold raw at h
  split at h <;> split at h
  · have hlist := congrArg String.toList h
    simp only [String.toList_append] at hlist
    exact String.toList_inj.1 (List.append_cancel_left hlist)
  · exact absurd h.symm (hb.ne_raw a)
  · exact absurd h (ha.ne_raw b)
  · exact h

end Identifier

namespace Text

/-- The characters of identifiers are printed, and none of them is escaped. -/
theorem plain_of_isPart {c : Char} (h : Identifier.isPart c) : Plain c := by
  have hprinted : isPrinted c := by
    have hrange := Identifier.toNat_of_isPart h
    simp [isPrinted, hrange]
  unfold Plain escape
  split
  case h_7 => rw [if_pos hprinted]
  all_goals exact absurd h (by decide)

end Text

/-- A name stands in a literal as it is. -/
theorem Identifier.Usable.quote_eq {name : String} (h : Usable name) :
    Text.quote name = "\"" ++ name ++ "\"" :=
  Text.quote_of_plain fun c hc => Text.plain_of_isPart (h.isPart c hc)

end ImportBinding
