/-
  ImportBinding — quoted literals.

  A text is quoted between two double quotes.  A quote and a backslash take a
  backslash in front, four controls have a letter of their own, and every other
  character without a printed form, that extends the character before it, or that
  a display leaves out, is spelled `\u{…}` with its code point in lower-case
  hexadecimal.

  * `quote` writes the literal;
  * `quote_of_plain`: a text of plain characters stands between the quotes as it is.
-/
import ImportBinding.Text.Extending

namespace ImportBinding.Text

/-- Whether a character may stand for itself in a quoted literal. -/
def isPrinted (c : Char) : Bool :=
  let n := c.toNat
  (0x20 ≤ n && n < 0x7f) ||
    !(extending.contains n || unprintable.contains n || fillers.contains n)

/-- The spelling of a character by its code point. -/
def codePoint (c : Char) : List Char :=
  ['\\', 'u', '\x7b'] ++ Nat.toDigits 16 c.toNat ++ ['\x7d']

/-- The spelling of a character inside a quoted literal. -/
def escape : Char → List Char
  | '"' => ['\\', '"']
  | '\\' => ['\\', '\\']
  | '\n' => ['\\', 'n']
  | '\r' => ['\\', 'r']
  | '\t' => ['\\', 't']
  | '\x00' => ['\\', '0']
  | c => if isPrinted c then [c] else codePoint c

/-- The quoted literal of a text. -/
def quote (s : String) : String :=
  .ofList ('"' :: s.toList.flatMap escape ++ ['"'])

/-- A character that a quoted literal shows unchanged. -/
def Plain (c : Char) : Prop :=
  escape c = [c]

/-- A text of plain characters stands between the quotes as it is. -/
theorem quote_of_plain {s : String} (h : ∀ c ∈ s.toList, Plain c) :
    quote s = "\"" ++ s ++ "\"" := by
  have hs : s.toList.flatMap escape = s.toList := by
    generalize s.toList = l at h
    induction l with
    | nil => rfl
    | cons c l ih =>
      have hc : escape c = [c] := h c (by simp)
      rw [List.flatMap_cons, hc, ih fun d hd => h d (by simp [hd])]; rfl
  apply String.toList_inj.mp
  simp [quote, hs]

end ImportBinding.Text
