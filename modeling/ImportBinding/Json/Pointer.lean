/-
  ImportBinding — pointers into JSON values.

  A pointer is a list of tokens, each a key or an index.  Its text has a slash in
  front of each token; in a token `~` is written `~0` and a slash `~1`.

  * `Pointer.text` writes tokens, `Pointer.tokens?` reads a text back;
  * `tokens?_text`: reading undoes writing;
  * `index?` reads a token as an index: digits with at most one `+` in front.
-/
import ImportBinding.Json.Basic

namespace ImportBinding.Json

/-- The tokens of a pointer, outermost first. -/
abbrev Pointer := List String

namespace Pointer

/-! ## Tokens -/

/-- The spelling of a character in a token. -/
def escapeChar (c : Char) : List Char :=
  if c = '~' then ['~', '0'] else if c = '/' then ['~', '1'] else [c]

def escape (token : List Char) : List Char :=
  token.flatMap escapeChar

/-- The token of a spelling; a `~` that starts no escape stands for itself. -/
def unescape : List Char → List Char
  | '~' :: '0' :: rest => '~' :: unescape rest
  | '~' :: '1' :: rest => '/' :: unescape rest
  | c :: rest => c :: unescape rest
  | [] => []

theorem unescape_cons {c : Char} (h : c ≠ '~') (rest : List Char) :
    unescape (c :: rest) = c :: unescape rest := by
  rw [unescape.eq_def]
  split <;> simp_all

theorem unescape_escape (token : List Char) : unescape (escape token) = token := by
  induction token with
  | nil => rfl
  | cons c rest ih =>
    unfold escape at *
    by_cases h₀ : c = '~'
    · subst h₀; simp [escapeChar, unescape, ih]
    · by_cases h₁ : c = '/'
      · subst h₁; simp [escapeChar, unescape, ih]
      · simp [escapeChar, h₀, h₁, unescape_cons h₀, ih]

theorem slash_notMem_escape (token : List Char) : '/' ∉ escape token := by
  intro h
  obtain ⟨c, -, hc⟩ := List.mem_flatMap.mp h
  grind [escapeChar]

/-! ## Texts -/

/-- The characters of a pointer's text. -/
def chars : Pointer → List Char
  | [] => []
  | token :: rest => '/' :: escape token.toList ++ chars rest

def text (p : Pointer) : String :=
  .ofList p.chars

/-- The segments of a text: what stands between its slashes. -/
def segments (s : List Char) : List (List Char) :=
  s.splitOnP (· == '/')

/-- The tokens of a pointer's text; none when it is neither empty nor starts with a slash. -/
def tokens? (s : String) : Option Pointer :=
  match s.toList with
  | [] => some []
  | c :: rest =>
    if c = '/' then some ((segments rest).map fun t => .ofList (unescape t)) else none

theorem segments_of_notMem {s : List Char} (h : '/' ∉ s) : segments s = [s] := by
  induction s with
  | nil => rfl
  | cons c rest ih => grind [segments, List.splitOnP_cons_eq_if_modifyHead, List.modifyHead]

theorem segments_append {s : List Char} (h : '/' ∉ s) (t : List Char) :
    segments (s ++ '/' :: t) = s :: segments t := by
  induction s with
  | nil => simp [segments, List.splitOnP_cons_eq_if_modifyHead]
  | cons c rest ih => grind [segments, List.splitOnP_cons_eq_if_modifyHead, List.modifyHead]

theorem segments_chars (token : String) (p : Pointer) :
    segments (escape token.toList ++ chars p) =
      (token :: p).map fun t => escape t.toList := by
  induction p generalizing token with
  | nil => simpa [chars] using segments_of_notMem (slash_notMem_escape token.toList)
  | cons t rest ih =>
    rw [chars, List.cons_append, segments_append (slash_notMem_escape token.toList), ih]
    rfl

/-- Reading the text of a pointer gives back its tokens. -/
theorem tokens?_text (p : Pointer) : tokens? p.text = some p := by
  unfold tokens? text
  rw [String.toList_ofList]
  cases p with
  | nil => rfl
  | cons token rest =>
    simp only [chars, List.cons_append, if_true, segments_chars, List.map_map]
    simp [Function.comp_def, unescape_escape]

end Pointer

/-! ## Indexes -/

/-- The number that decimal digits add to `n`. -/
def decimal? (n : Nat) : List Char → Option Nat
  | [] => some n
  | c :: rest => if c.isDigit then decimal? (n * 10 + (c.toNat - '0'.toNat)) rest else none

/-- The number of a text of at least one digit, as long as 64 bits hold it. -/
def word? (digits : List Char) : Option Nat :=
  if digits = [] then none
  else (decimal? 0 digits).filter (· < 0x10000000000000000)

/-- The index that a token spells. -/
def index? (token : String) : Option Nat :=
  match token.toList with
  | '+' :: rest => word? rest
  | digits => word? digits

end ImportBinding.Json
