/-
  ImportBinding — blank characters, trimming and words.

  A character is blank when it has the property `White_Space`: the six ASCII
  blanks, U+0085, U+00A0, and the separators among U+1680 … U+3000.

  * `trim` drops the blanks at both ends of a text;
  * `words` are the maximal runs without a blank, from left to right;
  * `runs` are the maximal runs of characters of any one class.
-/
namespace ImportBinding.Text

def isBlank (c : Char) : Bool :=
  let n := c.toNat
  (9 ≤ n && n ≤ 13) || n == 0x20 || n == 0x85 || n == 0xa0 || n == 0x1680 ||
    (0x2000 ≤ n && n ≤ 0x200a) || n == 0x2028 || n == 0x2029 || n == 0x202f || n == 0x205f ||
    n == 0x3000

/-- `s` without the blanks at its ends, as characters. -/
def trimmed (s : List Char) : List Char :=
  (((s.dropWhile isBlank).reverse).dropWhile isBlank).reverse

/-- The text without the blanks at its ends. -/
def trim (s : String) : String :=
  .ofList (trimmed s.toList)

/-- The maximal non-empty runs of characters of the class `p`, from left to right. -/
def runs (p : Char → Bool) (s : String) : List String :=
  ((s.toList.splitOnP (!p ·)).filter (!·.isEmpty)).map .ofList

/-- The words of a text: its runs without a blank. -/
def words (s : String) : List String :=
  runs (!isBlank ·) s

/-- A text is blank when nothing but blanks stand in it. -/
def Blank (s : String) : Prop :=
  ∀ c ∈ s.toList, isBlank c

instance (s : String) : Decidable (Blank s) :=
  List.decidableBAll (fun c => isBlank c) s.toList

end ImportBinding.Text
