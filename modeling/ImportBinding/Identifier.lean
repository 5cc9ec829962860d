/-
  ImportBinding — identifiers of the generated source.

  A name is usable when it starts with an ASCII letter or `_`, goes on with ASCII
  letters, digits and `_`, and is none of the words that cannot be written raw.
  A keyword is spelled raw, with `r#` in front.

  * `Identifier.spell` is the spelling of a name, or why there is none;
  * `moduleName` is the name of the module generated for a container: words
    start with a capital in a container's name and with `_` in a module's.
-/
namespace ImportBinding

namespace Identifier

/-- The words that are spelled raw. -/
def keywords : List String :=
  ["abstract", "as", "async", "await", "become", "box", "break", "const", "continue", "do", "dyn",
    "else", "enum", "extern", "false", "final", "fn", "for", "gen", "if", "impl", "in", "let",
    "loop", "macro", "match", "mod", "move", "mut", "override", "priv", "pub", "ref", "return",
    "static", "struct", "trait", "true", "try", "type", "typeof", "unsafe", "unsized", "use",
    "virtual", "where", "while", "yield"]

/-- The words that cannot be written raw either. -/
def unusable : List String :=
  ["_", "crate", "self", "Self", "super"]

/-- Why a name is not usable. -/
inductive Fault where
  | empty
  | badStart
  | badCharacter
  | reserved
  deriving DecidableEq, Repr

def Fault.message : Fault → String
  | empty => "empty name"
  | badStart => "must start with a letter or '_'"
  | badCharacter => "only ASCII letters, digits and '_' are allowed"
  | reserved => "reserved keyword"

/-- The characters that may start an identifier. -/
def isStart (c : Char) : Bool :=
  c == '_' || c.isAlpha

/-- The characters of an identifier. -/
def isPart (c : Char) : Bool :=
  c == '_' || c.isAlphanum

/-- What keeps a name from being usable. -/
def fault? (name : String) : Option Fault :=
  match name.toList with
  | [] => some .empty
  | c :: rest =>
    if isStart c then
      if rest.all isPart then if name ∈ unusable then some .reserved else none
      else some .badCharacter
    else some .badStart

/-- The spelling of a name without fault, raw when it is a keyword. -/
def raw (name : String) : String :=
  if name ∈ keywords then "r#" ++ name else name

/-- The spelling of a usable name. -/
def spell (name : String) : Except Fault String :=
  match fault? name with
  | some fault => .error fault
  | none => .ok (raw name)

/-- The names that can be spelled. -/
def Usable (name : String) : Prop :=
  (∃ c rest, name.toList = c :: rest ∧ isStart c ∧ ∀ d ∈ rest, isPart d) ∧ name ∉ unusable

theorem fault?_eq_none_iff {name : String} : fault? name = none ↔ Usable name := by
  unfold fault? Usable
  cases name.toList with
  | nil => simp
  | cons c rest => grind

/-- The usable names are those that have a spelling. -/
theorem spell_eq_ok_iff {name s : String} : spell name = .ok s ↔ Usable name ∧ s = raw name := by
  rw [← fault?_eq_none_iff, spell]
  cases fault? name <;> simp [eq_comm]

end Identifier

/-- Whether a word starts at `c`: at a capital after a small letter or a digit, and
    at the last of several capitals when a small letter follows it. -/
def opensWord (prev : Option Char) (c : Char) (next : Option Char) : Bool :=
  c.isUpper && prev.any fun p =>
    p.isLower || p.isDigit || (p.isUpper && next.any Char.isLower)

/-- The characters of a module's name, after the character `prev`. -/
def moduleChars (prev : Option Char) : List Char → List Char
  | [] => []
  | c :: rest =>
    let tail := c.toLower :: moduleChars (some c) rest
    if opensWord prev c rest.head? then '_' :: tail else tail

/-- The name of the module generated for a container: `HTTPClient` gives `http_client`. -/
def moduleName (container : String) : String :=
  .ofList (moduleChars none container.toList)

end ImportBinding
