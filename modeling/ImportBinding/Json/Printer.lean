/-
  ImportBinding — the text of a JSON value.

  * `Json.compact` writes a value without blanks;
  * `Json.pretty` writes a member or item a line, two more blanks for each level;
  * in a string a quote, a backslash and the controls below U+0020 are escaped;
  * a binary number has its shortest digits, positional from 10^-5 to below 10^16.
-/
import ImportBinding.Json.Basic
import ImportBinding.Decimal.Shortest

namespace ImportBinding.Json

/-- Binary numbers are positional from 10^-5 to below 10^16, else they have an exponent
    with its sign; a whole one ends in `.0`. -/
def floatLayout : Layout :=
  ⟨-5, 15, "e", "+", ".0"⟩

def Number.text : Number → String
  | integer n => toString n
  | float x => floatLayout.text x

/-- The spelling of a character in a string. -/
def escape (c : Char) : List Char :=
  if c = '"' then ['\\', '"']
  else if c = '\\' then ['\\', '\\']
  else if c = '\x08' then ['\\', 'b']
  else if c = '\x0c' then ['\\', 'f']
  else if c = '\n' then ['\\', 'n']
  else if c = '\r' then ['\\', 'r']
  else if c = '\t' then ['\\', 't']
  else if c.toNat < 0x20 then
    ['\\', 'u', '0', '0', Nat.digitChar (c.toNat / 16), Nat.digitChar (c.toNat % 16)]
  else [c]

def stringText (s : String) : String :=
  .ofList ('"' :: s.toList.flatMap escape ++ ['"'])

/-- The text of a value that holds no others. -/
def leafText : Json → String
  | bool true => "true"
  | bool false => "false"
  | number n => n.text
  | string s => stringText s
  | _ => "null"

/-! ## Without blanks -/

mutual

def compact : Json → String
  | array items => "[" ++ compactItems items ++ "]"
  | object members => "\x7b" ++ compactMembers members ++ "\x7d"
  | v => v.leafText

/-- The texts of the items, separated by commas. -/
def compactItems : List Json → String
  | [] => ""
  | [v] => v.compact
  | v :: rest => v.compact ++ "," ++ compactItems rest

/-- The texts of the members, separated by commas. -/
def compactMembers : Members → String
  | [] => ""
  | [(k, v)] => stringText k ++ ":" ++ v.compact
  | (k, v) :: rest => stringText k ++ ":" ++ v.compact ++ "," ++ compactMembers rest

end

/-! ## With a line for each part -/

/-- The start of a line at a level. -/
def newline (level : Nat) : String :=
  .ofList ('\n' :: List.replicate (2 * level) ' ')

mutual

/-- The text of a value whose own line starts at `level`. -/
def prettyAt (level : Nat) : Json → String
  | array [] => "[]"
  | array items => "[" ++ prettyItems (level + 1) items ++ newline level ++ "]"
  | object [] => "\x7b\x7d"
  | object members => "\x7b" ++ prettyMembers (level + 1) members ++ newline level ++ "\x7d"
  | v => v.leafText

def prettyItems (level : Nat) : List Json → String
  | [] => ""
  | [v] => newline level ++ v.prettyAt level
  | v :: rest => newline level ++ v.prettyAt level ++ "," ++ prettyItems level rest

def prettyMembers (level : Nat) : Members → String
  | [] => ""
  | [(k, v)] => newline level ++ stringText k ++ ": " ++ v.prettyAt level
  | (k, v) :: rest =>
    newline level ++ stringText k ++ ": " ++ v.prettyAt level ++ "," ++ prettyMembers level rest

end

/-- The text of a value with a line for each item and member. -/
def pretty (v : Json) : String :=
  v.prettyAt 0

end ImportBinding.Json
