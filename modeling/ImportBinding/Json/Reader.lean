/-
  ImportBinding — readers of values.

  A reader asks a tree for a value of one shape and answers with it or with the fault
  that shows first, from left to right.  Brackets may be 127 deep around what is read;
  what is passed over has no such limit.

  * `Tree.text`, `Tree.boolean`, `Tree.optional` and `Tree.list` are the readers of the
    plain shapes, `Tree.content` that of any value;
  * `Entries.fold` goes through the members of an object in the order of the text;
  * `readAll` reads a whole text, after which nothing but blanks may come.
-/
import ImportBinding.Json.Tree

namespace ImportBinding.Json

universe u

/-- Asks a tree for a value. -/
abbrev Reader (α : Type) := Tree → Except Fault α

/-- How deep brackets may be. -/
def maxDepth : Nat := 127

/-- What is inside one more bracket, when `depth` brackets may still be opened. -/
def inside {β : Type u} (depth : Nat) (f : Nat → β) : Option β :=
  match depth with
  | 0 => none
  | d + 1 => some (f d)

def tooDeep (start : Nat) : Fault :=
  malformed .tooDeep (start + 1)

def Scalar.found : Scalar → Found
  | null => .null
  | bool b => .bool b
  | number n => .number n

def Scalar.toJson : Scalar → Json
  | null => .null
  | bool b => .bool b
  | number n => .number n

namespace Tree

/-! ## Plain shapes -/

/-- The fault of a value that is not what is expected. -/
def refuse (expected : String) : Tree → Fault
  | absent offset next? => absence offset next?
  | string l =>
    match l.kept with
    | .ok s => misshapen (.wrongType (.string s) expected) l.stop
    | .error fault => fault
  | scalar l =>
    match l.kept with
    | .ok v => misshapen (.wrongType v.found expected) l.stop
    | .error fault => fault
  | array start _ => misshapen (.wrongType .sequence expected) start
  | object start _ => misshapen (.wrongType .map expected) start

/-- A string, called `expected` where there is none. -/
def textAs (expected : String) : Reader String
  | string l => l.kept
  | t => .error (t.refuse expected)

def text : Reader String :=
  textAs "a string"

def boolean : Reader Bool
  | scalar ⟨_, _, .ok (.bool b), _⟩ => .ok b
  | t => .error (t.refuse "a boolean")

/-- A value that `null` leaves out. -/
def optional {α : Type} (read : Reader α) : Reader (Option α)
  | scalar ⟨_, _, .ok .null, _⟩ => .ok none
  | t => some <$> read t

end Tree

/-! ## Elements -/

namespace Elems

/-- The fault of a list that does not close. -/
def unclosed (comma : Bool) (offset : Nat) (next? : Option UInt8) : Fault :=
  match comma, next? with
  | false, none => ended .list offset
  | false, some _ => malformed .listEnd (offset + 1)
  | true, none => ended .value offset
  | true, some _ => malformed .trailingComma (offset + 1)

/-- The elements of a list, each read by `read`. -/
def read {α : Type} (read : Reader α) : Elems → Except Fault (List α)
  | stop false _ (some 0x5d) => .ok []
  | stop comma offset next? => .error (unclosed comma offset next?)
  | item value rest => do
    let a ← read value
    let as ← rest.read read
    return a :: as

/-- Nothing may follow an element that was the last one asked for. -/
def close : Elems → Except Fault Unit
  | stop false _ (some 0x5d) => .ok ()
  | stop false offset none => .error (ended .list offset)
  | stop false offset (some _) => .error (malformed .trailing (offset + 1))
  | stop true offset none => .error (malformed .trailing offset)
  | stop true offset (some _) => .error (malformed .trailingComma (offset + 1))
  | item (.absent offset none) _ => .error (malformed .trailing offset)
  | item value _ => .error (malformed .trailing (value.start + 1))

end Elems

/-! ## Members -/

namespace Entries

/-- The fault of an object that does not close. -/
def unclosed (comma : Bool) (offset : Nat) (next? : Option UInt8) : Fault :=
  match comma, next? with
  | false, none => ended .object offset
  | false, some _ => malformed .objectEnd (offset + 1)
  | true, none => ended .value offset
  | true, some _ => malformed .trailingComma (offset + 1)

/-- Goes through the members from left to right.  `enter` is told a key and the place
    behind it, and says how to read the value.  With the last state comes the place
    behind the closing brace. -/
def fold {σ : Type} (enter : σ → String → Nat → Except Fault (Tree → Except Fault σ)) (s : σ) :
    Entries → Except Fault (σ × Nat)
  | stop false offset (some 0x7d) => .ok (s, offset + 1)
  | stop comma offset next? => .error (unclosed comma offset next?)
  | noKey found => .error (malformed .key (found.start + 1))
  | noColon key offset next? => do
    let _ ← enter s (← key.kept) (if next? = some 0x7d then offset + 1 else offset)
    match next? with
    | none => throw (ended .object offset)
    | some _ => throw (malformed .colon (offset + 1))
  | member key colon value rest => do
    let k ← key.kept
    let read ← enter s k colon
    let s ← read value
    rest.fold enter s

/-- The members of an object in the order of the text, each value read by `read`. -/
def read {α : Type} (read : Reader α) (entries : Entries) : Except Fault (List (String × α)) := do
  let (acc, _) ← entries.fold (fun acc k _ => .ok fun t => do return (k, ← read t) :: acc) []
  return acc.reverse

end Entries

namespace Tree

/-- A list, each element read by `read`, which is missing when no bracket may be opened. -/
def list {α : Type} (read : Option (Reader α)) : Reader (List α)
  | array start elems =>
    match read with
    | none => .error (tooDeep start)
    | some read => elems.read read
  | t => .error (t.refuse "a sequence")

/-- Any value, its members in the order of the text. -/
def content : Nat → Reader Json
  | _, absent offset next? => .error (absence offset next?)
  | _, string l => .string <$> l.kept
  | _, scalar l => Scalar.toJson <$> l.kept
  | 0, array start _ => .error (tooDeep start)
  | 0, object start _ => .error (tooDeep start)
  | d + 1, array _ elems => .array <$> elems.read (content d)
  | d + 1, object _ entries => .object <$> entries.read (content d)

/-- Any value, in canonical form. -/
def value (depth : Nat) : Reader Json := fun t =>
  Json.canonical <$> t.content depth

end Tree

/-! ## Whole texts -/

/-- Reads a text that holds one value and blanks around it. -/
def readAll {α : Type} (read : Reader α) (text : List UInt8) : Except Fault α := do
  let (tree, after) := Tree.read text
  let a ← read tree
  let rest := after.skipBlank
  match rest.next? with
  | none => return a
  | some _ => throw (malformed .trailing (rest.offset + 1))

/-- Reads a text that holds any value. -/
def ofText (text : List UInt8) : Except Fault Json :=
  readAll (Tree.value maxDepth) text

def bytes (s : String) : List UInt8 :=
  s.toUTF8.data.toList

end ImportBinding.Json
