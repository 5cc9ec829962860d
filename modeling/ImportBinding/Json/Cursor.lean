/-
  ImportBinding — a place in a text.

  * `Cursor` is the rest of a text and the number of bytes before it;
  * `skipBlank` passes the four blanks of the format;
  * `ended`, `malformed` and `ahead` are the faults at a cursor: the last counts the
    byte that stands there as read.
-/
import ImportBinding.Json.Fault

namespace ImportBinding.Json

/-- A place in a text. -/
structure Cursor where
  offset : Nat
  /-- The bytes from there on. -/
  rest : List UInt8
  deriving Repr

def isBlank (b : UInt8) : Bool :=
  b == 0x20 || b == 0x0a || b == 0x0d || b == 0x09

def isDigit (b : UInt8) : Bool :=
  0x30 ≤ b && b ≤ 0x39

def digitValue (b : UInt8) : Nat :=
  b.toNat - 0x30

/-- An early end after `offset` bytes. -/
def ended (unfinished : Unfinished) (offset : Nat) : Fault :=
  ⟨.ended unfinished, offset⟩

/-- A broken rule after `offset` bytes. -/
def malformed (how : Malformed) (offset : Nat) : Fault :=
  ⟨.malformed how, offset⟩

/-- Another shape after `offset` bytes. -/
def misshapen (how : Mismatch) (offset : Nat) : Fault :=
  ⟨.shape how, offset⟩

namespace Cursor

def start (text : List UInt8) : Cursor :=
  ⟨0, text⟩

/-- The place after the bytes of the class `p` that come next. -/
def skip (p : UInt8 → Bool) (c : Cursor) : Cursor :=
  ⟨c.offset + (c.rest.takeWhile p).length, c.rest.dropWhile p⟩

/-- The place after the blanks that come next. -/
def skipBlank (c : Cursor) : Cursor :=
  c.skip isBlank

def next? (c : Cursor) : Option UInt8 :=
  c.rest.head?

/-- The place after the byte that comes next. -/
def step (c : Cursor) : Cursor :=
  match c.rest with
  | [] => c
  | _ :: rest => ⟨c.offset + 1, rest⟩

/-- The end of what can be read: nothing follows a place where a text is broken off. -/
def cut (c : Cursor) : Cursor :=
  ⟨c.offset, []⟩

end Cursor

/-- The number of bytes read when the byte `next?` at `offset` has been looked at. -/
def ahead (offset : Nat) (next? : Option UInt8) : Nat :=
  if next?.isSome then offset + 1 else offset

end ImportBinding.Json
