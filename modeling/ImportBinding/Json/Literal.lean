/-
  ImportBinding — the literals of a JSON text.

  A literal can be kept, and then it has a value, or be passed over, and then its
  form is all that counts: surrogates may stand alone, bytes need not be UTF-8, and a
  number may have any size.

  * `Literal` holds both outcomes and the place after it;
  * `Literal.string` reads a string from behind its opening quote;
  * `Literal.scalar?` reads a number or one of the three words.
-/
import ImportBinding.Json.Numeral

namespace ImportBinding.Json

/-- A value without parts that is no string. -/
inductive Scalar where
  | null
  | bool (b : Bool)
  | number (n : Number)
  deriving DecidableEq, Repr

/-- A literal of a text. -/
structure Literal (α : Type) where
  start : Nat
  /-- The bytes up to its end. -/
  stop : Nat
  /-- Its value, when it is kept. -/
  kept : Except Fault α
  /-- What is wrong with it even when it is passed over. -/
  passed : Option Fault

/-! ## Strings -/

def hexValue? (b : UInt8) : Option Nat :=
  if 0x30 ≤ b ∧ b ≤ 0x39 then some (b.toNat - 0x30)
  else if 0x61 ≤ b ∧ b ≤ 0x66 then some (b.toNat - 0x61 + 10)
  else if 0x41 ≤ b ∧ b ≤ 0x46 then some (b.toNat - 0x41 + 10)
  else none

def hexUnit? (a b c d : UInt8) : Option Nat := do
  return (((← hexValue? a) * 16 + (← hexValue? b)) * 16 + (← hexValue? c)) * 16 + (← hexValue? d)

/-- The byte that a letter behind a backslash stands for. -/
def unescape? (b : UInt8) : Option UInt8 :=
  if b = 0x22 ∨ b = 0x5c ∨ b = 0x2f then some b
  else if b = 0x62 then some 0x08
  else if b = 0x66 then some 0x0c
  else if b = 0x6e then some 0x0a
  else if b = 0x72 then some 0x0d
  else if b = 0x74 then some 0x09
  else none

/-- The first half of a surrogate pair. -/
def isLeading (n : Nat) : Bool :=
  0xd800 ≤ n && n ≤ 0xdbff

/-- The second half of a surrogate pair. -/
def isTrailing (n : Nat) : Bool :=
  0xdc00 ≤ n && n ≤ 0xdfff

/-- The bytes of a code point, put in reverse order in front of `acc`. -/
def pushCode (n : Nat) (acc : List UInt8) : List UInt8 :=
  (String.utf8EncodeChar (Char.ofNat n)).reverse ++ acc

/-- The bytes that a string stands for, after those of `acc` in reverse order, and the
    place behind its closing quote. -/
def textBytes (acc : List UInt8) (offset : Nat) : List UInt8 → Except Fault (List UInt8 × Cursor)
  | [] => .error (ended .string offset)
  | b :: rest =>
    if b = 0x22 then .ok (acc.reverse, ⟨offset + 1, rest⟩)
    else if b = 0x5c then
      match rest with
      | [] => .error (ended .string (offset + 1))
      | e :: rest =>
        if e = 0x75 then
          match rest with
          | h₁ :: h₂ :: h₃ :: h₄ :: rest =>
            match hexUnit? h₁ h₂ h₃ h₄ with
            | none => .error (malformed .escape (offset + 6))
            | some n =>
              if isTrailing n then .error (malformed .surrogate (offset + 6))
              else if isLeading n then
                match rest with
                | [] => .error (ended .string (offset + 6))
                | [b] =>
                  if b = 0x5c then .error (ended .string (offset + 7))
                  else .error (malformed .hexEnd (offset + 7))
                | b :: u :: rest =>
                  if b ≠ 0x5c then .error (malformed .hexEnd (offset + 7))
                  else if u ≠ 0x75 then .error (malformed .hexEnd (offset + 8))
                  else
                    match rest with
                    | l₁ :: l₂ :: l₃ :: l₄ :: rest =>
                      match hexUnit? l₁ l₂ l₃ l₄ with
                      | none => .error (malformed .escape (offset + 12))
                      | some m =>
                        if isTrailing m then
                          textBytes (pushCode ((n - 0xd800) * 0x400 + (m - 0xdc00) + 0x10000) acc)
                            (offset + 12) rest
                        else .error (malformed .surrogate (offset + 12))
                    | short => .error (ended .string (offset + 8 + short.length))
              else textBytes (pushCode n acc) (offset + 6) rest
          | short => .error (ended .string (offset + 2 + short.length))
        else
          match unescape? e with
          | some x => textBytes (x :: acc) (offset + 2) rest
          | none => .error (malformed .escape (offset + 2))
    else if b < 0x20 then .error (malformed .control (offset + 1))
    else textBytes (b :: acc) (offset + 1) rest

/-- The place behind the closing quote of a string that is passed over. -/
def passText (offset : Nat) : List UInt8 → Except Fault Cursor
  | [] => .error (ended .string offset)
  | b :: rest =>
    if b = 0x22 then .ok ⟨offset + 1, rest⟩
    else if b = 0x5c then
      match rest with
      | [] => .error (ended .string (offset + 1))
      | e :: rest =>
        if e = 0x75 then
          match rest with
          | h₁ :: h₂ :: h₃ :: h₄ :: rest =>
            if (hexUnit? h₁ h₂ h₃ h₄).isSome then passText (offset + 6) rest
            else .error (malformed .escape (offset + 6))
          | short => .error (ended .string (offset + 2 + short.length))
        else if (unescape? e).isSome then passText (offset + 2) rest
        else .error (malformed .escape (offset + 2))
    else if b < 0x20 then .error (malformed .control offset)
    else passText (offset + 1) rest

/-- The text that a string stands for. -/
def keepText (c : Cursor) : Except Fault String := do
  let (bytes, c) ← textBytes [] c.offset c.rest
  match String.fromUTF8? ⟨bytes.toArray⟩ with
  | some s => return s
  | none => throw (malformed .codePoint c.offset)

namespace Literal

/-- The literal of a string, read from behind its opening quote, and the place after it;
    nothing can be read after one that is broken off. -/
def string (c : Cursor) : Literal String × Cursor :=
  match passText c.offset c.rest with
  | .ok after => (⟨c.offset - 1, after.offset, keepText c, none⟩, after)
  | .error fault => (⟨c.offset - 1, fault.offset, keepText c, some fault⟩, c.cut)

/-! ## Scalars -/

/-- The place behind a word, whose bytes must come next. -/
def expect : List UInt8 → Cursor → Except Fault Cursor
  | [], c => .ok c
  | w :: ws, c =>
    match c.next? with
    | none => .error (ended .value c.offset)
    | some b => if b = w then expect ws c.step else .error (malformed .word (c.offset + 1))

/-- The literal of a word that stands for `value`. -/
def word (letters : List UInt8) (value : Scalar) (c : Cursor) : Literal Scalar × Cursor :=
  match expect letters c with
  | .ok after => (⟨c.offset, after.offset, .ok value, none⟩, after)
  | .error fault => (⟨c.offset, fault.offset, .error fault, some fault⟩, c.cut)

def number (c : Cursor) : Literal Scalar × Cursor :=
  match Numeral.scan c with
  | .ok (x, after) => (⟨c.offset, after.offset, x.value.map .number, none⟩, after)
  | .error broken => (⟨c.offset, broken.offset, .error broken.wanted, some broken.passed⟩, c.cut)

/-- The scalar that starts with the byte `b` at a cursor; none when no scalar does. -/
def scalar? (b : UInt8) (c : Cursor) : Option (Literal Scalar × Cursor) :=
  if b = 0x2d ∨ isDigit b then some (number c)
  else if b = 0x6e then some (word [0x6e, 0x75, 0x6c, 0x6c] .null c)
  else if b = 0x74 then some (word [0x74, 0x72, 0x75, 0x65] (.bool true) c)
  else if b = 0x66 then some (word [0x66, 0x61, 0x6c, 0x73, 0x65] (.bool false) c)
  else none

end Literal

end ImportBinding.Json
