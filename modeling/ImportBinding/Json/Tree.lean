/-
  ImportBinding — the form of a JSON text.

  A text is read once, from left to right, without regard to what is wanted of it.
  The tree that comes out holds every place, and where the text is broken off or
  goes wrong it holds what stands there and nothing after it.  What the text means,
  and which fault shows first, is then a question to the tree.

  * `Tree.read` reads the value at the start of a text;
  * `Tree.start` is the place of a value;
  * `Tree.pass` passes over a value, of which only the form counts;
  * `Tree.ofJson` is the tree of a value that comes from no text.
-/
import ImportBinding.Json.Literal

namespace ImportBinding.Json

mutual

/-- The form of a value. -/
inductive Tree where
  /-- No value starts with what comes next. -/
  | absent (offset : Nat) (next? : Option UInt8)
  | string (literal : Literal String)
  | scalar (literal : Literal Scalar)
  | array (start : Nat) (elems : Elems)
  | object (start : Nat) (entries : Entries)

/-- What follows an opening bracket, or an element. -/
inductive Elems where
  /-- No element follows; `comma` when a comma was passed. -/
  | stop (comma : Bool) (offset : Nat) (next? : Option UInt8)
  | item (value : Tree) (rest : Elems)

/-- What follows an opening brace, or a member. -/
inductive Entries where
  /-- No member follows; `comma` when a comma was passed. -/
  | stop (comma : Bool) (offset : Nat) (next? : Option UInt8)
  /-- A value that is no key stands where a key should. -/
  | noKey (found : Tree)
  /-- No colon follows the key. -/
  | noColon (key : Literal String) (offset : Nat) (next? : Option UInt8)
  | member (key : Literal String) (colon : Nat) (value : Tree) (rest : Entries)

end

/-! ## Reading -/

mutual

/-- The value at a cursor and the place after it. -/
def readValue : Nat → Cursor → Tree × Cursor
  | 0, c => (.absent c.offset none, c.cut)
  | fuel + 1, c =>
    let c := c.skipBlank
    match c.next? with
    | none => (.absent c.offset none, c)
    | some b =>
      if b = 0x5b then
        let (elems, after) := readElems fuel true c.step
        (.array c.offset elems, after)
      else if b = 0x7b then
        let (entries, after) := readEntries fuel true c.step
        (.object c.offset entries, after)
      else if b = 0x22 then
        let (literal, after) := Literal.string c.step
        (.string literal, after)
      else
        match Literal.scalar? b c with
        | some (literal, after) => (.scalar literal, after)
        | none => (.absent c.offset (some b), c.cut)

/-- The elements at a cursor, of which the first needs no comma. -/
def readElems : Nat → Bool → Cursor → Elems × Cursor
  | 0, _, c => (.stop false c.offset none, c.cut)
  | fuel + 1, first, c =>
    let c := c.skipBlank
    match c.next? with
    | none => (.stop false c.offset none, c)
    | some b =>
      if b = 0x5d then (.stop false c.offset (some b), c.step)
      else if first then readItem fuel c
      else if b = 0x2c then
        let c := c.step.skipBlank
        match c.next? with
        | none => (.stop true c.offset none, c)
        | some d =>
          if d = 0x5d then (.stop true c.offset (some d), c.cut) else readItem fuel c
      else (.stop false c.offset (some b), c.cut)

/-- The element at a cursor and those after it. -/
def readItem : Nat → Cursor → Elems × Cursor
  | 0, c => (.stop false c.offset none, c.cut)
  | fuel + 1, c =>
    let (value, c) := readValue fuel c
    let (rest, c) := readElems fuel false c
    (.item value rest, c)

/-- The members at a cursor, of which the first needs no comma. -/
def readEntries : Nat → Bool → Cursor → Entries × Cursor
  | 0, _, c => (.stop false c.offset none, c.cut)
  | fuel + 1, first, c =>
    let c := c.skipBlank
    match c.next? with
    | none => (.stop false c.offset none, c)
    | some b =>
      if b = 0x7d then (.stop false c.offset (some b), c.step)
      else if first then readMember fuel c
      else if b = 0x2c then
        let c := c.step.skipBlank
        match c.next? with
        | none => (.stop true c.offset none, c)
        | some d =>
          if d = 0x7d then (.stop true c.offset (some d), c.cut) else readMember fuel c
      else (.stop false c.offset (some b), c.cut)

/-- The member at a cursor and those after it. -/
def readMember : Nat → Cursor → Entries × Cursor
  | 0, c => (.stop false c.offset none, c.cut)
  | fuel + 1, c =>
    if c.next? = some 0x22 then
      let (key, c) := Literal.string c.step
      let c := c.skipBlank
      if c.next? = some 0x3a then
        let (value, after) := readValue fuel c.step
        let (rest, after) := readEntries fuel false after
        (.member key c.offset value rest, after)
      else (.noColon key c.offset c.next?, c.cut)
    else (.noKey (readValue fuel c).1, c.cut)

end

namespace Tree

/-- The value at the start of a text and the place after it.  No more than three steps are
    made from one byte to the next, which bounds the fuel. -/
def read (text : List UInt8) : Tree × Cursor :=
  readValue (3 * text.length + 3) (.start text)

/-- The place where a value starts. -/
def start : Tree → Nat
  | absent offset _ => offset
  | string literal => literal.start
  | scalar literal => literal.start
  | array start _ => start
  | object start _ => start

/-- The fault of a place where no value starts. -/
def absence (offset : Nat) : Option UInt8 → Fault
  | none => ended .value offset
  | some _ => malformed .value (offset + 1)

end Tree

/-! ## Passing over -/

/-- The fault of a literal that is passed over. -/
def Literal.pass {α : Type} (l : Literal α) : Except Fault Unit :=
  match l.passed with
  | some fault => .error fault
  | none => .ok ()

mutual

/-- The first fault in the form of a value. -/
def Tree.pass : Tree → Except Fault Unit
  | .absent offset next? => .error (Tree.absence offset next?)
  | .string literal => literal.pass
  | .scalar literal => literal.pass
  | .array _ elems => elems.pass
  | .object _ entries => entries.pass

def Elems.pass : Elems → Except Fault Unit
  | .stop false _ (some 0x5d) => .ok ()
  | .stop false offset none => .error (ended .list offset)
  | .stop false offset (some _) => .error (malformed .listEnd (offset + 1))
  | .stop true offset next? => .error (Tree.absence offset next?)
  | .item value rest => do value.pass; rest.pass

def Entries.pass : Entries → Except Fault Unit
  | .stop false _ (some 0x7d) => .ok ()
  | .stop _ offset none => .error (ended .object offset)
  | .stop false offset (some _) => .error (malformed .objectEnd (offset + 1))
  | .stop true offset (some _) => .error (malformed .key (offset + 1))
  | .noKey found => .error (malformed .key (found.start + 1))
  | .noColon key offset next? => do
    key.pass
    match next? with
    | none => throw (ended .object offset)
    | some _ => throw (malformed .colon (offset + 1))
  | .member key _ value rest => do key.pass; value.pass; rest.pass

end

/-! ## Values without a text -/

/-- The literal of a value that comes from no text. -/
def Literal.ofValue {α : Type} (value : α) : Literal α :=
  ⟨0, 0, .ok value, none⟩

mutual

def Tree.ofJson : Json → Tree
  | .null => .scalar (.ofValue .null)
  | .bool b => .scalar (.ofValue (.bool b))
  | .number n => .scalar (.ofValue (.number n))
  | .string s => .string (.ofValue s)
  | .array items => .array 0 (Elems.ofItems items)
  | .object members => .object 0 (Entries.ofMembers members)

def Elems.ofItems : List Json → Elems
  | [] => .stop false 0 (some 0x5d)
  | v :: rest => .item (.ofJson v) (Elems.ofItems rest)

def Entries.ofMembers : Members → Entries
  | [] => .stop false 0 (some 0x7d)
  | (k, v) :: rest => .member (.ofValue k) 0 (.ofJson v) (Entries.ofMembers rest)

end

end ImportBinding.Json
