/-
  ImportBinding — what can be wrong with a JSON text.

  A fault is a cause and the number of bytes that were read when it showed.  A text
  ends too early, is malformed, or has another shape than is asked for.

  * `Cause.message` words a cause;
  * `Fault.locate` turns the number of bytes into a line and a column;
  * `Fault.display` is the wording with the position behind.
-/
import ImportBinding.Json.Printer
import ImportBinding.Text.Quoted

namespace ImportBinding.Json

/-- What was still open when the text ended. -/
inductive Unfinished where
  | list
  | object
  | string
  | value
  deriving DecidableEq, Repr

/-- How a text breaks the rules of the format. -/
inductive Malformed where
  | colon
  | listEnd
  | objectEnd
  | word
  | value
  | escape
  | number
  | range
  | codePoint
  | control
  | key
  | surrogate
  | hexEnd
  | trailingComma
  | trailing
  | tooDeep
  deriving DecidableEq, Repr

/-- What kind of value was found. -/
inductive Found where
  | null
  | bool (b : Bool)
  | number (n : Number)
  | string (s : String)
  | sequence
  | map
  deriving DecidableEq, Repr

/-- How a value differs from the shape that is asked for. -/
inductive Mismatch where
  | wrongType (found : Found) (expected : String)
  | missingField (name : String)
  | duplicateField (name : String)
  | unknownVariant (name : String) (known : List String)
  | wrongLength (length : Nat) (expected : String)
  deriving DecidableEq, Repr

/-- The cause of a fault. -/
inductive Cause where
  | ended (unfinished : Unfinished)
  | malformed (how : Malformed)
  | shape (how : Mismatch)
  deriving DecidableEq, Repr

/-- A cause and the number of bytes read when it showed. -/
structure Fault where
  cause : Cause
  offset : Nat
  deriving DecidableEq, Repr

/-! ## Wording -/

def Unfinished.message : Unfinished → String
  | list => "EOF while parsing a list"
  | object => "EOF while parsing an object"
  | string => "EOF while parsing a string"
  | value => "EOF while parsing a value"

def Malformed.message : Malformed → String
  | colon => "expected `:`"
  | listEnd => "expected `,` or `]`"
  | objectEnd => "expected `,` or `\x7d`"
  | word => "expected ident"
  | value => "expected value"
  | escape => "invalid escape"
  | number => "invalid number"
  | range => "number out of range"
  | codePoint => "invalid unicode code point"
  | control => "control character (\\u0000-\\u001F) found while parsing a string"
  | key => "key must be a string"
  | surrogate => "lone leading surrogate in hex escape"
  | hexEnd => "unexpected end of hex escape"
  | trailingComma => "trailing comma"
  | trailing => "trailing characters"
  | tooDeep => "recursion limit exceeded"

def Found.text : Found → String
  | null => "null"
  | bool b => "boolean `" ++ (if b then "true" else "false") ++ "`"
  | number (.integer n) => "integer `" ++ toString n ++ "`"
  | number (.float x) => "floating point `" ++ floatLayout.text x ++ "`"
  | string s => "string " ++ Text.quote s
  | sequence => "sequence"
  | map => "map"

/-- A name as messages mark it. -/
def mark (name : String) : String :=
  "`" ++ name ++ "`"

/-- The choice among names, as messages put it. -/
def choice : List String → String
  | [a] => mark a
  | [a, b] => mark a ++ " or " ++ mark b
  | names => "one of " ++ ", ".intercalate (names.map mark)

def Mismatch.message : Mismatch → String
  | wrongType found expected => "invalid type: " ++ found.text ++ ", expected " ++ expected
  | missingField name => "missing field " ++ mark name
  | duplicateField name => "duplicate field " ++ mark name
  | unknownVariant name known => "unknown variant " ++ mark name ++ ", expected " ++ choice known
  | wrongLength length expected =>
    "invalid length " ++ Nat.repr length ++ ", expected " ++ expected

def Cause.message : Cause → String
  | ended unfinished => unfinished.message
  | malformed how => how.message
  | shape how => how.message

/-! ## Position -/

/-- The line and the column, both counted over `bytes`, from a line and a column. -/
def position (line column : Nat) : List UInt8 → Nat × Nat
  | [] => (line, column)
  | b :: rest => if b = 0x0a then position (line + 1) 0 rest else position line (column + 1) rest

namespace Fault

/-- The line of a fault, from one, and the bytes of that line that were read. -/
def locate (text : List UInt8) (f : Fault) : Nat × Nat :=
  position 1 0 (text.take f.offset)

/-- The wording of a fault and where it showed. -/
def display (text : List UInt8) (f : Fault) : String :=
  let (line, column) := f.locate text
  f.cause.message ++ " at line " ++ Nat.repr line ++ " column " ++ Nat.repr column

end Fault

end ImportBinding.Json
