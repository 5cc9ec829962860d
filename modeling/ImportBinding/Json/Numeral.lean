/-
  ImportBinding — the numerals of a JSON text.

  A numeral is whole digits without a leading zero, then a fraction and a power of
  ten, each of which may be missing.

  * `Numeral.scan` reads one, or says where it is broken;
  * `Numeral.value` is its number: digits are taken as long as 64 bits hold them; of
    those that follow, the whole ones count as powers of ten and the rest not at all.
-/
import ImportBinding.Json.Cursor

namespace ImportBinding.Json

/-- The parts of a numeral, as digits. -/
structure Numeral where
  negative : Bool
  whole : List UInt8
  fraction : List UInt8
  /-- Whether the power of ten is negative, and its digits. -/
  power : Option (Bool × List UInt8)
  /-- Where the digits of the power start. -/
  powerStart : Nat
  /-- Where the numeral ends. -/
  stop : Nat
  deriving Repr

namespace Numeral

/-- Where a numeral is broken, and whether the text ended there. -/
structure Broken where
  offset : Nat
  atEnd : Bool

/-- The fault of a broken numeral whose number is wanted. -/
def Broken.wanted (b : Broken) : Fault :=
  if b.atEnd then ended .value b.offset else malformed .number b.offset

/-- The fault of a broken numeral that is passed over. -/
def Broken.passed (b : Broken) : Fault :=
  malformed .number b.offset

/-- The digits that come next and the place after them. -/
def digits (c : Cursor) : List UInt8 × Cursor :=
  (c.rest.takeWhile isDigit, c.skip isDigit)

/-- The place where a digit is missing. -/
def missing (c : Cursor) : Broken :=
  ⟨ahead c.offset c.next?, c.next?.isNone⟩

def scanWhole (c : Cursor) : Except Broken (List UInt8 × Cursor) :=
  let (ds, after) := digits c
  match ds with
  | [] => .error (missing c)
  | d :: more =>
    if d = 0x30 ∧ more ≠ [] then .error ⟨c.offset + 2, false⟩ else .ok (ds, after)

/-- The digits behind a point, none when there is no point. -/
def scanFraction (c : Cursor) : Except Broken (List UInt8 × Cursor) :=
  if c.next? = some 0x2e then
    let (ds, after) := digits c.step
    if ds = [] then .error (missing c.step) else .ok (ds, after)
  else .ok ([], c)

/-- The power of ten behind an `e`, and where its digits start. -/
def scanPower (c : Cursor) : Except Broken (Option (Bool × List UInt8) × Nat × Cursor) :=
  if c.next? = some 0x65 ∨ c.next? = some 0x45 then
    let sign := c.step.next?
    let c := if sign = some 0x2b ∨ sign = some 0x2d then c.step.step else c.step
    let (ds, after) := digits c
    if ds = [] then .error (missing c) else .ok (some (sign == some 0x2d, ds), c.offset, after)
  else .ok (none, c.offset, c)

/-- The numeral that starts at a cursor and the place after it. -/
def scan (c : Cursor) : Except Broken (Numeral × Cursor) := do
  let negative := c.next? == some 0x2d
  let (whole, c) ← scanWhole (if negative then c.step else c)
  let (fraction, c) ← scanFraction c
  let (power, powerStart, c) ← scanPower c
  return (⟨negative, whole, fraction, power, powerStart, c.offset⟩, c)

/-! ## Value -/

/-- The largest number of 64 bits. -/
def maxWord : Nat := 0xffffffffffffffff

/-- The largest magnitude of a negative whole number. -/
def maxNegative : Nat := 0x8000000000000000

/-- The number that digits add to `n` as long as it is at most `limit`, and the digits
    that are left. -/
def accumulate (limit n : Nat) : List UInt8 → Nat × List UInt8
  | [] => (n, [])
  | d :: ds =>
    let n' := n * 10 + digitValue d
    if n' ≤ limit then accumulate limit n' ds else (n, d :: ds)

/-- The whole number with a magnitude; one that no word of 64 bits holds is binary, and
    so is a negative zero. -/
def ofMagnitude (negative : Bool) (n : Nat) : Number :=
  if negative then
    if n = 0 ∨ maxNegative < n then .float { Binary64.ofNat n with negative } else .integer (-n)
  else .integer n

/-- The number of a significand and a power of ten. -/
def ofDecimal (stop : Nat) (negative : Bool) (significand : Nat) (power : Int) :
    Except Fault Number :=
  match Binary64.ofDecimal? negative significand power with
  | some x => .ok (.float x)
  | none => .error (malformed .range stop)

/-- The greatest power that is read. -/
def maxPower : Nat := 0x7fffffff

/-- The number of a numeral.  A power that is too long to be read is out of range when it
    is positive and there is a significand, and gives zero else. -/
def value (x : Numeral) : Except Fault Number :=
  let (n, left) := accumulate maxWord 0 x.whole
  if x.fraction = [] ∧ x.power = none ∧ left = [] then .ok (ofMagnitude x.negative n)
  else
    let (s, ignored) := accumulate maxWord n x.fraction
    let power : Int := (left.length : Int) + ignored.length - x.fraction.length
    match x.power with
    | none => ofDecimal x.stop x.negative s power
    | some (down, ds) =>
      match accumulate maxPower 0 ds with
      | (e, []) => ofDecimal x.stop x.negative s (if down then power - e else power + e)
      | (_, unread) =>
        if s ≠ 0 ∧ !down then
          .error (malformed .range (x.powerStart + (ds.length - unread.length) + 1))
        else .ok (.float (Binary64.zero x.negative))

end Numeral

end ImportBinding.Json
