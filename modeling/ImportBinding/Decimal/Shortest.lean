/-
  ImportBinding — the shortest decimal text of a binary number.

  A number stands for the reals that round to it: half a step to either side, a
  quarter step below a power of two, the ends included when the mantissa is even.
  Of the decimal grids 10^k the coarsest with a point there is taken, and on it
  the point nearest to the number, a tie going to the even one.

  * `Binary64.shortest` gives that point, `d · 10 ^ k`;
  * `Layout` says where a text is positional and how an exponent is marked;
  * `Layout.text` is the text of a number.
-/
import ImportBinding.Decimal.Binary64

namespace ImportBinding

namespace Binary64

/-- The interval of a number, in quarters of its step. -/
structure Interval where
  low : Nat
  mid : Nat
  high : Nat
  /-- Whether the ends belong to it. -/
  closed : Bool

/-- The reals that round to a number. -/
def interval (x : Binary64) : Interval :=
  let below := if x.mantissa = minMantissa ∧ minExponent < x.exponent then 1 else 2
  ⟨4 * x.mantissa - below, 4 * x.mantissa, 4 * x.mantissa + 2, x.mantissa % 2 == 0⟩

/-- Whether `n` lies in the interval when a quarter step counts `unit`. -/
def Interval.contains (i : Interval) (unit n : Nat) : Bool :=
  if i.closed then i.low * unit ≤ n && n ≤ i.high * unit
  else i.low * unit < n && n < i.high * unit

/-- A quarter step and a step of the grid `10 ^ k` as multiples of one small real. -/
def units (x : Binary64) (k : Int) : Nat × Nat :=
  let e := x.exponent - 2
  (Nat.pow 2 e.toNat * Nat.pow 10 (-k).toNat, Nat.pow 10 k.toNat * Nat.pow 2 (-e).toNat)

/-- The point of the grid `10 ^ k` that lies in the interval and nearest to the number. -/
def onGrid? (x : Binary64) (k : Int) : Option Nat :=
  let i := x.interval
  let (unit, step) := x.units k
  let d := i.mid * unit / step
  let near := 2 * (i.mid * unit - d * step)
  let lower := i.contains unit (d * step)
  let upper := i.contains unit ((d + 1) * step)
  if lower && upper then
    some (if near < step then d else if step < near then d + 1 else d + d % 2)
  else if lower then some d
  else if upper then some (d + 1)
  else none

/-- The first grid with a point, looking at `fuel` of them from `10 ^ k` downwards. -/
def search (x : Binary64) : Nat → Int → Nat × Int
  | 0, k => (0, k)
  | fuel + 1, k =>
    match x.onGrid? k with
    | some d => (d, k)
    | none => search x fuel (k - 1)

/-- The exponent of a power of ten above a positive number. -/
def coarsest (x : Binary64) : Int :=
  (((x.mantissa.log2 : Int) + x.exponent + 1) * 30103).fdiv 100000 + 2

/-- The shortest decimal `d · 10 ^ k` that rounds to a positive number.  A step of the
    number is wider than the grid twenty places below it, so the search ends. -/
def shortest (x : Binary64) : Nat × Int :=
  x.search 25 x.coarsest

end Binary64

/-- How a decimal is laid out. -/
structure Layout where
  /-- The least exponent of the first digit that is written positionally. -/
  least : Int
  /-- The greatest exponent of the first digit that is written positionally. -/
  greatest : Int
  /-- What marks the exponent. -/
  mark : String
  /-- What stands before an exponent that is not negative. -/
  plus : String
  /-- What follows a whole number. -/
  whole : String

namespace Layout

def zeros (n : Nat) : List Char :=
  List.replicate n '0'

/-- The digits `ds` with the point after the first `n`. -/
def point (ds : List Char) (n : Nat) : List Char :=
  ds.take n ++ '.' :: ds.drop n

/-- The power of ten behind some digits. -/
def power (l : Layout) (e : Int) : List Char :=
  l.mark.toList ++ (if e < 0 then ['-'] else l.plus.toList) ++ (Nat.repr e.natAbs).toList

/-- The text of the digits `ds`, the first one worth `10 ^ e`. -/
def digits (l : Layout) (ds : List Char) (e : Int) : List Char :=
  if e < l.least ∨ l.greatest < e then
    (if ds.length = 1 then ds else point ds 1) ++ l.power e
  else if e < 0 then '0' :: '.' :: zeros (e.natAbs - 1) ++ ds
  else if ds.length ≤ e.toNat + 1 then ds ++ zeros (e.toNat + 1 - ds.length) ++ l.whole.toList
  else point ds (e.toNat + 1)

def text (l : Layout) (x : Binary64) : String :=
  let sign := if x.negative then ['-'] else []
  let body :=
    if x.mantissa = 0 then '0' :: l.whole.toList
    else
      let (d, k) := x.shortest
      let ds := (Nat.repr d).toList
      l.digits ds (k + ds.length - 1)
  .ofList (sign ++ body)

end Layout

end ImportBinding
