/-
  ImportBinding — binary numbers of 64 bits.

  A finite number is a sign, a mantissa below 2^53 and an exponent of two.  Every
  operation takes the exact quotient of two natural numbers and rounds it once,
  to the nearest number, a half to the even mantissa.

  * `Binary64.nearest?` rounds a quotient, unless it is too large;
  * `Binary64.ofDecimal?` is the number that a decimal significand and a power
    of ten give: each of the two is rounded, and then their product or quotient;
  * `Binary64.same` compares values, for which the two zeros are one.
-/
namespace ImportBinding

/-- The finite number `± mantissa · 2 ^ exponent`.  Exponents start at −1074, and above
    that the mantissa has 53 bits. -/
structure Binary64 where
  negative : Bool
  mantissa : Nat
  exponent : Int
  deriving DecidableEq, Repr

namespace Binary64

def minExponent : Int := -1074

/-- The least mantissa of 53 bits. -/
def minMantissa : Nat := 0x10000000000000

/-- The exponent of the largest numbers. -/
def maxExponent : Int := 971

def zero (negative : Bool) : Binary64 :=
  ⟨negative, 0, minExponent⟩

/-- The quotient `num / den` rounded to a natural number, a half to the even one. -/
def roundDiv (num den : Nat) : Nat :=
  let d := num / den
  let r := 2 * (num % den)
  if r < den then d else if den < r then d + 1 else d + d % 2

/-- `num / den / 2 ^ e` as a numerator and a denominator. -/
def scale (num den : Nat) (e : Int) : Nat × Nat :=
  (num * Nat.pow 2 (-e).toNat, den * Nat.pow 2 e.toNat)

/-- The exponent of the power of two at or below the quotient `num / den`. -/
def log2Div (num den : Nat) : Int :=
  let l : Int := (num.log2 : Int) - den.log2
  let (n, d) := scale num den l
  if n < d then l - 1 else l

/-- The number nearest to `num / den`; none when that is beyond the largest one. -/
def nearest? (num den : Nat) : Option Binary64 :=
  if num = 0 then some (zero false)
  else
    let e := max (log2Div num den - 52) minExponent
    let (n, d) := scale num den e
    let m := roundDiv n d
    let (m, e) := if m = 2 * minMantissa then (minMantissa, e + 1) else (m, e)
    if maxExponent < e then none else some ⟨false, m, e⟩

/-- The product of two magnitudes; none when it is too large. -/
def mul? (x y : Binary64) : Option Binary64 :=
  let (n, d) := scale (x.mantissa * y.mantissa) 1 (-(x.exponent + y.exponent))
  nearest? n d

/-- The quotient of two magnitudes, `y` not zero and not below one, so that it is
    never too large. -/
def div (x y : Binary64) : Binary64 :=
  let (n, d) := scale x.mantissa y.mantissa (y.exponent - x.exponent)
  (nearest? n d).getD (zero false)

/-- The number nearest to a natural number below 10 ^ 309. -/
def ofNat (n : Nat) : Binary64 :=
  (nearest? n 1).getD (zero false)

/-- The largest power of ten that a scaling step uses. -/
def maxPower : Nat := 308

/-- `x` divided by `10 ^ k`, in steps of the largest power; zero stays zero. -/
def shrink (x : Binary64) (k : Nat) : Binary64 :=
  if k ≤ maxPower then x.div (ofNat (Nat.pow 10 k))
  else if x.mantissa = 0 then x
  else shrink (x.div (ofNat (Nat.pow 10 maxPower))) (k - maxPower)
termination_by k
decreasing_by simp only [maxPower] at *; omega

/-- `x` multiplied by `10 ^ k`; none when that is too large. -/
def grow? (x : Binary64) (k : Nat) : Option Binary64 :=
  if k ≤ maxPower then x.mul? (ofNat (Nat.pow 10 k))
  else if x.mantissa = 0 then some x
  else none

/-- The number read from a decimal significand and a power of ten; none when it is
    too large. -/
def ofDecimal? (negative : Bool) (significand : Nat) (power : Int) : Option Binary64 :=
  let x := ofNat significand
  let y? := if 0 ≤ power then x.grow? power.toNat else some (x.shrink (-power).toNat)
  y?.map ({ · with negative })

/-- Whether two numbers have the same value. -/
def same (x y : Binary64) : Bool :=
  x == y || (x.mantissa == 0 && y.mantissa == 0)

theorem same_refl (x : Binary64) : x.same x := by simp [same]

end Binary64

end ImportBinding
