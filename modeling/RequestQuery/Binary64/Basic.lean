/-!
# Numbers of the format binary64

A `Binary64` is its 64 bits: a sign, eleven bits of exponent and fifty-two of fraction. A finite one
has the magnitude `significand * 2 ^ scale`. Two things are asked of it, and both are exact
arithmetic on naturals: the number nearest to a fraction or a decimal (here), and the shortest
decimal that reads back as it (`RequestQuery.Binary64.Shortest`).

* `nearest negative num den`: the number nearest to `num / den`, of two equally near the one with
  an even significand; an infinity when the fraction is too large.
* `ofDecimal`, `ofInt`: the same for a decimal and for an integer.
-/

namespace RequestQuery

/-- A binary64 number, by its bits. -/
structure Binary64 where
  bits : UInt64
  deriving DecidableEq

namespace Binary64

/-- The place of the sign, two to the power 63. -/
def signUnit : Nat := 0x8000000000000000

/-- The place of the exponent, two to the power 52. It is also the bit of the significand that is
not stored. -/
def exponentUnit : Nat := 0x10000000000000

/-- The greatest exponent, which infinities and NaNs have. -/
def maxExponent : Nat := 2047

/-- The sign bit. -/
def isNegative (x : Binary64) : Bool := signUnit ≤ x.bits.toNat

/-- The eleven bits of the exponent. -/
def exponentField (x : Binary64) : Nat := x.bits.toNat / exponentUnit % (maxExponent + 1)

/-- The fifty-two bits of the fraction. -/
def fraction (x : Binary64) : Nat := x.bits.toNat % exponentUnit

/-- Neither an infinity nor a NaN. -/
def isFinite (x : Binary64) : Bool := x.exponentField != maxExponent

/-- Not a number. -/
def isNaN (x : Binary64) : Bool := x.exponentField == maxExponent && x.fraction != 0

/-- The integer that the magnitude is a multiple of a power of two of. -/
def significand (x : Binary64) : Nat :=
  if x.exponentField = 0 then x.fraction else x.fraction + exponentUnit

/-- The exponent of that power of two. -/
def scale (x : Binary64) : Int := max x.exponentField 1 - 1075

/-! ## Rounding to nearest -/

/-- The integer nearest to `num / den`, of two equally near the even one. -/
def roundHalfEven (num den : Nat) : Nat :=
  let quotient := num / den
  let twice := 2 * (num % den)
  if twice < den then quotient
  else if den < twice then quotient + 1
  else quotient + quotient % 2

/-- The exponent `e` with `2 ^ e ≤ num / den < 2 ^ (e + 1)`, for positive arguments. -/
def floorLog2 (num den : Nat) : Int :=
  let e : Int := (Nat.log2 num : Int) - (Nat.log2 den : Int)
  if den * Nat.pow 2 e.toNat ≤ num * Nat.pow 2 (-e).toNat then e else e - 1

/-- The bits of the positive infinity. -/
def infinityBits : Nat := maxExponent * exponentUnit

/-- The bits of the number nearest to the magnitude `num / den`. The significand is rounded at the
place of its last bit, and a carry out of it moves on to the exponent by itself. -/
def nearestBits (num den : Nat) : Nat :=
  if num = 0 then 0
  else
    let e := max (floorLog2 num den - 52) (-1074)
    let rounded := roundHalfEven (num * Nat.pow 2 (-e).toNat) (den * Nat.pow 2 e.toNat)
    min ((e + 1074).toNat * exponentUnit + rounded) infinityBits

/-- The number nearest to `num / den` with the given sign. -/
def nearest (negative : Bool) (num den : Nat) : Binary64 :=
  ⟨UInt64.ofNat ((if negative then signUnit else 0) + nearestBits num den)⟩

/-- The number nearest to `digits * 10 ^ exponent` with the given sign. -/
def ofDecimal (negative : Bool) (digits : Nat) (exponent : Int) : Binary64 :=
  nearest negative (digits * Nat.pow 10 exponent.toNat) (Nat.pow 10 (-exponent).toNat)

/-- The number nearest to an integer. -/
def ofInt (n : Int) : Binary64 := nearest (n < 0) n.natAbs 1

example : (ofDecimal false 1 (-1)).bits = 0x3FB999999999999A := by decide
example : (ofDecimal true 0 (-1)).bits = 0x8000000000000000 := by decide
example : (ofDecimal false 5 (-324)).bits = 1 := by decide +kernel
example : (ofInt 9007199254740993).bits = 0x4340000000000000 := by decide
example : (ofInt 18446744073709551615).bits = 0x43F0000000000000 := by decide
example : (ofDecimal false 2 308).isFinite = false := by decide +kernel

end Binary64

end RequestQuery
