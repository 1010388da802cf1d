import RequestQuery.Binary64.Basic

/-!
# The shortest decimal of a binary64 number

`Binary64.shortest` gives the fewest significant digits that read back as a number, and of the
decimals with so few digits the nearest one, the even one on a tie.

The reals that round to a number form an interval; it contains its ends when the significand is
even. If any decimal with `n` digits lies in the interval, one of the two neighbours of the number
among those decimals does, so for each `n` only these two are tried.
-/

namespace RequestQuery.Binary64

/-- A decimal `d.ddd * 10 ^ exponent`, by its significant digits. -/
structure Scientific where
  digits : List Char
  exponent : Int

/-- The number `k` with `10 ^ (k - 1) ≤ num / den < 10 ^ k`, for positive arguments. -/
def decimalPoint (num den : Nat) : Int :=
  if den ≤ num then (Nat.toDigits 10 (num / den)).length
  else 1 - ((Nat.toDigits 10 ((den + num - 1) / num - 1)).length : Int)

/-- A positive magnitude `value / den` with the ends of the interval that rounds to it. -/
structure Interval where
  value : Nat
  low : Nat
  high : Nat
  den : Nat
  closed : Bool

/-- The interval of a finite number other than zero. Below a power of two the gap is half as
wide. -/
def interval (x : Binary64) : Interval :=
  let m := x.significand
  let up := Nat.pow 2 (x.scale - 2).toNat
  let below := if x.fraction = 0 ∧ 1 < x.exponentField then 1 else 2
  { value := 4 * m * up
    low := (4 * m - below) * up
    high := (4 * m + 2) * up
    den := Nat.pow 2 (2 - x.scale).toNat
    closed := m % 2 = 0 }

/-- Whether `num / den` lies in the interval, where `den` is a multiple of the interval's own
denominator by `times`. -/
def Interval.has (i : Interval) (num times : Nat) : Bool :=
  if i.closed then i.low * times ≤ num && num ≤ i.high * times
  else i.low * times < num && num < i.high * times

/-- The better of the two neighbours with `n` digits that lies in the interval, if one does. -/
def Interval.onGrid? (i : Interval) (point : Int) (n : Nat) : Option Nat :=
  let times := Nat.pow 10 ((n : Int) - point).toNat
  let step := i.den * Nat.pow 10 (point - (n : Int)).toNat
  let below := i.value * times / step
  match i.has (below * step) times, i.has ((below + 1) * step) times with
  | true, false => some below
  | false, true => some (below + 1)
  | true, true => some (roundHalfEven (i.value * times) step)
  | false, false => none

/-- The shortest decimal of a finite number other than zero, by its significant digits. -/
def shortest (x : Binary64) : Scientific :=
  let i := x.interval
  let point := decimalPoint i.value i.den
  let found := (List.range' 1 17).findSome? fun n => (i.onGrid? point n).map fun d => (d, n)
  let (decimal, n) := found.getD (0, 1)
  let digits := Nat.toDigits 10 decimal
  { digits := (digits.reverse.dropWhile (· == '0')).reverse
    exponent := point - (n : Int) + (digits.length : Int) - 1 }

example : (shortest (ofDecimal false 1 (-1))).digits = ['1'] := by decide +kernel
example : (shortest (ofDecimal false 5 (-324))).exponent = -324 := by decide +kernel
example : (shortest (ofInt 123456789012345680000)).digits =
    ['1', '2', '3', '4', '5', '6', '7', '8', '9', '0', '1', '2', '3', '4', '5', '6', '8'] := by
  decide +kernel

end RequestQuery.Binary64
