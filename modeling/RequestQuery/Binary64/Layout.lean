import RequestQuery.Binary64.Shortest

/-!
# Decimal notation of binary64 numbers

A `Layout` says for which exponents a number is written in positional notation; outside them it is
written as digits times a power of ten. Either way the digits are the shortest that read back, a
positional integer keeps a zero after the point, and the exponent carries its sign.
-/

namespace RequestQuery.Binary64

/-- The exponents, of the first digit, for which notation is positional. -/
structure Layout where
  minExponent : Int
  maxExponent : Int

/-- Digits with a point after the place of the exponent. -/
def positional (s : Scientific) : List Char :=
  if s.exponent < 0 then
    ['0', '.'] ++ List.replicate (-s.exponent - 1).toNat '0' ++ s.digits
  else
    let whole := s.exponent.toNat + 1
    let before := s.digits.take whole
    let after := s.digits.drop whole
    before ++ List.replicate (whole - before.length) '0' ++ ['.'] ++
      (if after.isEmpty then ['0'] else after)

/-- One digit before the point and the exponent after the digits. -/
def exponential (s : Scientific) : List Char :=
  let after := s.digits.drop 1
  s.digits.take 1 ++ (if after.isEmpty then [] else '.' :: after) ++
    ['e', if s.exponent < 0 then '-' else '+'] ++ Nat.toDigits 10 s.exponent.natAbs

/-- The text of a finite number. -/
def Layout.chars (layout : Layout) (x : Binary64) : List Char :=
  let sign := if x.isNegative then ['-'] else []
  if x.significand = 0 then sign ++ ['0', '.', '0']
  else
    let s := x.shortest
    sign ++ (if layout.minExponent ≤ s.exponent ∧ s.exponent ≤ layout.maxExponent
      then positional s else exponential s)

end RequestQuery.Binary64
