import LuaView.Number.Rounding

/-!
# Decimals of a fixed number of significant digits

`Significant.ofRatio k n d` rounds a positive ratio to `k` significant decimal digits.  The result
is kept as a whole number of exactly `k` digits and the power of ten of its first digit.  Two
layouts write such a decimal without the zeros at its end: with the point in its place, or with
one digit before the point and an exponent.
-/

namespace LuaView

-- powers are those of the core library, also where there are others
attribute [local instance (high)] instPowNat

/-- A decimal whose first digit stands for `10 ^ exponent`. -/
structure Significant where
  digits : Nat
  exponent : Int
deriving DecidableEq, Repr

namespace Significant

/-- The nearest decimal of `k` significant digits, for `0 < n`; a tie goes to the even one.  A
ratio that is rounded up to a power of ten moves its first digit by one place. -/
def ofRatio (k n d : Nat) : Significant :=
  let exponent := ratioLog 10 n d
  let (scaled, unit) := scaleRatio 10 ((k : Int) - 1 - exponent) n d
  let digits := roundDiv scaled unit
  if digits = 10 ^ k then ⟨10 ^ (k - 1), exponent + 1⟩ else ⟨digits, exponent⟩

/-- The digits without the zeros at their end. -/
def trimmed (x : Significant) : List Char :=
  ((Nat.toDigits 10 x.digits).reverse.dropWhile (· == '0')).reverse

/-- The layout with the point in its place and at least one digit on either side of it. -/
def positional (x : Significant) : List Char :=
  if x.exponent < 0 then
    '0' :: '.' :: List.replicate (-x.exponent - 1).toNat '0' ++ x.trimmed
  else
    let size := x.exponent.toNat + 1
    let whole := x.trimmed.take size ++ List.replicate (size - x.trimmed.length) '0'
    let fraction := x.trimmed.drop size
    whole ++ '.' :: if fraction.isEmpty then ['0'] else fraction

/-- The layout with one digit before the point and a signed exponent of at least two digits; a
point with no digit behind it is left out. -/
def scientific (x : Significant) : List Char :=
  let fraction := x.trimmed.drop 1
  let power := Nat.toDigits 10 x.exponent.natAbs
  x.trimmed.take 1 ++ (if fraction.isEmpty then [] else '.' :: fraction) ++
    ['e', if x.exponent < 0 then '-' else '+'] ++ List.replicate (2 - power.length) '0' ++ power

end Significant
end LuaView
