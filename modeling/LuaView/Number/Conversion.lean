import LuaView.Number.Numeral

/-!
# Floats written by two conversions

The text of a float, put together from two conversions that round on their own.  The one with an
exponent is made first: its exponent, which is read back from its text, decides the notation.  In
the positional notation the value is then converted once more, with as many places as that exponent
leaves, and the zeros at the end are cut off the text.
-/

namespace LuaView
namespace Conversion

-- powers are those of the core library, also where there are others
attribute [local instance (high)] instPowNat

open Binary64 (writtenDigits needsExponent)

/-- The digits of a number, filled up with zeros in front. -/
def padded (width n : Nat) : List Char :=
  let digits := Nat.toDigits 10 n
  List.replicate (width - digits.length) '0' ++ digits

/-- The text of `digits / 10 ^ places`; without places there is no point. -/
def pointed (places digits : Nat) : List Char :=
  Nat.toDigits 10 (digits / 10 ^ places) ++
    if places = 0 then [] else '.' :: padded places (digits % 10 ^ places)

/-- A minus in front of the text of a float, if the float has one. -/
def signed (x : Binary64) (magnitude : List Char) : List Char :=
  if x.isNegative then '-' :: magnitude else magnitude

/-- A finite float with one digit before the point, `places` digits behind it, and an exponent. -/
def scientific (places : Nat) (x : Binary64) : List Char :=
  let (n, d) := x.ratio
  let decimal : Significant := if x.isZero then ⟨0, 0⟩ else Significant.ofRatio (places + 1) n d
  signed x (pointed places decimal.digits) ++ 'e' :: decimal.exponent.repr.toList

/-- A finite float with `places` digits behind the point. -/
def fixed (places : Nat) (x : Binary64) : List Char :=
  let (n, d) := x.ratio
  signed x (pointed places (roundDiv (n * 10 ^ places) d))

/-- The text without the zeros at its end and without a point that is left there, if it has a
point. -/
def trimFraction (cs : List Char) : List Char :=
  if cs.contains '.' then ((cs.reverse.dropWhile (· == '0')).dropWhile (· == '.')).reverse else cs

/-- A fraction behind a text that would read as an integer. -/
def keepFloat (cs : List Char) : List Char :=
  if cs.all (fun c => c.isDigit || c == '-') then cs ++ ['.', '0'] else cs

/-- The text of a float. -/
def text (x : Binary64) : List Char :=
  if x.isNaN then ['n', 'a', 'n']
  else if x.isInfinite then signed x ['i', 'n', 'f']
  else
    let whole := scientific (writtenDigits - 1) x
    match Numeral.cutAt (· == 'e') whole with
    | (_, none) => whole
    | (mantissa, some power) =>
        let exponent := (Numeral.exponent? power).getD 0
        keepFloat <|
          if !x.isZero && needsExponent exponent then
            trimFraction mantissa ++
              ['e', if exponent < 0 then '-' else '+'] ++ padded 2 exponent.natAbs
          else
            trimFraction (fixed ((writtenDigits : Int) - 1 - exponent).toNat x)

end Conversion
end LuaView
