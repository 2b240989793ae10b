import LuaView.Number.Binary64
import LuaView.Number.Significant

/-!
# Numbers

A number is an integer of 64 bits or a float.  Integers are written in decimal.  A finite float is
written with at most fourteen significant digits, with an exponent if its first digit stands below
`10 ^ -4` or from `10 ^ 14` on, and always with a point or an exponent, so that its text never
reads as an integer.
-/

namespace LuaView

/-- The two kinds of numbers. -/
inductive Number where
  | int (value : Int64)
  | float (value : Binary64)
deriving DecidableEq, Repr

namespace Binary64

/-- The significant digits a float is written with. -/
def writtenDigits : Nat := 14

/-- The exponents of the first digit for which a decimal is written with an exponent. -/
def needsExponent (exponent : Int) : Bool :=
  exponent < -4 || 14 ≤ exponent

/-- The text of an absolute value that is not a NaN. -/
def magnitudeText (x : Binary64) : List Char :=
  if x.isInfinite then ['i', 'n', 'f']
  else if x.isZero then ['0', '.', '0']
  else
    let (n, d) := x.ratio
    let decimal := Significant.ofRatio writtenDigits n d
    if needsExponent decimal.exponent then decimal.scientific else decimal.positional

/-- The text of a float. -/
def text (x : Binary64) : List Char :=
  if x.isNaN then ['n', 'a', 'n']
  else if x.isNegative then '-' :: x.magnitudeText
  else x.magnitudeText

end Binary64

namespace Number

/-- The text of a number. -/
def text : Number → String
  | .int value => value.toInt.repr
  | .float value => String.ofList value.text

/-- The value is one, as an integer or as a float. -/
def isOne : Number → Bool
  | .int value => value == 1
  | .float value => value == Binary64.one

end Number
end LuaView
