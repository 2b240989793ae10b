import LuaView.Number.Basic
import LuaView.Number.Word
import LuaView.Text.CharClass

/-!
# Numerals

The value of a numeral.  Numerals of both bases have one shape: digits with at most one point and
at least one digit, and optionally an exponent mark, a sign and decimal digits.  A hexadecimal
numeral starts with `0x` or `0X`; its exponent mark is `p` and its exponent is one of two.  A
decimal numeral may start with a sign; its exponent mark is `e` and its exponent is one of ten.

* A hexadecimal numeral with neither point nor exponent is an integer, reduced modulo `2 ^ 64`.
* A run of decimal digits is an integer if it is below `2 ^ 63`.
* Every other numeral is a float.
-/

namespace LuaView
namespace Numeral

-- powers are those of the core library, also where there are others
attribute [local instance (high)] instPowNat

/-- The parts of a numeral without its sign and its base. -/
structure Parts where
  whole : List Char
  fraction : Option (List Char)
  exponent : Option Int
deriving DecidableEq, Repr

namespace Parts

/-- All digits, on both sides of the point. -/
def digits (parts : Parts) : List Char :=
  parts.whole ++ parts.fraction.getD []

/-- The number of digits behind the point. -/
def places (parts : Parts) : Nat :=
  (parts.fraction.getD []).length

/-- Neither point nor exponent. -/
def isPlain (parts : Parts) : Bool :=
  parts.fraction.isNone && parts.exponent.isNone

/-- The power of two that the digits of a hexadecimal numeral are scaled by: four less for each
place than the exponent says.  Both are kept in words of 64 bits and their difference in one of 32
bits, and all of them stop at the ends of their words. -/
def scale (parts : Parts) : Int :=
  Word.saturated 32 (Word.saturated 64
    (Word.saturated 64 (parts.exponent.getD 0) - Word.saturated 64 (4 * (parts.places : Int))))

end Parts

/-- What stands before the first character of a class, and what stands behind it if there is
one. -/
def cutAt (cls : Char → Bool) (cs : List Char) : List Char × Option (List Char) :=
  match cs.dropWhile (fun c => !cls c) with
  | [] => (cs, none)
  | _ :: after => (cs.takeWhile (fun c => !cls c), some after)

/-- A sign, if there is one, and the characters behind it; the flag says that it is a minus. -/
def cutSign : List Char → Option Bool × List Char
  | '-' :: cs => (some true, cs)
  | '+' :: cs => (some false, cs)
  | cs => (none, cs)

/-- An optional sign and at least one decimal digit. -/
def exponent? (cs : List Char) : Option Int :=
  let (sign, digits) := cutSign cs
  if digits.isEmpty || !digits.all Char.isDigit then none
  else
    let value : Int := CharClass.digitsValue 10 digits
    some (if sign = some true then -value else value)

/-- The parts of a numeral, for a class of digits and a class of exponent marks. -/
def parts? (isDigit isMark : Char → Bool) (cs : List Char) : Option Parts :=
  let (mantissa, power) := cutAt isMark cs
  let (whole, fraction) := cutAt (· == '.') mantissa
  let parts : Parts := ⟨whole, fraction, power.bind exponent?⟩
  if parts.digits.isEmpty || !parts.digits.all isDigit then none
  else if power.isSome && parts.exponent.isNone then none
  else some parts

/-- The value of a hexadecimal float.  Its digits are pushed one by one onto a float, and the
power of two is multiplied on in two halves, so that a subnormal result is rounded only once. -/
def hexFloat (parts : Parts) : Binary64 :=
  let mantissa := parts.digits.foldl
    (fun value c => value.pushHexDigit (CharClass.digitValue c)) Binary64.zero
  let half := parts.scale.tdiv 2
  (mantissa.mulTwoPow half).mulTwoPow (parts.scale - half)

/-- The value of a hexadecimal numeral without its `0x`. -/
def hex? (cs : List Char) : Option Number := do
  let parts ← parts? CharClass.isHexDigit (fun c => c == 'p' || c == 'P') cs
  if parts.isPlain then
    pure (.int (Int64.ofNat (CharClass.digitsValue 16 parts.digits)))
  else
    pure (.float (hexFloat parts))

/-- The value of a decimal numeral. -/
def decimal? (cs : List Char) : Option Number := do
  let (sign, unsigned) := cutSign cs
  let parts ← parts? Char.isDigit (fun c => c == 'e' || c == 'E') unsigned
  let value := CharClass.digitsValue 10 parts.digits
  if sign.isNone && parts.isPlain && value < 2 ^ (63 : Nat) then
    pure (.int (Int64.ofNat value))
  else
    let float := Binary64.ofDecimal value (parts.exponent.getD 0 - (parts.places : Int))
    pure (.float (if sign = some true then float.negate else float))

end Numeral

/-- The number that a numeral denotes. -/
def Number.ofNumeral? (numeral : List Char) : Option Number :=
  match numeral with
  | '0' :: 'x' :: digits => Numeral.hex? digits
  | '0' :: 'X' :: digits => Numeral.hex? digits
  | _ => Numeral.decimal? numeral

end LuaView
