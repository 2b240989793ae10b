import LuaView.Number.Numeral

/-!
# Numerals read in machine words

The number of a numeral, computed as a machine has it.  The digits of a hexadecimal integer are
pushed onto a word that wraps around.  The exponent of a hexadecimal float is accumulated, negated,
lowered by the places, and halved in signed words; a step that neither wraps around nor stops at the
ends of its word is checked, and an overflow ends the computation.

Decimal numerals are left to the conversions of `Numeral.decimal?`.
-/

namespace LuaView
namespace NumeralInWords

open Numeral (cutAt cutSign)
open CharClass (isHexDigit digitValue)

/-- The digit that a character stands for, as the distance of its byte to that of zero. -/
def decimalDigit (c : Char) : Except Overflow UInt8 :=
  Word.fitByte? ((c.toNat : Int) - ('0'.toNat : Int))

/-- One more digit of an exponent. -/
def pushDigit (magnitude : Int64) (c : Char) : Except Overflow Int64 := do
  let digit ← decimalDigit c
  let shifted := Word.saturate64 (magnitude.toInt * 10)
  return Word.saturate64 (shifted.toInt + digit.toNat)

/-- The exponent of two behind the mark of a hexadecimal numeral, if it is well-formed. -/
def exponent? (cs : List Char) : Except Overflow (Option Int64) :=
  let (sign, digits) := cutSign cs
  if digits.isEmpty || !digits.all Char.isDigit then .ok none
  else do
    let magnitude ← digits.foldlM pushDigit 0
    if sign = some true then return some (← Word.fit64? (-magnitude.toInt))
    else return some magnitude

/-- The value of a run of hexadecimal digits in a word that wraps around. -/
def wrapped (digits : List Char) : UInt64 :=
  digits.foldl (fun value c => value * 16 + UInt64.ofNat (digitValue c)) 0

/-- The value of a hexadecimal float, for its digits, the number of its places and its exponent. -/
def float (digits : List Char) (places : Nat) (exponent : Int64) : Except Overflow Binary64 := do
  let mantissa := digits.foldl (fun value c => value.pushHexDigit (digitValue c)) Binary64.zero
  let bits := Word.saturate64 ((Word.saturate64 places).toInt * 4)
  let scale := Word.saturate32 (Word.saturate64 (exponent.toInt - bits.toInt)).toInt
  let half ← Word.fit32? (scale.toInt.tdiv 2)
  let other ← Word.fit32? (scale.toInt - half.toInt)
  return (mantissa.mulTwoPow half.toInt).mulTwoPow other.toInt

/-- The value of a hexadecimal numeral without its `0x`. -/
def hex? (cs : List Char) : Except Overflow (Option Number) :=
  let (mantissa, power) := cutAt (fun c => c == 'p' || c == 'P') cs
  let (whole, fraction) := cutAt (· == '.') mantissa
  let digits := whole ++ fraction.getD []
  if digits.isEmpty || !digits.all isHexDigit then .ok none
  else if fraction.isNone && power.isNone then .ok (some (.int (wrapped digits).toInt64))
  else do
    let exponent ← match power with
      | some power => exponent? power
      | none => .ok (some 0)
    match exponent with
    | none => return none
    | some exponent =>
        return some (.float (← float digits (fraction.getD []).length exponent))

/-- The number that a numeral denotes. -/
def ofNumeral? (numeral : List Char) : Except Overflow (Option Number) :=
  match numeral with
  | '0' :: 'x' :: digits => hex? digits
  | '0' :: 'X' :: digits => hex? digits
  | _ => .ok (Numeral.decimal? numeral)

end NumeralInWords
end LuaView
