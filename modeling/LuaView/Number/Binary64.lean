import LuaView.Number.Rounding

/-!
# Double-precision floats

A float is its 64-bit pattern: a sign bit, eleven bits of exponent and fifty-two bits of
fraction.  Values are computed exactly on natural numbers and rounded once, to the nearest float
with ties to even, by `ofRatio`.
-/

namespace LuaView

-- powers are those of the core library, also where there are others
attribute [local instance (high)] instPowNat

/-- A float of the binary interchange format of 64 bits. -/
structure Binary64 where
  bits : UInt64
deriving DecidableEq, Repr

namespace Binary64

/-- The bit pattern of positive infinity, as a number. -/
def infinityBits : Nat := 2047 * 2 ^ (52 : Nat)

def zero : Binary64 := ⟨0⟩

def one : Binary64 := ⟨0x3FF0000000000000⟩

def infinity : Binary64 := ⟨UInt64.ofNat infinityBits⟩

/-- The quiet pattern that stands for every result without a value. -/
def nan : Binary64 := ⟨0x7FF8000000000000⟩

/-- The sign bit is set. -/
def isNegative (x : Binary64) : Bool :=
  2 ^ (63 : Nat) ≤ x.bits.toNat

/-- The pattern without its sign bit. -/
def magnitude (x : Binary64) : Nat :=
  x.bits.toNat % 2 ^ (63 : Nat)

def isNaN (x : Binary64) : Bool :=
  infinityBits < x.magnitude

def isInfinite (x : Binary64) : Bool :=
  x.magnitude == infinityBits

def isFinite (x : Binary64) : Bool :=
  x.magnitude < infinityBits

/-- Zero of either sign. -/
def isZero (x : Binary64) : Bool :=
  x.magnitude == 0

/-- The same magnitude with the other sign. -/
def negate (x : Binary64) : Binary64 :=
  ⟨x.bits ^^^ 0x8000000000000000⟩

/-- The integer significand of a finite float; all but the subnormals have an implicit bit. -/
def significand (x : Binary64) : Nat :=
  let fraction := x.magnitude % 2 ^ (52 : Nat)
  if x.magnitude / 2 ^ (52 : Nat) = 0 then fraction else 2 ^ (52 : Nat) + fraction

/-- The exponent of two that the significand is scaled by. -/
def exponent (x : Binary64) : Int :=
  (max (x.magnitude / 2 ^ (52 : Nat)) 1 : Nat) - 1075

/-- The absolute value of a finite float as a ratio. -/
def ratio (x : Binary64) : Nat × Nat :=
  scaleRatio 2 x.exponent x.significand 1

/-- The bit pattern of `n / d` rounded to the nearest float.  The unit in the last place is
`2 ^ e` with the least `e` that leaves at most 53 bits and is no subnormal's.  A significand that
is rounded up to `2 ^ 53` carries into the exponent field, and past the last exponent the pattern
is that of infinity. -/
def ratioBits (n d : Nat) : Nat :=
  if n = 0 then 0
  else
    let e : Int := max (ratioLog 2 n d - 52) (-1074)
    let (scaled, unit) := scaleRatio 2 (-e) n d
    min ((e + 1074).toNat * 2 ^ (52 : Nat) + roundDiv scaled unit) infinityBits

/-- The float nearest to `n / d`; a tie goes to the even significand. -/
def ofRatio (n d : Nat) : Binary64 :=
  ⟨UInt64.ofNat (ratioBits n d)⟩

/-- The float nearest to `digits * 10 ^ exponent`.  A decimal whose first digit stands far outside
the range of the format is settled by the place of that digit. -/
def ofDecimal (digits : Nat) (exponent : Int) : Binary64 :=
  let top := (digitCount 10 digits : Int) + exponent
  if digits = 0 ∨ top < -330 then zero
  else if 330 < top then infinity
  else
    let (n, d) := scaleRatio 10 exponent digits 1
    ofRatio n d

/-- The rounded product of a float that is not negative and `2 ^ k`.  The factor is itself a
float, so it is infinite from `2 ^ 1024` on and zero from `2 ^ -1024` down, and a product of zero
and infinity has no value. -/
def mulTwoPow (x : Binary64) (k : Int) : Binary64 :=
  if x.isNaN then nan
  else if 1024 ≤ k then if x.isZero then nan else infinity
  else if k ≤ -1024 then if x.isInfinite then nan else zero
  else if x.isInfinite then infinity
  else
    let (n, d) := x.ratio
    let (scaled, unit) := scaleRatio 2 k n d
    ofRatio scaled unit

/-- The rounded value of `16 * x + digit`, for a float that is not negative. -/
def pushHexDigit (x : Binary64) (digit : Nat) : Binary64 :=
  if x.isFinite then
    let (n, d) := x.ratio
    ofRatio (16 * n + digit * d) d
  else x

example : ofRatio 1 1 = one ∧ ofRatio 1 10 = ⟨0x3FB999999999999A⟩ := by decide +kernel

example : ofDecimal 17976931348623159 292 = infinity := by decide +kernel

end Binary64
end LuaView
