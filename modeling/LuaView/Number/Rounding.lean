/-!
# Rounding ratios

Exact arithmetic on a ratio `n / d` of natural numbers with `0 < d`.  `ratioLog b n d` is the
exponent of the greatest power of `b` that does not exceed the ratio, and `roundDiv n d` is the
nearest natural number, where an exact half goes to the even neighbour.  Reading a numeral uses
them in base two and writing a float uses them in base ten.
-/

namespace LuaView

-- powers are those of the core library, also where there are others
attribute [local instance (high)] instPowNat

/-- The quotient `n / d`, rounded to the nearest number; a half goes to the even neighbour. -/
def roundDiv (n d : Nat) : Nat :=
  let quotient := n / d
  let remainder := n % d
  if 2 * remainder < d then quotient
  else if d < 2 * remainder then quotient + 1
  else quotient + quotient % 2

/-- How many digits a number has in base `b`. -/
def digitCount (b n : Nat) : Nat :=
  (Nat.toDigits b n).length

/-- Scale a ratio by a power of `b` whose exponent may be negative. -/
def scaleRatio (b : Nat) (exponent : Int) (n d : Nat) : Nat × Nat :=
  (n * b ^ exponent.toNat, d * b ^ (-exponent).toNat)

/-- The exponent of the greatest power of `b` that is at most `n / d`, for `0 < n`.  The digit
counts of the two numbers leave two candidates. -/
def ratioLog (b n d : Nat) : Int :=
  let guess : Int := (digitCount b n : Int) - digitCount b d
  let (scaled, unit) := scaleRatio b (-guess) n d
  if unit ≤ scaled then guess else guess - 1

example : roundDiv 5 2 = 2 ∧ roundDiv 7 2 = 4 ∧ roundDiv 8 3 = 3 := by decide

example : ratioLog 10 999 1 = 2 ∧ ratioLog 10 1 1000 = -3 ∧ ratioLog 2 3 4 = -1 := by decide

end LuaView
