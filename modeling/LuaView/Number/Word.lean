/-!
# Machine words

Arithmetic in signed words.  A step either stops at the ends of its word, which `saturated` does, or
it is checked: `fit64?` and its like give back a result only if it is a number of the word.
-/

namespace LuaView

-- powers are those of the core library, also where there are others
attribute [local instance (high)] instPowNat

/-- The exact result of a step is no number of its word. -/
inductive Overflow where
  | overflow
deriving DecidableEq, Repr

namespace Word

/-- The least number of a signed word of so many bits. -/
def least (bits : Nat) : Int :=
  -((2 ^ (bits - 1) : Nat) : Int)

/-- The greatest number of a signed word of so many bits. -/
def greatest (bits : Nat) : Int :=
  ((2 ^ (bits - 1) : Nat) : Int) - 1

/-- The number of a signed word that is nearest to `n`. -/
def saturated (bits : Nat) (n : Int) : Int :=
  max (least bits) (min n (greatest bits))

def saturate64 (n : Int) : Int64 :=
  Int64.ofInt (saturated 64 n)

def saturate32 (n : Int) : Int32 :=
  Int32.ofInt (saturated 32 n)

/-- A result, if it is a number of a signed word of 64 bits. -/
def fit64? (n : Int) : Except Overflow Int64 :=
  if least 64 ≤ n ∧ n ≤ greatest 64 then .ok (Int64.ofInt n) else .error .overflow

/-- A result, if it is a number of a signed word of 32 bits. -/
def fit32? (n : Int) : Except Overflow Int32 :=
  if least 32 ≤ n ∧ n ≤ greatest 32 then .ok (Int32.ofInt n) else .error .overflow

/-- A result, if it is a number of a byte. -/
def fitByte? (n : Int) : Except Overflow UInt8 :=
  if 0 ≤ n ∧ n ≤ 255 then .ok (UInt8.ofNat n.toNat) else .error .overflow

end Word
end LuaView
