import LuaView.Number.Rounding
import Mathlib.Algebra.Order.Field.Rat
import Mathlib.Data.Int.Log
import Mathlib.Data.Rat.Floor
import Mathlib.Tactic.FieldSimp
import Mathlib.Tactic.Linarith
import Mathlib.Tactic.Positivity
import Mathlib.Tactic.Ring

/-!
# Ratios as rational numbers

The arithmetic on ratios `n / d`, said of the rational number that a ratio stands for: scaling
multiplies it by a power, `ratioLog` is its integer logarithm, and `roundDiv` is the nearest natural
number, where an exact half goes to the even neighbour.
-/

namespace LuaView

-- powers are those of the core library, also where there are others
attribute [local instance (high)] instPowNat

/-! ## Scaling -/

/-- A scaled ratio still has a denominator. -/
theorem scaleRatio_pos
    {b d : ℕ}
    (hb : 0 < b)
    (hd : 0 < d)
    (exponent : ℤ)
    (n : ℕ) :
    0 < (scaleRatio b exponent n d).2 :=
  Nat.mul_pos hd (Nat.pow_pos hb)

/-- Scaling multiplies the value with a power of the base. -/
theorem scaleRatio_div
    {b : ℕ}
    (hb : 0 < b)
    (exponent : ℤ)
    (n d : ℕ) :
    ((scaleRatio b exponent n d).1 : ℚ) / (scaleRatio b exponent n d).2 =
      n / d * (b : ℚ) ^ exponent := by
  have hne : (b : ℚ) ≠ 0 := by exact_mod_cast hb.ne'
  simp only [scaleRatio]
  push_cast
  rcases Int.eq_nat_or_neg exponent with ⟨k, rfl | rfl⟩
  · simp
    ring
  · simp
    field_simp

/-! ## Logarithms -/

section Logarithm

variable {b : ℕ}

/-- The number of digits tells between which two powers of the base a number lies. -/
theorem digitCount_spec
    (hb : 1 < b)
    {n : ℕ}
    (hn : 0 < n) :
    (b : ℚ) ^ ((digitCount b n : ℤ) - 1) ≤ n ∧ (n : ℚ) < (b : ℚ) ^ (digitCount b n : ℤ) := by
  have hpos : 0 < digitCount b n := List.length_pos_iff.mpr Nat.toDigits_ne_nil
  constructor
  · have hlow : ¬ n < b ^ (digitCount b n - 1) := fun hlt => by
      rcases Nat.eq_zero_or_pos (digitCount b n - 1) with hone | hmore
      · rw [hone, Nat.pow_zero] at hlt
        omega
      · have hle := (Nat.length_toDigits_le_iff hb hmore).mpr hlt
        have hcount : digitCount b n = (Nat.toDigits b n).length := rfl
        omega
    have hcast : ((digitCount b n : ℤ) - 1) = ((digitCount b n - 1 : ℕ) : ℤ) := by omega
    rw [hcast, zpow_natCast]
    exact_mod_cast Nat.le_of_not_lt hlow
  · rw [zpow_natCast]
    exact_mod_cast (Nat.length_toDigits_le_iff hb hpos).mp (Nat.le_refl _)

/-- The digit counts leave two candidates for the logarithm, and one comparison decides. -/
theorem ratioLog_eq_log
    (hb : 1 < b)
    {n d : ℕ}
    (hn : 0 < n)
    (hd : 0 < d) :
    ratioLog b n d = Int.log b ((n : ℚ) / d) := by
  obtain ⟨hlown, hhighn⟩ := digitCount_spec hb hn
  obtain ⟨hlowd, hhighd⟩ := digitCount_spec hb hd
  have hbpos : (0 : ℚ) < b := by exact_mod_cast Nat.zero_lt_of_lt hb
  have hdpos : (0 : ℚ) < d := by exact_mod_cast hd
  have hratio : (0 : ℚ) < n / d := div_pos (by exact_mod_cast hn) hdpos
  generalize hguess : (digitCount b n : ℤ) - digitCount b d = guess
  have hlow : (b : ℚ) ^ (guess - 1) < n / d := by
    rw [lt_div_iff₀ hdpos]
    calc (b : ℚ) ^ (guess - 1) * d < b ^ (guess - 1) * b ^ (digitCount b d : ℤ) :=
          mul_lt_mul_of_pos_left hhighd (zpow_pos hbpos _)
      _ = b ^ ((digitCount b n : ℤ) - 1) := by
          rw [← zpow_add₀ hbpos.ne']
          congr 1
          omega
      _ ≤ n := hlown
  have hhigh : (n : ℚ) / d < (b : ℚ) ^ (guess + 1) := by
    rw [div_lt_iff₀ hdpos]
    calc (n : ℚ) < b ^ (digitCount b n : ℤ) := hhighn
      _ = b ^ (guess + 1) * b ^ ((digitCount b d : ℤ) - 1) := by
          rw [← zpow_add₀ hbpos.ne']
          congr 1
          omega
      _ ≤ b ^ (guess + 1) * d := mul_le_mul_of_nonneg_left hlowd (zpow_nonneg hbpos.le _)
  have hcompare : (scaleRatio b (-guess) n d).2 ≤ (scaleRatio b (-guess) n d).1 ↔
      (b : ℚ) ^ guess ≤ n / d := by
    have hunit : (0 : ℚ) < (scaleRatio b (-guess) n d).2 := by
      exact_mod_cast scaleRatio_pos (Nat.zero_lt_of_lt hb) hd (-guess) n
    rw [← Nat.cast_le (α := ℚ), ← one_le_div hunit, scaleRatio_div (Nat.zero_lt_of_lt hb),
      zpow_neg, ← div_eq_mul_inv, one_le_div (zpow_pos hbpos guess)]
  have hlog : ratioLog b n d = if (b : ℚ) ^ guess ≤ n / d then guess else guess - 1 := by
    simp only [ratioLog, hguess, hcompare]
  have hleLog : ∀ k : ℤ, k ≤ Int.log b ((n : ℚ) / d) ↔ (b : ℚ) ^ k ≤ n / d := fun k =>
    (Int.zpow_le_iff_le_log hb hratio).symm
  have hatLeast : guess - 1 ≤ Int.log b ((n : ℚ) / d) := (hleLog _).mpr hlow.le
  have hatMost : ¬ guess + 1 ≤ Int.log b ((n : ℚ) / d) := fun h =>
    absurd ((hleLog _).mp h) hhigh.not_ge
  rw [hlog]
  split
  · have hguessLe := (hleLog guess).mpr ‹_›
    omega
  · have hnotLe : ¬ guess ≤ Int.log b ((n : ℚ) / d) := fun h => ‹¬ _› ((hleLog guess).mp h)
    omega

end Logarithm

/-! ## Rounding -/

/-- A natural number nearest to a value; of two that are equally near it is the even one. -/
structure IsNearest (value : ℚ) (m : ℕ) : Prop where
  near : |value - m| ≤ 1 / 2
  even : |value - m| = 1 / 2 → Even m

theorem isNearest_of_lt_half
    {quotient : ℕ}
    {rest : ℚ}
    (hrest : 0 ≤ rest)
    (h : rest < 1 / 2) :
    IsNearest (quotient + rest) quotient := by
  have hdiff : |(quotient : ℚ) + rest - quotient| = rest := by
    rw [add_sub_cancel_left, abs_of_nonneg hrest]
  exact ⟨hdiff.trans_le h.le, fun htie => absurd (hdiff.symm.trans htie) h.ne⟩

theorem isNearest_of_half_lt
    {quotient : ℕ}
    {rest : ℚ}
    (hrest : rest < 1)
    (h : 1 / 2 < rest) :
    IsNearest (quotient + rest) (quotient + 1) := by
  have hdiff : |(quotient : ℚ) + rest - (quotient + 1 : ℕ)| = 1 - rest := by
    rw [Nat.cast_add_one, add_sub_add_left_eq_sub, abs_of_neg (by linarith), neg_sub]
  refine ⟨?_, fun htie => ?_⟩
  · rw [hdiff]
    linarith
  · rw [hdiff] at htie
    linarith

/-- A tie goes to the even neighbour. -/
theorem isNearest_of_tie (quotient : ℕ) :
    IsNearest (quotient + 1 / 2) (quotient + quotient % 2) := by
  have hdiff : (quotient : ℚ) + 1 / 2 - (quotient + quotient % 2 : ℕ) =
      1 / 2 - (quotient % 2 : ℕ) := by
    push_cast
    ring
  refine ⟨?_, fun _ => ?_⟩
  · rw [hdiff]
    rcases Nat.mod_two_eq_zero_or_one quotient with h | h <;> rw [h] <;> norm_num
  · rw [Nat.even_iff]
    omega

/-- Rounded division gives the nearest number, or the even one of two. -/
theorem isNearest_roundDiv
    (n : ℕ)
    {d : ℕ}
    (hd : 0 < d) :
    IsNearest (n / d) (roundDiv n d) := by
  have hdpos : (0 : ℚ) < d := by exact_mod_cast hd
  have hsplit : (n : ℚ) / d = (n / d : ℕ) + (n % d : ℕ) / d := by
    have hdiv : (n : ℚ) = d * (n / d : ℕ) + (n % d : ℕ) := by
      exact_mod_cast (Nat.div_add_mod n d).symm
    field_simp
    linarith
  have hrest : (0 : ℚ) ≤ (n % d : ℕ) / d := by positivity
  have hbelow : ((n % d : ℕ) : ℚ) / d < 1 := by
    rw [div_lt_one hdpos]
    exact_mod_cast Nat.mod_lt n hd
  rw [hsplit]
  simp only [roundDiv]
  generalize n % d = remainder at hrest hbelow ⊢
  split
  · rename_i hless
    refine isNearest_of_lt_half hrest ?_
    have hcast : (2 : ℚ) * remainder < d := by exact_mod_cast hless
    rw [div_lt_div_iff₀ hdpos (by norm_num)]
    linarith
  split
  · rename_i hmore
    refine isNearest_of_half_lt hbelow ?_
    have hcast : (d : ℚ) < 2 * remainder := by exact_mod_cast hmore
    rw [div_lt_div_iff₀ (by norm_num) hdpos]
    linarith
  · rename_i hnotLess hnotMore
    have htie : (remainder : ℚ) / d = 1 / 2 := by
      have hcast : (2 : ℚ) * remainder = d := by exact_mod_cast (by omega : 2 * remainder = d)
      rw [div_eq_div_iff hdpos.ne' (by norm_num)]
      linarith
    rw [htie]
    exact isNearest_of_tie _

section Nearest

variable {value : ℚ} {m : ℕ}

theorem IsNearest.le_of_le
    (h : IsNearest value m)
    {k : ℕ}
    (hk : value ≤ k) :
    m ≤ k := by
  by_contra hlt
  have hstep : (k : ℚ) + 1 ≤ m := by exact_mod_cast (by omega : k + 1 ≤ m)
  have hnear := (abs_le.mp h.near).1
  linarith

theorem IsNearest.ge_of_ge
    (h : IsNearest value m)
    {k : ℕ}
    (hk : (k : ℚ) ≤ value) :
    k ≤ m := by
  by_contra hlt
  have hstep : (m : ℚ) + 1 ≤ k := by exact_mod_cast (by omega : m + 1 ≤ k)
  have hnear := (abs_le.mp h.near).2
  linarith

theorem IsNearest.eq_of_eq
    (h : IsNearest value m)
    {k : ℕ}
    (hk : value = k) :
    m = k :=
  Nat.le_antisymm (h.le_of_le hk.le) (h.ge_of_ge hk.ge)

/-- An even number is reached from half a unit below it on. -/
theorem IsNearest.even_le_iff
    (h : IsNearest value m)
    {k : ℕ}
    (hk : Even k) :
    k ≤ m ↔ (k : ℚ) - 1 / 2 ≤ value := by
  constructor
  · intro hle
    have hcast : (k : ℚ) ≤ m := by exact_mod_cast hle
    have hnear := (abs_le.mp h.near).1
    linarith
  · intro hle
    by_contra hlt
    have hstep : (m : ℚ) + 1 ≤ k := by exact_mod_cast (by omega : m + 1 ≤ k)
    have hnear := (abs_le.mp h.near).2
    -- half a unit above the number below, which would have to be even as well
    have hnext : (m : ℚ) + 1 = k := by linarith
    have hodd : m + 1 = k := by exact_mod_cast hnext
    have htie : |value - m| = 1 / 2 := by
      rw [abs_of_nonneg (by linarith)]
      linarith
    have heven := h.even htie
    rw [← hodd, Nat.even_add_one] at hk
    exact hk heven

/-- There is only one nearest number. -/
theorem IsNearest.unique
    (h : IsNearest value m)
    {k : ℕ}
    (hk : IsNearest value k) :
    m = k := by
  wlog hle : m ≤ k generalizing m k
  · exact (this hk h (Nat.le_of_not_le hle)).symm
  by_contra hne
  have hstep : (m : ℚ) + 1 ≤ k := by exact_mod_cast (by omega : m + 1 ≤ k)
  have hlow := (abs_le.mp h.near).2
  have hhigh := (abs_le.mp hk.near).1
  have hnext : k = m + 1 := by exact_mod_cast (by linarith : (k : ℚ) = m + 1)
  have htie : |value - m| = 1 / 2 := by
    rw [abs_of_nonneg (by linarith)]
    linarith
  have htie' : |value - k| = 1 / 2 := by
    rw [abs_of_nonpos (by linarith)]
    linarith
  have heven := hk.even htie'
  rw [hnext, Nat.even_add_one] at heven
  exact heven (h.even htie)

end Nearest
end LuaView
