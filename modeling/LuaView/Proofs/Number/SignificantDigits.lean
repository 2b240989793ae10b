import LuaView.Number.Significant
import LuaView.Proofs.Number.Ratios

/-!
# Rounding to significant digits

`Significant.ofRatio` rounds a ratio to the nearest decimal of so many digits, wherever the first of
them stands.  The last digits of such decimals stand at the place that the first digit of the ratio
gives them, also for a ratio that is rounded up to a power of ten.  Rounding to that many places
gives the same digits.
-/

namespace LuaView

-- powers are those of the core library, also where there are others
attribute [local instance (high)] instPowNat

/-- No natural number is nearer, and one that is equally near is the same or the number is even. -/
theorem IsNearest.le_abs
    {value : ℚ}
    {m : ℕ}
    (h : IsNearest value m)
    (k : ℕ) :
    |value - m| ≤ |value - k| ∧ (|value - m| = |value - k| → k = m ∨ Even m) := by
  rcases eq_or_ne k m with rfl | hne
  · exact ⟨le_refl _, fun _ => .inl rfl⟩
  have happart : (1 : ℚ) ≤ |(m : ℚ) - k| := by
    have hint : (1 : ℤ) ≤ |(m : ℤ) - k| := Int.one_le_abs (by omega)
    exact_mod_cast hint
  have htriangle : |(m : ℚ) - k| ≤ |value - m| + |value - k| := by
    rw [abs_sub_comm value m]
    simpa using abs_add_le ((m : ℚ) - value) (value - k)
  have hnear := h.near
  refine ⟨by linarith, fun heq => .inr (h.even ?_)⟩
  linarith

namespace Significant

/-- The number that a decimal of `k` digits stands for. -/
def value (k : ℕ) (decimal : Significant) : ℚ :=
  decimal.digits * 10 ^ (decimal.exponent + 1 - k)

/-- A decimal is a value rounded to `k` significant digits: it has so many digits, unless it is
zero, no decimal of at most so many digits is nearer to the value, and if another one is equally
near, the last digit is even. -/
structure IsRounding (k : ℕ) (exact : ℚ) (decimal : Significant) : Prop where
  digits : exact = 0 ∧ decimal = ⟨0, 0⟩ ∨ 10 ^ (k - 1) ≤ decimal.digits ∧ decimal.digits < 10 ^ k
  nearest : ∀ (m : ℕ) (place : ℤ), m < 10 ^ k →
    |exact - decimal.value k| ≤ |exact - m * 10 ^ place|
  even : ∀ (m : ℕ) (place : ℤ), m < 10 ^ k →
    |exact - decimal.value k| = |exact - m * 10 ^ place| →
      (m * 10 ^ place : ℚ) = decimal.value k ∨ Even decimal.digits

theorem isRounding_zero (k : ℕ) :
    IsRounding k 0 ⟨0, 0⟩ := by
  refine ⟨.inl ⟨rfl, rfl⟩, fun m place _ => ?_, fun _ _ _ _ => .inr (by decide)⟩
  simp only [value, Nat.cast_zero, zero_mul, sub_zero, abs_zero]
  exact abs_nonneg _

theorem ten_zpow_add (a b : ℤ) :
    (10 : ℚ) ^ (a + b) = 10 ^ a * 10 ^ b :=
  zpow_add₀ (by norm_num) a b

section Rounding

variable {k n d : ℕ}

/-- What the digits of a rounded ratio are: the nearest number of units, or one digit less if all
digits carry. -/
theorem ofRatio_spec
    (hk : 0 < k)
    (hn : 0 < n)
    (hd : 0 < d) :
    ∃ (log : ℤ) (m : ℕ), (10 : ℚ) ^ log ≤ n / d ∧ (n : ℚ) / d < 10 ^ (log + 1) ∧
      IsNearest (n / d * 10 ^ (k - 1 - log)) m ∧ 10 ^ (k - 1) ≤ m ∧ m ≤ 10 ^ k ∧
      ofRatio k n d = if m = 10 ^ k then ⟨10 ^ (k - 1), log + 1⟩ else ⟨m, log⟩ := by
  have hpos : (0 : ℚ) < n / d := div_pos (by exact_mod_cast hn) (by exact_mod_cast hd)
  have hself := Int.zpow_log_le_self (b := 10) (by norm_num) hpos
  have hnext := Int.lt_zpow_succ_log_self (b := 10) (by norm_num) ((n : ℚ) / d)
  have hlog := ratioLog_eq_log (b := 10) (by norm_num) hn hd
  generalize Int.log 10 ((n : ℚ) / d) = log at hself hnext hlog
  push_cast at hself hnext
  have hunit : (0 : ℚ) < 10 ^ ((k : ℤ) - 1 - log) := zpow_pos (by norm_num) _
  have hnearest : IsNearest (n / d * 10 ^ ((k : ℤ) - 1 - log))
      (roundDiv (scaleRatio 10 ((k : ℤ) - 1 - log) n d).1
        (scaleRatio 10 ((k : ℤ) - 1 - log) n d).2) := by
    have hscaled := scaleRatio_div (b := 10) (by norm_num) ((k : ℤ) - 1 - log) n d
    rw [Nat.cast_ofNat] at hscaled
    rw [← hscaled]
    exact isNearest_roundDiv _ (scaleRatio_pos (by norm_num) hd _ n)
  refine ⟨log, _, hself, hnext, hnearest, hnearest.ge_of_ge ?_, hnearest.le_of_le ?_, ?_⟩
  · have hcast : ((10 ^ (k - 1) : ℕ) : ℚ) = 10 ^ log * 10 ^ ((k : ℤ) - 1 - log) := by
      rw [← ten_zpow_add, show log + ((k : ℤ) - 1 - log) = ((k - 1 : ℕ) : ℤ) by omega, zpow_natCast]
      norm_cast
    rw [hcast]
    exact mul_le_mul_of_nonneg_right hself hunit.le
  · have hcast : ((10 ^ k : ℕ) : ℚ) = 10 ^ (log + 1) * 10 ^ ((k : ℤ) - 1 - log) := by
      rw [← ten_zpow_add, show log + 1 + ((k : ℤ) - 1 - log) = (k : ℤ) by omega, zpow_natCast]
      norm_cast
    rw [hcast]
    exact mul_le_mul_of_nonneg_right hnext.le hunit.le
  · rw [ofRatio, hlog]

/-- The value of a rounded ratio, in units of its last digit. -/
theorem value_ofRatio_eq
    (hk : 0 < k)
    {log : ℤ}
    {m : ℕ}
    {decimal : Significant}
    (h : decimal = if m = 10 ^ k then ⟨10 ^ (k - 1), log + 1⟩ else ⟨m, log⟩) :
    decimal.value k = m * 10 ^ (log + 1 - k) := by
  subst h
  split
  · rename_i hm
    rw [hm, value]
    simp only
    rw [show log + 1 + 1 - (k : ℤ) = 1 + (log + 1 - k) by omega, ten_zpow_add, ← mul_assoc,
      zpow_one]
    congr 1
    obtain ⟨i, rfl⟩ := Nat.exists_eq_succ_of_ne_zero hk.ne'
    push_cast
    exact (pow_succ _ _).symm
  · rfl

/-- The decimal is at least as near as another number, and its last digit is even if that one is
just as near. -/
def IsNoFarther (k : ℕ) (exact : ℚ) (decimal : Significant) (other : ℚ) : Prop :=
  |exact - decimal.value k| ≤ |exact - other| ∧
    (|exact - decimal.value k| = |exact - other| → other = decimal.value k ∨ Even decimal.digits)

section Distances

variable {exact : ℚ} {log place : ℤ} {decimal : Significant}

theorem IsNoFarther.of_lt
    {other : ℚ}
    (h : |exact - decimal.value k| < |exact - other|) :
    IsNoFarther k exact decimal other :=
  ⟨h.le, fun heq => absurd heq h.ne⟩

/-- No number of the units of the last digit is nearer. -/
theorem isNoFarther_units
    {m : ℕ}
    (hnearest : IsNearest (exact * 10 ^ ((k : ℤ) - 1 - log)) m)
    (hvalue : decimal.value k = m * 10 ^ (log + 1 - k))
    (heven : Even m → Even decimal.digits)
    (i : ℕ) :
    IsNoFarther k exact decimal (i * 10 ^ (log + 1 - k)) := by
  have hunit : (0 : ℚ) < 10 ^ (log + 1 - k) := zpow_pos (by norm_num) _
  have hinverse : (10 : ℚ) ^ ((k : ℤ) - 1 - log) * 10 ^ (log + 1 - k) = 1 := by
    rw [← ten_zpow_add, show (k : ℤ) - 1 - log + (log + 1 - k) = 0 by omega, zpow_zero]
  have hscaled : ∀ i : ℕ, |exact - i * 10 ^ (log + 1 - k)| =
      |exact * 10 ^ ((k : ℤ) - 1 - log) - i| * 10 ^ (log + 1 - k) := by
    intro i
    rw [← abs_of_pos hunit, ← abs_mul, abs_of_pos hunit, sub_mul, mul_assoc, hinverse, mul_one]
  obtain ⟨hle, htie⟩ := hnearest.le_abs i
  rw [IsNoFarther, hvalue, hscaled, hscaled]
  refine ⟨mul_le_mul_of_nonneg_right hle hunit.le, fun h => ?_⟩
  rcases htie (mul_right_cancel₀ hunit.ne' h) with rfl | hm
  · exact .inl rfl
  · exact .inr (heven hm)

/-- A decimal whose digits stand further right has its first digit too far right. -/
theorem lt_of_place_lt
    {i : ℕ}
    (hi : i < 10 ^ k)
    (hplace : place < log + 1 - k) :
    (i : ℚ) * 10 ^ place < 10 ^ log := by
  calc (i : ℚ) * 10 ^ place < (10 ^ k : ℕ) * 10 ^ place :=
        mul_lt_mul_of_pos_right (by exact_mod_cast hi) (zpow_pos (by norm_num) _)
    _ = 10 ^ ((k : ℤ) + place) := by
        rw [ten_zpow_add, zpow_natCast]
        push_cast
        rfl
    _ ≤ 10 ^ log := zpow_le_zpow_right₀ (by norm_num) (by omega)

/-- A decimal whose last digit stands further left is a number of the same units. -/
theorem units_of_place_le
    {last : ℤ}
    (hplace : last ≤ place)
    (i : ℕ) :
    (i : ℚ) * 10 ^ place = (i * 10 ^ (place - last).toNat : ℕ) * 10 ^ last := by
  push_cast
  rw [mul_assoc, ← zpow_natCast, Int.toNat_of_nonneg (by omega), ← ten_zpow_add]
  congr 2
  omega

end Distances

theorem isRounding_ofRatio
    (hk : 2 ≤ k)
    (hn : 0 < n)
    (hd : 0 < d) :
    IsRounding k (n / d) (ofRatio k n d) := by
  have hkpos : 0 < k := by omega
  obtain ⟨log, m, hself, -, hnearest, hlow, hhigh, heq⟩ := ofRatio_spec hkpos hn hd
  have hvalue := value_ofRatio_eq hkpos heq
  generalize (n : ℚ) / d = exact at *
  generalize ofRatio k n d = decimal at *
  have hdigits : decimal.digits = if m = 10 ^ k then 10 ^ (k - 1) else m := by
    rw [heq]
    split <;> rfl
  have heven : Even m → Even decimal.digits := by
    intro hm
    rw [hdigits]
    split
    · exact (show Even 10 by decide).pow_of_ne_zero (by omega)
    · exact hm
  have hunits := isNoFarther_units hnearest hvalue heven
  have hfirst : (((10 ^ (k - 1) : ℕ) : ℚ) * 10 ^ (log + 1 - k)) = 10 ^ log := by
    rw [show log = ((k - 1 : ℕ) : ℤ) + (log + 1 - k) by omega, ten_zpow_add, zpow_natCast]
    push_cast
    congr 2
    omega
  have hcompare : ∀ (i : ℕ) (place : ℤ), i < 10 ^ k →
      IsNoFarther k exact decimal (i * 10 ^ place) := by
    intro i place hi
    rcases lt_or_ge place (log + 1 - k) with hplace | hplace
    · -- it is below the first digit of the ratio, and the power of ten there is no farther
      have hbelow := lt_of_place_lt hi hplace
      have hnear := (hunits (10 ^ (k - 1))).1
      rw [hfirst, abs_of_nonneg (sub_nonneg.mpr hself)] at hnear
      refine .of_lt ?_
      rw [abs_of_pos (sub_pos.mpr (hbelow.trans_le hself))]
      linarith
    · rw [units_of_place_le hplace]
      exact hunits _
  refine ⟨.inr ?_, fun i place hi => (hcompare i place hi).1,
    fun i place hi => (hcompare i place hi).2⟩
  rw [hdigits]
  have hpow : (10 : ℕ) ^ (k - 1) < 10 ^ k := Nat.pow_lt_pow_right (by decide) (by omega)
  split
  · exact ⟨le_refl _, hpow⟩
  · exact ⟨hlow, lt_of_le_of_ne hhigh ‹_›⟩

/-- The digits are nearest also at the place that they have after the rounding: a ratio that is
rounded up to a power of ten is within a twentieth of a unit of that place. -/
theorem isNearest_digits
    (hk : 0 < k)
    (hn : 0 < n)
    (hd : 0 < d) :
    IsNearest (n / d * 10 ^ ((k : ℤ) - 1 - (ofRatio k n d).exponent)) (ofRatio k n d).digits := by
  obtain ⟨log, m, -, -, hnearest, -, -, heq⟩ := ofRatio_spec hk hn hd
  rw [heq]
  split
  · rename_i hcarry
    have hclose : |(n : ℚ) / d * 10 ^ ((k : ℤ) - 1 - (log + 1)) - (10 ^ (k - 1) : ℕ)| ≤ 1 / 20 := by
      have htenth : (n : ℚ) / d * 10 ^ ((k : ℤ) - 1 - (log + 1)) - (10 ^ (k - 1) : ℕ) =
          (n / d * 10 ^ ((k : ℤ) - 1 - log) - m) * 10 ^ (-1 : ℤ) := by
        have hpow : ((10 ^ k : ℕ) : ℚ) = (10 ^ (k - 1) : ℕ) * 10 := by
          exact_mod_cast (Nat.pow_pred_mul hk).symm
        rw [hcarry, hpow, show (k : ℤ) - 1 - (log + 1) = (k : ℤ) - 1 - log + (-1) by omega,
          ten_zpow_add]
        norm_num
        ring
      have hnear := hnearest.near
      rw [htenth, abs_mul, abs_of_pos (zpow_pos (show (0 : ℚ) < 10 by norm_num) _), zpow_neg_one]
      linarith
    refine ⟨by linarith, fun hhalf => ?_⟩
    rw [hhalf] at hclose
    norm_num at hclose
  · exact hnearest

/-- Rounding to as many places as the rounded ratio has gives the same digits. -/
theorem roundDiv_eq_digits
    (hk : 0 < k)
    (hn : 0 < n)
    (hd : 0 < d)
    {places : ℕ}
    (hplaces : (k : ℤ) - 1 - (ofRatio k n d).exponent = places) :
    roundDiv (n * 10 ^ places) d = (ofRatio k n d).digits := by
  have hdigits := isNearest_digits hk hn hd
  rw [hplaces, zpow_natCast, div_mul_eq_mul_div] at hdigits
  have hround := isNearest_roundDiv (n * 10 ^ places) hd
  push_cast at hround
  exact hround.unique hdigits

end Rounding
end Significant
end LuaView
