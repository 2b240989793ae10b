import LuaView.Number.Binary64
import LuaView.Proofs.Number.Ratios

/-!
# Rounding to floats

The rational number that a finite float stands for, and which floats `ratioBits` rounds to.  A
power of two is reached from the middle between it and the float below it on, because the tie
between these two goes to the power.  The pattern of infinity is that of `2 ^ 1024`, so this is also
where rounding overflows.  A ratio that a normal float stands for is rounded to that float.
-/

namespace LuaView

-- powers are those of the core library, also where there are others
attribute [local instance (high)] instPowNat

namespace Binary64

/-- The absolute value of a finite float. -/
def value (x : Binary64) : ℚ :=
  x.significand * 2 ^ x.exponent

/-- The middle between `2 ^ k` and the float below it. -/
def threshold (k : ℤ) : ℚ :=
  2 ^ k - 2 ^ (k - 54)

theorem infinityBits_eq : infinityBits = 2047 * 4503599627370496 := rfl

/-- The value of a float is its numerator over its denominator. -/
theorem ratio_div (x : Binary64) :
    (x.ratio.1 : ℚ) / x.ratio.2 = x.value := by
  simpa [ratio, value] using scaleRatio_div Nat.two_pos x.exponent x.significand 1

theorem magnitude_negate (x : Binary64) :
    x.negate.magnitude = x.magnitude := by
  rw [magnitude, negate, UInt64.toNat_xor, Nat.xor_mod_two_pow]
  exact Nat.xor_zero _

theorem ratio_pos (x : Binary64) :
    0 < x.ratio.2 :=
  scaleRatio_pos Nat.two_pos Nat.one_pos _ _

/-- The value of a float is zero if and only if the float is. -/
theorem value_eq_zero_iff (x : Binary64) :
    x.value = 0 ↔ x.isZero = true := by
  have hpower : (2 : ℚ) ^ x.exponent ≠ 0 := zpow_ne_zero _ (by norm_num)
  rw [value, mul_eq_zero, or_iff_left hpower, Nat.cast_eq_zero, isZero, beq_iff_eq, significand]
  split <;> omega

/-! ## The values below and above a power of two -/

theorem two_zpow_split (k l : ℤ) :
    (2 : ℚ) ^ k = 2 ^ (k - l) * 2 ^ l := by
  rw [← zpow_add₀ (by norm_num)]
  congr 1
  omega

/-- A float whose pattern is below that of a power of two is at least one unit below the power. -/
theorem value_le_of_lt
    {x : Binary64}
    {k : ℤ}
    (hk : -1021 ≤ k)
    (h : (x.magnitude : ℤ) < (k + 1023) * 2 ^ 52) :
    x.value ≤ 2 ^ k - 2 ^ (k - 53) := by
  have hsignificand : x.significand + 1 ≤ 2 ^ 53 := by
    rw [significand]
    split <;> omega
  have hexponent : x.exponent ≤ k - 53 := by
    rw [exponent]
    omega
  have hpower : (2 : ℚ) ^ x.exponent ≤ 2 ^ (k - 53) :=
    zpow_le_zpow_right₀ (by norm_num) hexponent
  have hcast : (x.significand : ℚ) ≤ 2 ^ 53 - 1 := by
    have hle : (x.significand : ℚ) + 1 ≤ 2 ^ 53 := by exact_mod_cast hsignificand
    linarith
  calc x.value ≤ (2 ^ 53 - 1) * 2 ^ (k - 53) :=
        mul_le_mul hcast hpower (zpow_nonneg (by norm_num) _) (by norm_num)
    _ = 2 ^ k - 2 ^ (k - 53) := by
        rw [two_zpow_split k (k - 53), sub_sub_cancel]
        norm_num
        ring

/-- A finite float whose pattern is not below that of a power of two is not below the power. -/
theorem le_value_of_le
    {x : Binary64}
    {k : ℤ}
    (hk : -1022 ≤ k)
    (h : (k + 1023) * 2 ^ 52 ≤ (x.magnitude : ℤ)) :
    2 ^ k ≤ x.value := by
  have hsignificand : 2 ^ 52 ≤ x.significand := by
    rw [significand]
    split <;> omega
  have hexponent : k - 52 ≤ x.exponent := by
    rw [exponent]
    omega
  have hcast : (2 : ℚ) ^ 52 ≤ x.significand := by exact_mod_cast hsignificand
  calc (2 : ℚ) ^ k = 2 ^ 52 * 2 ^ (k - 52) := by
        rw [two_zpow_split k (k - 52), sub_sub_cancel]
        norm_num
    _ ≤ x.value :=
        mul_le_mul hcast (zpow_le_zpow_right₀ (by norm_num) hexponent)
          (zpow_nonneg (by norm_num) _) (Nat.cast_nonneg _)

/-! ## The middle below a power of two -/

theorem threshold_eq (k : ℤ) :
    threshold k = 2 ^ k * (1 - 2 ^ (-54 : ℤ)) := by
  rw [threshold, mul_sub, mul_one, ← zpow_add₀ (by norm_num)]
  rfl

theorem threshold_pos (k : ℤ) :
    0 < threshold k := by
  rw [threshold_eq]
  exact mul_pos (zpow_pos (by norm_num) _) (by norm_num)

/-- Thresholds grow with their powers. -/
theorem threshold_mono
    {j k : ℤ}
    (h : j ≤ k) :
    threshold j ≤ threshold k := by
  rw [threshold_eq, threshold_eq]
  exact mul_le_mul_of_nonneg_right (zpow_le_zpow_right₀ (by norm_num) h) (by norm_num)

theorem threshold_le (k : ℤ) :
    threshold k ≤ 2 ^ k := by
  rw [threshold]
  linarith [zpow_pos (show (0 : ℚ) < 2 by norm_num) (k - 54)]

/-- A threshold moves with the numbers by a hexadecimal place. -/
theorem threshold_shift (k : ℤ) :
    threshold k = 16 * threshold (k - 4) := by
  rw [threshold_eq, threshold_eq, two_zpow_split k (k - 4), sub_sub_cancel]
  norm_num
  ring

/-- From `2 ^ 54` on thresholds are integers. -/
theorem exists_threshold
    {k : ℤ}
    (hk : 54 ≤ k) :
    ∃ t : ℤ, threshold k = t := by
  refine ⟨2 ^ k.toNat - 2 ^ (k - 54).toNat, ?_⟩
  have hfull : (k.toNat : ℤ) = k := Int.toNat_of_nonneg (by omega)
  have hunit : ((k - 54).toNat : ℤ) = k - 54 := Int.toNat_of_nonneg (by omega)
  push_cast
  rw [threshold, ← zpow_natCast, ← zpow_natCast, hfull, hunit]

/-- The middle below a power is behind half of the power. -/
theorem half_lt_threshold (k : ℤ) :
    2 ^ (k - 1) < threshold k := by
  have hpos : (0 : ℚ) < 2 ^ (k - 1) := zpow_pos (by norm_num) _
  calc (2 : ℚ) ^ (k - 1) < 2 ^ (k - 1) * (2 * (1 - 2 ^ (-54 : ℤ))) :=
        lt_mul_of_one_lt_right hpos (by norm_num)
    _ = threshold k := by
        rw [threshold_eq, two_zpow_split k (k - 1), sub_sub_cancel, zpow_one]
        ring

/-- Between a power and its half it is half a unit in front of a whole number of units. -/
theorem threshold_units (k : ℤ) :
    threshold k = ((2 ^ 53 : ℕ) - 1 / 2) * 2 ^ (k - 53) := by
  rw [threshold_eq, two_zpow_split k (k - 53), sub_sub_cancel]
  norm_num
  ring

/-! ## Rounding -/

theorem ratioBits_le (n d : ℕ) :
    ratioBits n d ≤ infinityBits := by
  rw [ratioBits]
  split
  · exact Nat.zero_le _
  · exact Nat.min_le_right _ _

/-- The magnitude of a rounded ratio is what its bits say. -/
theorem magnitude_ofRatio (n d : ℕ) :
    (ofRatio n d).magnitude = ratioBits n d := by
  have hle := ratioBits_le n d
  rw [infinityBits_eq] at hle
  rw [magnitude, ofRatio, UInt64.toNat_ofNat_of_lt' (by rw [UInt64.size]; omega)]
  exact Nat.mod_eq_of_lt (by omega)

/-- The significand is the nearest number of units, and the unit is that of the first digit. -/
theorem ratioBits_spec
    {n d : ℕ}
    (hn : 0 < n)
    (hd : 0 < d) :
    ∃ (unit : ℤ) (m : ℕ), unit = max (Int.log 2 ((n : ℚ) / d) - 52) (-1074) ∧
      IsNearest (n / d * 2 ^ (-unit)) m ∧
      ratioBits n d = min ((unit + 1074).toNat * 2 ^ 52 + m) infinityBits := by
  generalize hunit : max (Int.log 2 ((n : ℚ) / d) - 52) (-1074) = unit
  refine ⟨unit, roundDiv (scaleRatio 2 (-unit) n d).1 (scaleRatio 2 (-unit) n d).2, rfl, ?_, ?_⟩
  · have hscaled := scaleRatio_div Nat.two_pos (-unit) n d
    rw [Nat.cast_ofNat] at hscaled
    rw [← hscaled]
    exact isNearest_roundDiv _ (scaleRatio_pos Nat.two_pos hd _ n)
  · rw [ratioBits, if_neg hn.ne', ratioLog_eq_log Nat.one_lt_two hn hd, hunit]

/-- A ratio is rounded to `2 ^ k` or more exactly from the threshold on. -/
theorem le_ratioBits_iff
    {n d : ℕ}
    (hn : 0 < n)
    (hd : 0 < d)
    {k : ℤ}
    (hlow : -1021 ≤ k)
    (hhigh : k ≤ 1024) :
    (k + 1023) * 2 ^ 52 ≤ (ratioBits n d : ℤ) ↔ threshold k ≤ n / d := by
  obtain ⟨unit, m, hunit, hnearest, hbits⟩ := ratioBits_spec hn hd
  have hpos : (0 : ℚ) < n / d := div_pos (by exact_mod_cast hn) (by exact_mod_cast hd)
  have hself := Int.zpow_log_le_self (b := 2) Nat.one_lt_two hpos
  have hnext := Int.lt_zpow_succ_log_self (b := 2) Nat.one_lt_two ((n : ℚ) / d)
  generalize Int.log 2 ((n : ℚ) / d) = log at hunit hself hnext
  generalize (n : ℚ) / d = value at hnearest hpos hself hnext ⊢
  rw [infinityBits_eq] at hbits
  rw [hbits]
  push_cast at hself hnext
  have hshift : ∀ a b : ℤ, (2 : ℚ) ^ a * 2 ^ b = 2 ^ (a + b) := fun a b =>
    (zpow_add₀ (by norm_num) a b).symm
  have hmono : ∀ {a b : ℤ}, a ≤ b → (2 : ℚ) ^ a ≤ 2 ^ b := zpow_le_zpow_right₀ (by norm_num)
  have hposPow : ∀ a : ℤ, (0 : ℚ) < 2 ^ a := fun a => zpow_pos (by norm_num) a
  rcases lt_trichotomy (log + 1) k with hbelow | hequal | habove
  · -- less than half of the power, and at most half of it after rounding
    refine iff_of_false ?_ ?_
    · have hbound : value * 2 ^ (-unit) ≤ 2 ^ (log + 1 - unit) :=
        calc value * 2 ^ (-unit) ≤ 2 ^ (log + 1) * 2 ^ (-unit) :=
              mul_le_mul_of_nonneg_right hnext.le (hposPow _).le
          _ = 2 ^ (log + 1 - unit) := hshift _ _
      have hm : m ≤ 2 ^ 53 := hnearest.le_of_le <| hbound.trans <| by
        exact_mod_cast hmono (show log + 1 - unit ≤ 53 by omega)
      have hm' : log < -1022 → m ≤ 2 ^ 52 := fun hlog =>
        hnearest.le_of_le <| hbound.trans <| by
          exact_mod_cast hmono (show log + 1 - unit ≤ 52 by omega)
      omega
    · have hhalf : value < 2 ^ (k - 1) := lt_of_lt_of_le hnext (hmono (by omega))
      exact not_le.mpr (hhalf.trans (half_lt_threshold k))
  · obtain rfl : unit = k - 53 := by omega
    have heven := hnearest.even_le_iff (k := 2 ^ 53) (by decide)
    rw [zpow_neg, ← div_eq_mul_inv] at heven
    rw [threshold_units, ← le_div_iff₀ (hposPow _), ← heven]
    omega
  · -- the power is not above the ratio
    have hreached : 2 ^ k ≤ value := (hmono (by omega)).trans hself
    refine iff_of_true ?_ ?_
    · have hm : 2 ^ 52 ≤ m := by
        refine hnearest.ge_of_ge ?_
        calc ((2 ^ 52 : ℕ) : ℚ) = 2 ^ log * 2 ^ (-unit) := by
              rw [hshift, show log + -unit = 52 by omega]
              norm_num
          _ ≤ value * 2 ^ (-unit) := mul_le_mul_of_nonneg_right hself (hposPow _).le
      omega
    · exact (threshold_le k).trans hreached

/-- What a normal float stands for is rounded to that float. -/
theorem ratioBits_of_eq
    {n d : ℕ}
    (hn : 0 < n)
    (hd : 0 < d)
    {m : ℕ}
    (hlow : 2 ^ 52 ≤ m)
    (hhigh : m < 2 ^ 53)
    {unit : ℤ}
    (hleast : -1074 ≤ unit)
    (hgreatest : unit ≤ 971)
    (h : (n : ℚ) / d = m * 2 ^ unit) :
    ratioBits n d = (unit + 1074).toNat * 2 ^ 52 + m := by
  obtain ⟨unit', m', hunit, hnearest, hbits⟩ := ratioBits_spec hn hd
  have hpos : (0 : ℚ) < n / d := div_pos (by exact_mod_cast hn) (by exact_mod_cast hd)
  have hposPow : (0 : ℚ) < 2 ^ unit := zpow_pos (by norm_num) _
  have hself : (2 : ℚ) ^ (unit + 52) ≤ n / d := by
    rw [h, two_zpow_split (unit + 52) unit, add_sub_cancel_left]
    exact mul_le_mul_of_nonneg_right (by exact_mod_cast hlow) hposPow.le
  have hnext : (n : ℚ) / d < 2 ^ (unit + 53) := by
    rw [h, two_zpow_split (unit + 53) unit, add_sub_cancel_left]
    exact mul_lt_mul_of_pos_right (by exact_mod_cast hhigh) hposPow
  have hlogLow := (Int.zpow_le_iff_le_log (b := 2) Nat.one_lt_two hpos).mp (by exact_mod_cast hself)
  have hlogHigh :=
    (Int.lt_zpow_iff_log_lt (b := 2) Nat.one_lt_two hpos).mp (by exact_mod_cast hnext)
  obtain rfl : unit' = unit := by omega
  have hscaled : (n : ℚ) / d * 2 ^ (-unit') = m := by
    rw [h, mul_assoc, ← zpow_add₀ (by norm_num), add_neg_cancel, zpow_zero, mul_one]
  obtain rfl := hnearest.eq_of_eq hscaled
  rw [hbits, infinityBits_eq]
  omega

/-- A ratio that a float stands for is rounded to this float. -/
theorem value_ofRatio_of_eq
    {n d : ℕ}
    (hn : 0 < n)
    (hd : 0 < d)
    {m : ℕ}
    (hlow : 2 ^ 52 ≤ m)
    (hhigh : m < 2 ^ 53)
    {unit : ℤ}
    (hleast : -1074 ≤ unit)
    (hgreatest : unit ≤ 971)
    (h : (n : ℚ) / d = m * 2 ^ unit) :
    (ofRatio n d).value = m * 2 ^ unit := by
  have hbits := ratioBits_of_eq hn hd hlow hhigh hleast hgreatest h
  rw [value, significand, exponent, magnitude_ofRatio, hbits]
  have hsignificand : (if ((unit + 1074).toNat * 2 ^ 52 + m) / 2 ^ 52 = 0 then
      ((unit + 1074).toNat * 2 ^ 52 + m) % 2 ^ 52
      else 2 ^ 52 + ((unit + 1074).toNat * 2 ^ 52 + m) % 2 ^ 52) = m := by
    split <;> omega
  have hexponent : (max (((unit + 1074).toNat * 2 ^ 52 + m) / 2 ^ 52) 1 : ℕ) - 1075 = unit := by
    omega
  rw [hsignificand, hexponent]

/-- A ratio that a finite float stands for is rounded to that float. -/
theorem ratioBits_of_value
    {n d : ℕ}
    (hd : 0 < d)
    {x : Binary64}
    (hfinite : x.isFinite = true)
    (h : (n : ℚ) / d = x.value) :
    ratioBits n d = x.magnitude := by
  have hbound : x.magnitude < 2047 * 2 ^ 52 := of_decide_eq_true hfinite
  rcases Nat.eq_zero_or_pos n with rfl | hn
  · rw [Nat.cast_zero, zero_div] at h
    have hzero : x.magnitude = 0 := beq_iff_eq.mp (x.value_eq_zero_iff.mp h.symm)
    rw [hzero, ratioBits, if_pos rfl]
  · rcases Nat.lt_or_ge x.magnitude (2 ^ 52) with hsmall | hlarge
    · -- a subnormal float is counted in units of the last place that there is
      have hvalue : x.value = x.magnitude * 2 ^ (-1074 : ℤ) := by
        rw [value, significand, exponent, if_pos (Nat.div_eq_of_lt hsmall),
          Nat.mod_eq_of_lt hsmall, Nat.div_eq_of_lt hsmall]
        rfl
      obtain ⟨unit, m, hunit, hnearest, hbits⟩ := ratioBits_spec hn hd
      have hpos : (0 : ℚ) < n / d := div_pos (by exact_mod_cast hn) (by exact_mod_cast hd)
      have hpower : (2 : ℚ) ^ (-1022 : ℤ) = 2 ^ 52 * 2 ^ (-1074 : ℤ) := by
        rw [← zpow_natCast, ← zpow_add₀ (by norm_num)]
        congr 1
      have hnext : (n : ℚ) / d < 2 ^ (-1022 : ℤ) := by
        rw [h, hvalue, hpower]
        exact mul_lt_mul_of_pos_right (by exact_mod_cast hsmall) (zpow_pos (by norm_num) _)
      have hlog :=
        (Int.lt_zpow_iff_log_lt (b := 2) Nat.one_lt_two hpos).mp (by exact_mod_cast hnext)
      obtain rfl : unit = -1074 := by omega
      have hscaled : (n : ℚ) / d * 2 ^ (-(-1074) : ℤ) = x.magnitude := by
        rw [h, hvalue, mul_assoc, ← zpow_add₀ (by norm_num), add_neg_cancel, zpow_zero, mul_one]
      obtain rfl := hnearest.eq_of_eq hscaled
      rw [hbits, infinityBits_eq]
      omega
    · have hnormal : x.magnitude / 2 ^ 52 ≠ 0 := by omega
      have hsignificand : x.significand = 2 ^ 52 + x.magnitude % 2 ^ 52 := by
        rw [significand, if_neg hnormal]
      have hexponent : x.exponent = (x.magnitude / 2 ^ 52 : ℕ) - 1075 := by
        rw [exponent]
        omega
      have hbits := ratioBits_of_eq hn hd (m := x.significand) (by omega) (by omega) (by omega)
        (by omega) h
      rw [hbits]
      omega

/-- Integers of at most fifty-three bits are floats. -/
theorem value_ofRatio_of_lt
    {n d v : ℕ}
    (hd : 0 < d)
    (hv : v < 2 ^ 53)
    (h : (n : ℚ) / d = v) :
    (ofRatio n d).value = v := by
  have hdne : (d : ℚ) ≠ 0 := by exact_mod_cast hd.ne'
  rcases Nat.eq_zero_or_pos v with rfl | hpos
  · have hn : n = 0 := by simpa [hdne] using h
    rw [hn, ofRatio, ratioBits, if_pos rfl]
    simp [value, significand, magnitude]
  · have hn : 0 < n := Nat.pos_of_ne_zero fun hn => by
      rw [hn, Nat.cast_zero, zero_div] at h
      exact hpos.ne (by exact_mod_cast h)
    have hlow := Nat.log2_self_le hpos.ne'
    have hhigh := Nat.lt_log2_self (n := v)
    have hlog : v.log2 ≤ 52 := by
      have hlt := (Nat.log2_lt hpos.ne').mpr hv
      omega
    have hunit : (v : ℚ) = (v * 2 ^ (52 - v.log2) : ℕ) * 2 ^ ((v.log2 : ℤ) - 52) := by
      have hone : (2 : ℚ) ^ ((52 : ℤ) - v.log2) * 2 ^ ((v.log2 : ℤ) - 52) = 1 := by
        rw [← zpow_add₀ (by norm_num)]
        norm_num
      have hcast : (2 : ℚ) ^ (52 - v.log2) = 2 ^ ((52 : ℤ) - v.log2) := by
        rw [← zpow_natCast]
        congr 1
        omega
      push_cast
      rw [hcast, mul_assoc, hone, mul_one]
    have hsplit : (2 : ℕ) ^ 52 = 2 ^ v.log2 * 2 ^ (52 - v.log2) := by
      rw [← Nat.pow_add]
      congr 1
      omega
    have hpow : 0 < 2 ^ (52 - v.log2) := Nat.two_pow_pos _
    rw [hunit]
    refine value_ofRatio_of_eq hn hd ?_ ?_ (by omega) (by omega) (h.trans hunit)
    · rw [hsplit]
      exact Nat.mul_le_mul_right _ hlow
    · have hlt := Nat.mul_lt_mul_of_pos_right hhigh hpow
      rw [Nat.pow_succ] at hlt
      rw [Nat.pow_succ, hsplit]
      linarith

end Binary64
end LuaView
