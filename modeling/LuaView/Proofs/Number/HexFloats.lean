import LuaView.Proofs.Number.FloatRounding
import LuaView.Proofs.Number.NumeralGrammar

/-!
# Hexadecimal floats without a value

The digits of a hexadecimal float are pushed onto a float one by one, and the two halves of its
power of two are multiplied on.  The digits overflow exactly from the middle between the greatest
float and `2 ^ 1024` on, as if they were rounded once.  A half of the power is infinite from
`2 ^ 1024` on and zero from `2 ^ -1024` down, so digits that are all zero or that overflow can meet
a half with which they have no product.  These are the only numerals that denote a NaN.
-/

namespace LuaView

-- powers are those of the core library, also where there are others
attribute [local instance (high)] instPowNat

open CharClass (isHexDigit digitsValue digitValue)

namespace Binary64

/-! ## Digits -/

/-- A float that holds a natural number as well as it can: exactly if the number has at most
fifty-three bits, and otherwise on the right side of every greater power of two. -/
structure Holds (x : Binary64) (v : ℕ) : Prop where
  bits_le : x.bits.toNat ≤ infinityBits
  exact : v < 2 ^ 53 → x.value = v
  reaches : ∀ k : ℤ, 53 ≤ k → k ≤ 1024 →
    ((k + 1023) * 2 ^ 52 ≤ (x.magnitude : ℤ) ↔ threshold k ≤ v)

section Holds

variable {x : Binary64} {v : ℕ}

theorem magnitude_of_bits_le
    (h : x.bits.toNat ≤ infinityBits) :
    x.magnitude = x.bits.toNat := by
  rw [infinityBits_eq] at h
  exact Nat.mod_eq_of_lt (by omega)

theorem bits_ofRatio (n d : ℕ) :
    (ofRatio n d).bits.toNat = ratioBits n d := by
  have hle := ratioBits_le n d
  rw [infinityBits_eq] at hle
  exact UInt64.toNat_ofNat_of_lt' (by rw [UInt64.size]; omega)

/-- A value has become infinite if and only if it is beyond the largest threshold. -/
theorem Holds.isInfinite_iff
    (h : Holds x v) :
    x.isInfinite = true ↔ threshold 1024 ≤ v := by
  have hle := h.bits_le
  rw [← magnitude_of_bits_le hle] at hle
  rw [← h.reaches 1024 (by omega) (by omega), isInfinite, beq_iff_eq]
  rw [infinityBits_eq] at hle ⊢
  omega

theorem two_pow_le_of_threshold_le
    {k : ℤ}
    (hk : 53 ≤ k)
    (h : threshold k ≤ v) :
    2 ^ 53 ≤ v := by
  have hleast : threshold 53 ≤ v := (threshold_mono hk).trans h
  by_contra hlt
  have hcast : (v : ℚ) + 1 ≤ 2 ^ 53 := by exact_mod_cast (by omega : v + 1 ≤ 2 ^ 53)
  rw [threshold] at hleast
  norm_num at hleast hcast
  linarith

theorem threshold_le_of_two_pow_le
    (h : 2 ^ 53 ≤ v) :
    threshold 53 ≤ v :=
  (threshold_le 53).trans (by exact_mod_cast h)

/-- A float that holds a value is zero if and only if the value is. -/
theorem Holds.isZero_iff
    (h : Holds x v) :
    x.isZero = true ↔ v = 0 := by
  rw [← value_eq_zero_iff]
  by_cases hv : v < 2 ^ 53
  · rw [h.exact hv, Nat.cast_eq_zero]
  · refine iff_of_false ?_ (by omega)
    have hreached := (h.reaches 53 (by omega) (by omega)).mpr
      (threshold_le_of_two_pow_le (Nat.le_of_not_lt hv))
    have hpower := le_value_of_le (by omega) hreached
    exact (lt_of_lt_of_le (zpow_pos (by norm_num) _) hpower).ne'

theorem holds_zero : Holds zero 0 := by
  refine ⟨Nat.zero_le _, fun _ => ?_, fun k hk _ => iff_of_false ?_ ?_⟩
  · exact (value_eq_zero_iff zero).mpr (by decide)
  · have hmagnitude : zero.magnitude = 0 := rfl
    omega
  · exact not_le.mpr (threshold_pos k)

section Push

variable {digit : ℕ} {k : ℤ}

/-- A whole number below a threshold stays below the next one with one more digit. -/
theorem push_lt_threshold
    (hk : 58 ≤ k)
    (hdigit : digit < 16)
    (hv : (v : ℚ) < threshold (k - 4)) :
    (16 * v + digit : ℚ) < threshold k := by
  obtain ⟨t, ht⟩ := exists_threshold (show 54 ≤ k - 4 by omega)
  rw [ht] at hv
  have hless : (v : ℤ) < t := by exact_mod_cast hv
  have hcast : (v : ℚ) + 1 ≤ t := by exact_mod_cast hless
  have hmost : (digit : ℚ) ≤ 15 := by exact_mod_cast (by omega : digit ≤ 15)
  rw [threshold_shift k, ht]
  linarith

/-- A float below a power of two is a unit below it, and sixteen units are more than a digit. -/
theorem push_value_lt_threshold
    (hk : 58 ≤ k)
    (hdigit : digit < 16)
    (hx : (x.magnitude : ℤ) < (k - 4 + 1023) * 2 ^ 52) :
    16 * x.value + digit < threshold k := by
  have hbelow := value_le_of_lt (by omega) hx
  have hmost : (digit : ℚ) ≤ 15 := by exact_mod_cast (by omega : digit ≤ 15)
  have hunit : (16 : ℚ) ≤ 2 ^ (k - 54) := by
    have hmono := zpow_le_zpow_right₀ (show (1 : ℚ) ≤ 2 by norm_num) (show 4 ≤ k - 54 by omega)
    norm_num at hmono
    exact hmono
  have hfull := two_zpow_split k (k - 4)
  have hhalf := two_zpow_split (k - 54) (k - 4 - 53)
  rw [sub_sub_cancel] at hfull
  rw [show k - 54 - (k - 4 - 53) = 3 by omega] at hhalf
  rw [threshold]
  norm_num at hfull hhalf
  linarith

/-- Sixteen times a number and a digit reach a power of two together with sixteen times its float
and the digit. -/
theorem Holds.reaches_push
    (h : Holds x v)
    (hdigit : digit < 16)
    (hlow : 53 ≤ k)
    (hhigh : k ≤ 1024) :
    threshold k ≤ 16 * x.value + digit ↔ threshold k ≤ (16 * v + digit : ℕ) := by
  push_cast
  have hdigitPos : (0 : ℚ) ≤ digit := Nat.cast_nonneg _
  by_cases hv : v < 2 ^ 53
  · rw [h.exact hv]
  have hlarge : (2 : ℚ) ^ 53 ≤ v := by exact_mod_cast Nat.le_of_not_lt hv
  rcases lt_or_ge k 58 with hsmall | hk
  · -- a number with so many bits is beyond these powers without the digit
    have hreached := (h.reaches 53 (by omega) (by omega)).mpr
      (threshold_le_of_two_pow_le (Nat.le_of_not_lt hv))
    have hvalue := le_value_of_le (by omega) hreached
    have hmost := (threshold_mono (show k ≤ 57 by omega)).trans (threshold_le 57)
    have hpower : (2 : ℚ) ^ (53 : ℤ) = 2 ^ 53 := by norm_num
    have hpower' : (2 : ℚ) ^ (57 : ℤ) = 16 * 2 ^ 53 := by norm_num
    rw [hpower] at hvalue
    rw [hpower'] at hmost
    exact iff_of_true (by linarith) (by linarith)
  · have hiff := h.reaches (k - 4) (by omega) (by omega)
    by_cases hreached : threshold (k - 4) ≤ v
    · have hvalue := (threshold_le (k - 4)).trans (le_value_of_le (by omega) (hiff.mpr hreached))
      rw [threshold_shift k]
      exact iff_of_true (by linarith) (by linarith)
    · have hbelow := not_le.mp fun hle => hreached (hiff.mp hle)
      exact iff_of_false (not_le.mpr (push_value_lt_threshold hk hdigit hbelow))
        (not_le.mpr (push_lt_threshold hk hdigit (not_le.mp hreached)))

end Push

/-- One more digit is added to sixteen times the value, and the sum is rounded. -/
theorem pushHexDigit_of_finite
    (h : x.isFinite = true)
    (digit : ℕ) :
    x.pushHexDigit digit = ofRatio (16 * x.ratio.1 + digit * x.ratio.2) x.ratio.2 := by
  rw [pushHexDigit, if_pos h]

/-- One more digit. -/
theorem Holds.push
    (h : Holds x v)
    {digit : ℕ}
    (hdigit : digit < 16) :
    Holds (x.pushHexDigit digit) (16 * v + digit) := by
  by_cases hfinite : x.isFinite = true
  · have hratio : ((16 * x.ratio.1 + digit * x.ratio.2 : ℕ) : ℚ) / x.ratio.2 =
        16 * x.value + digit := by
      have hne : (x.ratio.2 : ℚ) ≠ 0 := by exact_mod_cast x.ratio_pos.ne'
      push_cast
      rw [add_div, mul_div_assoc, ratio_div, mul_div_cancel_right₀ _ hne]
    rw [pushHexDigit_of_finite hfinite]
    refine ⟨?_, fun hv => ?_, fun k hlow hhigh => ?_⟩
    · rw [bits_ofRatio]
      exact ratioBits_le _ _
    · refine value_ofRatio_of_lt x.ratio_pos hv ?_
      rw [hratio, h.exact (by omega)]
      push_cast
      rfl
    · rw [magnitude_ofRatio, ← h.reaches_push hdigit hlow hhigh, ← hratio]
      rcases Nat.eq_zero_or_pos (16 * x.ratio.1 + digit * x.ratio.2) with hzero | hpos
      · rw [hzero, ratioBits, if_pos rfl]
        simp only [Nat.cast_zero, zero_div]
        exact iff_of_false (by omega) (not_le.mpr (threshold_pos k))
      · exact le_ratioBits_iff hpos x.ratio_pos (by omega) hhigh
  · have hinfinite : x.magnitude = infinityBits := by
      have hle := h.bits_le
      rw [← magnitude_of_bits_le hle] at hle
      simp only [isFinite, decide_eq_true_eq] at hfinite
      omega
    have hv := h.isInfinite_iff.mp (by rw [isInfinite, hinfinite, beq_self_eq_true])
    have hmore : (v : ℚ) ≤ (16 * v + digit : ℕ) := by exact_mod_cast (by omega)
    have hlarge := two_pow_le_of_threshold_le (by omega) hv
    rw [pushHexDigit, if_neg hfinite]
    refine ⟨h.bits_le, fun hless => by omega, fun k _ hhigh => iff_of_true ?_ ?_⟩
    · rw [hinfinite, infinityBits_eq]
      omega
    · exact (threshold_mono hhigh).trans (hv.trans hmore)

theorem digitValue_lt (c : Char) :
    digitValue c < 16 := by
  have hmost : ∀ d : Char, c ≤ d → c.toNat ≤ d.toNat := fun _ h => h
  have hdigit : c.isDigit = true → c.toNat ≤ '9'.toNat := fun h => by
    simp only [Char.isDigit, Bool.and_eq_true, decide_eq_true_eq] at h
    exact h.2
  have hnine : '9'.toNat = '0'.toNat + 9 := rfl
  have hlower : 'f'.toNat = 'a'.toNat + 5 := rfl
  have hupper : 'F'.toNat = 'A'.toNat + 5 := rfl
  rw [digitValue]
  split
  · have hle := hdigit ‹_›
    omega
  split
  · rename_i h
    simp only [Bool.and_eq_true, decide_eq_true_eq] at h
    have hle := hmost 'f' h.2
    omega
  split
  · rename_i h
    simp only [Bool.and_eq_true, decide_eq_true_eq] at h
    have hle := hmost 'F' h.2
    omega
  · omega

/-- The float of all digits together holds their value. -/
theorem holds_digits (digits : List Char) :
    Holds (digits.foldl (fun x c => x.pushHexDigit (digitValue c)) zero)
      (digitsValue 16 digits) := by
  have hfold : ∀ {x : Binary64} {v : ℕ}, Holds x v →
      Holds (digits.foldl (fun x c => x.pushHexDigit (digitValue c)) x)
        (digits.foldl (fun v c => 16 * v + digitValue c) v) := by
    induction digits with
    | nil => exact id
    | cons c digits ih => exact fun h => ih (h.push (digitValue_lt c))
  exact hfold holds_zero

end Holds

/-! ## Powers of two -/

/-- Rounding a ratio never gives an undefined value. -/
theorem isNaN_ofRatio (n d : ℕ) :
    (ofRatio n d).isNaN = false := by
  have hle := ratioBits_le n d
  rw [isNaN, magnitude_ofRatio, decide_eq_false_iff_not]
  omega

/-- A ratio is rounded to infinity exactly beyond the largest threshold. -/
theorem isInfinite_ofRatio_iff
    (n : ℕ)
    {d : ℕ}
    (hd : 0 < d) :
    (ofRatio n d).isInfinite = true ↔ threshold 1024 ≤ n / d := by
  have hle := ratioBits_le n d
  rw [isInfinite, magnitude_ofRatio, beq_iff_eq]
  rcases Nat.eq_zero_or_pos n with rfl | hn
  · rw [ratioBits, if_pos rfl, Nat.cast_zero, zero_div]
    exact iff_of_false (by decide) (not_le.mpr (threshold_pos 1024))
  · rw [← le_ratioBits_iff hn hd (by omega) (by omega)]
    rw [infinityBits_eq] at hle ⊢
    omega

theorem isZero_ofRatio_of_le
    {n d : ℕ}
    (hd : 0 < d)
    (h : (2 : ℚ) ^ (-1021 : ℤ) ≤ n / d) :
    (ofRatio n d).isZero = false := by
  have hn : 0 < n := Nat.pos_of_ne_zero fun hn => by
    rw [hn, Nat.cast_zero, zero_div] at h
    exact absurd h (not_le.mpr (zpow_pos (by norm_num) _))
  have hbits := (le_ratioBits_iff hn hd (k := -1021) (by omega) (by omega)).mpr
    ((threshold_le _).trans h)
  rw [isZero, magnitude_ofRatio, beq_eq_false_iff_ne]
  omega

/-- The least float that is not zero is `2 ^ -1074`. -/
theorem two_zpow_le_value
    {x : Binary64}
    (h : x.isZero = false) :
    2 ^ (-1074 : ℤ) ≤ x.value := by
  have hsignificand : x.significand ≠ 0 := fun hzero => by
    have hvalue : x.value = 0 := by rw [value, hzero, Nat.cast_zero, zero_mul]
    rw [(value_eq_zero_iff x).mp hvalue] at h
    cases h
  have hone : (1 : ℚ) ≤ x.significand := by exact_mod_cast Nat.one_le_iff_ne_zero.mpr hsignificand
  have hexponent : -1074 ≤ x.exponent := by
    rw [exponent]
    omega
  have hpower := zpow_le_zpow_right₀ (show (1 : ℚ) ≤ 2 by norm_num) hexponent
  calc (2 : ℚ) ^ (-1074 : ℤ) ≤ 1 * 2 ^ x.exponent := by rwa [one_mul]
    _ ≤ x.value := mul_le_mul_of_nonneg_right hone (zpow_nonneg (by norm_num) _)

section Power

variable {x : Binary64} {k : ℤ}

/-- A factor that is a float of its own is multiplied on with one rounding. -/
theorem mulTwoPow_of_finite
    (hnan : x.isNaN = false)
    (hinfinite : x.isInfinite = false)
    (hlow : -1024 < k)
    (hhigh : k < 1024) :
    x.mulTwoPow k = ofRatio (scaleRatio 2 k x.ratio.1 x.ratio.2).1
      (scaleRatio 2 k x.ratio.1 x.ratio.2).2 := by
  rw [mulTwoPow, if_neg (by simp [hnan]), if_neg (by omega), if_neg (by omega),
    if_neg (by simp [hinfinite])]

theorem ratio_mulTwoPow (x : Binary64) (k : ℤ) :
    ((scaleRatio 2 k x.ratio.1 x.ratio.2).1 : ℚ) / (scaleRatio 2 k x.ratio.1 x.ratio.2).2 =
      x.value * 2 ^ k := by
  have h := scaleRatio_div Nat.two_pos k x.ratio.1 x.ratio.2
  rwa [ratio_div, Nat.cast_ofNat] at h

/-- A product has no value if a factor has none, or if one is zero and the other infinite. -/
theorem isNaN_mulTwoPow_iff :
    (x.mulTwoPow k).isNaN = true ↔
      x.isNaN = true ∨ 1024 ≤ k ∧ x.isZero = true ∨ k ≤ -1024 ∧ x.isInfinite = true := by
  have hnan : nan.isNaN = true := by decide
  have hinfinity : infinity.isNaN = false := by decide
  have hzero : zero.isNaN = false := by decide
  by_cases hx : x.isNaN = true
  · simp [mulTwoPow, hx, hnan]
  by_cases hhigh : 1024 ≤ k
  · have hlow : ¬ k ≤ -1024 := by omega
    by_cases hx0 : x.isZero = true <;> simp [mulTwoPow, hx, hhigh, hlow, hx0, hnan, hinfinity]
  by_cases hlow : k ≤ -1024
  · by_cases hinf : x.isInfinite = true <;> simp [mulTwoPow, hx, hhigh, hlow, hinf, hnan, hzero]
  · by_cases hinf : x.isInfinite = true <;>
      simp [mulTwoPow, hx, hhigh, hlow, hinf, hinfinity, isNaN_ofRatio]

/-- A great power makes an infinity of every float but zero, or leaves it above zero. -/
theorem isZero_mulTwoPow_iff
    (hnan : x.isNaN = false)
    (hk : 1023 ≤ k) :
    (x.mulTwoPow k).isZero = true ↔ x.isZero = true ∧ k < 1024 := by
  have hinfinity : infinity.isZero = false := by decide
  have hundefined : nan.isZero = false := by decide
  by_cases hhigh : 1024 ≤ k
  · have hnot : ¬ k < 1024 := by omega
    by_cases hx0 : x.isZero = true <;>
      simp [mulTwoPow, hnan, hhigh, hnot, hx0, hinfinity, hundefined]
  obtain rfl : k = 1023 := by omega
  by_cases hinf : x.isInfinite = true
  · have hx0 : x.isZero = false := by
      simp only [isInfinite, isZero, beq_iff_eq, infinityBits_eq] at hinf ⊢
      simp [hinf]
    simp [mulTwoPow, hnan, hinf, hinfinity, hx0]
  rw [mulTwoPow_of_finite hnan (by simpa using hinf) (by omega) (by omega)]
  have hpos := scaleRatio_pos Nat.two_pos x.ratio_pos 1023 x.ratio.1
  have hratio := ratio_mulTwoPow x 1023
  by_cases hx0 : x.isZero = true
  · refine iff_of_true ?_ ⟨hx0, by omega⟩
    have hnone : (scaleRatio 2 1023 x.ratio.1 x.ratio.2).1 = 0 := by
      rw [(value_eq_zero_iff x).mpr hx0, zero_mul, div_eq_zero_iff] at hratio
      exact_mod_cast hratio.resolve_right (by exact_mod_cast hpos.ne')
    rw [hnone, ofRatio, ratioBits, if_pos rfl]
    decide
  · refine iff_of_false ?_ (fun h => hx0 h.1)
    have hleast := two_zpow_le_value (Bool.eq_false_iff.mpr hx0)
    have hlarge : (2 : ℚ) ^ (-1021 : ℤ) ≤ x.value * 2 ^ (1023 : ℤ) :=
      calc (2 : ℚ) ^ (-1021 : ℤ) ≤ 2 ^ (-1074 : ℤ) * 2 ^ (1023 : ℤ) := by
            rw [← zpow_add₀ (by norm_num)]
            exact zpow_le_zpow_right₀ (by norm_num) (by norm_num)
        _ ≤ x.value * 2 ^ (1023 : ℤ) :=
            mul_le_mul_of_nonneg_right hleast (zpow_nonneg (by norm_num) _)
    rw [isZero_ofRatio_of_le hpos (by rwa [hratio])]
    decide

/-- A small power makes zero of every float but infinity, or leaves it below infinity. -/
theorem isInfinite_mulTwoPow_iff
    (hnan : x.isNaN = false)
    (hk : k ≤ -1023) :
    (x.mulTwoPow k).isInfinite = true ↔ x.isInfinite = true ∧ -1024 < k := by
  have hzero : zero.isInfinite = false := by decide
  have hinfinity : infinity.isInfinite = true := by decide
  have hundefined : nan.isInfinite = false := by decide
  have hhigh : ¬ 1024 ≤ k := by omega
  by_cases hlow : k ≤ -1024
  · have hnot : ¬ -1024 < k := by omega
    by_cases hinf : x.isInfinite = true <;>
      simp [mulTwoPow, hnan, hhigh, hlow, hnot, hinf, hzero, hundefined]
  obtain rfl : k = -1023 := by omega
  by_cases hinf : x.isInfinite = true
  · simp [mulTwoPow, hnan, hinf, hinfinity]
  rw [mulTwoPow_of_finite hnan (by simpa using hinf) (by omega) (by omega)]
  have hpos := scaleRatio_pos Nat.two_pos x.ratio_pos (-1023) x.ratio.1
  rw [isInfinite_ofRatio_iff _ hpos, ratio_mulTwoPow]
  refine iff_of_false (not_le.mpr ?_) (fun h => hinf h.1)
  have hfinite : (x.magnitude : ℤ) < (1024 + 1023) * 2 ^ 52 := by
    have hle := of_decide_eq_false hnan
    rw [isInfinite, beq_iff_eq] at hinf
    rw [infinityBits_eq] at hle hinf
    omega
  have hgreatest := value_le_of_lt (by omega) hfinite
  have hless : x.value * 2 ^ (-1023 : ℤ) ≤ 2 := by
    calc x.value * 2 ^ (-1023 : ℤ) ≤ 2 ^ (1024 : ℤ) * 2 ^ (-1023 : ℤ) := by
          refine mul_le_mul_of_nonneg_right ?_ (zpow_nonneg (by norm_num) _)
          linarith [zpow_pos (show (0 : ℚ) < 2 by norm_num) (1024 - 53)]
      _ = 2 := by rw [← zpow_add₀ (by norm_num)]; norm_num
  have hlarge : (2 : ℚ) < threshold 53 := by
    rw [threshold]
    norm_num
  exact lt_of_le_of_lt hless (lt_of_lt_of_le hlarge (threshold_mono (by omega)))

/-- The halves of a number differ by at most one and have its sign. -/
theorem halves (scale : ℤ) :
    (0 ≤ scale → 2 * scale.tdiv 2 ≤ scale ∧ scale ≤ 2 * scale.tdiv 2 + 1) ∧
      (scale ≤ 0 → 2 * scale.tdiv 2 - 1 ≤ scale ∧ scale ≤ 2 * scale.tdiv 2) := by
  constructor
  · intro h
    rw [Int.tdiv_eq_ediv_of_nonneg h]
    omega
  · intro h
    have hneg := Int.neg_tdiv scale 2
    rw [Int.tdiv_eq_ediv_of_nonneg (by omega)] at hneg
    omega

/-- Only a power that is far from one can leave a float without a value, and only zero or an
infinity. -/
theorem isNaN_mulTwoPow_halves_iff
    (hnan : x.isNaN = false)
    (scale : ℤ) :
    ((x.mulTwoPow (scale.tdiv 2)).mulTwoPow (scale - scale.tdiv 2)).isNaN = true ↔
      x.isZero = true ∧ 2047 ≤ scale ∨ x.isInfinite = true ∧ scale ≤ -2047 := by
  obtain ⟨hpositive, hnegative⟩ := halves scale
  generalize scale.tdiv 2 = half at hpositive hnegative ⊢
  have hfirst := isNaN_mulTwoPow_iff (x := x) (k := half)
  rw [hnan] at hfirst
  rw [isNaN_mulTwoPow_iff]
  by_cases hundefined : (x.mulTwoPow half).isNaN = true
  · refine iff_of_true (.inl hundefined) ?_
    rcases hfirst.mp hundefined with hx | hx | hx
    · cases hx
    · exact .inl ⟨hx.2, by omega⟩
    · exact .inr ⟨hx.2, by omega⟩
  have hnotFirst := mt hfirst.mpr hundefined
  constructor
  · rintro (h | ⟨hk, h⟩ | ⟨hk, h⟩)
    · exact absurd h hundefined
    · exact .inl ⟨((isZero_mulTwoPow_iff hnan (by omega)).mp h).1, by omega⟩
    · exact .inr ⟨((isInfinite_mulTwoPow_iff hnan (by omega)).mp h).1, by omega⟩
  · rintro (⟨hx, hk⟩ | ⟨hx, hk⟩)
    · have hhalf : half < 1024 := not_le.mp fun h => hnotFirst (.inr (.inl ⟨h, hx⟩))
      exact .inr (.inl ⟨by omega, (isZero_mulTwoPow_iff hnan (by omega)).mpr ⟨hx, hhalf⟩⟩)
    · have hhalf : -1024 < half := not_le.mp fun h => hnotFirst (.inr (.inr ⟨h, hx⟩))
      exact .inr (.inr ⟨by omega, (isInfinite_mulTwoPow_iff hnan (by omega)).mpr ⟨hx, hhalf⟩⟩)

end Power

theorem mulTwoPow_zero
    {k : ℤ}
    (hk : k < 1024) :
    zero.mulTwoPow k = zero := by
  have hnan : zero.isNaN = false := by decide
  have hinf : zero.isInfinite = false := by decide
  by_cases hlow : k ≤ -1024
  · rw [mulTwoPow, if_neg (by simp [hnan]), if_neg (by omega), if_pos hlow, if_neg (by simp [hinf])]
  · have hratio : zero.ratio.1 = 0 := by decide
    rw [mulTwoPow_of_finite hnan hinf (by omega) hk, hratio, ofRatio, ratioBits,
      if_pos (by rw [scaleRatio, Nat.zero_mul])]
    rfl

end Binary64

namespace Numeral

open Binary64

/-- One half of the power of two has no product with the digits: the digits are zero and the half is
infinite, or the digits overflow and the half is zero. -/
def Parts.IsIndeterminate (parts : Parts) : Prop :=
  digitsValue 16 parts.digits = 0 ∧ 2047 ≤ parts.scale ∨
    2 ^ 1024 ≤ digitsValue 16 parts.digits + 2 ^ 970 ∧ parts.scale ≤ -2047

/-- A hexadecimal float is undefined if and only if its parts are indeterminate. -/
theorem isNaN_hexFloat_iff (parts : Parts) :
    (hexFloat parts).isNaN = true ↔ parts.IsIndeterminate := by
  have hholds := holds_digits parts.digits
  have hnan :
      (parts.digits.foldl (fun x c => x.pushHexDigit (digitValue c)) zero).isNaN = false := by
    have hle := hholds.bits_le
    rw [← magnitude_of_bits_le hle] at hle
    exact decide_eq_false (Nat.not_lt_of_le hle)
  have hoverflow : threshold 1024 ≤ (digitsValue 16 parts.digits : ℚ) ↔
      2 ^ 1024 ≤ digitsValue 16 parts.digits + 2 ^ 970 := by
    rw [threshold, sub_le_iff_le_add, ← Nat.cast_le (α := ℚ), Nat.cast_add, Nat.cast_pow,
      Nat.cast_pow, ← zpow_natCast, ← zpow_natCast]
    rfl
  rw [Parts.IsIndeterminate, ← hoverflow, ← hholds.isZero_iff, ← hholds.isInfinite_iff]
  exact isNaN_mulTwoPow_halves_iff hnan parts.scale

theorem hexFloat_of_zeros
    {parts : Parts}
    (hdigits : ∀ c ∈ parts.digits, c = '0')
    (hscale : parts.scale < 2047) :
    hexFloat parts = zero := by
  have hmantissa : parts.digits.foldl (fun x c => x.pushHexDigit (digitValue c)) zero = zero := by
    have hzero : zero.pushHexDigit (digitValue '0') = zero := by
      have hratio : zero.ratio.1 = 0 := by decide
      have hdigit : digitValue '0' = 0 := by decide
      have hnone : 16 * zero.ratio.1 + digitValue '0' * zero.ratio.2 = 0 := by
        rw [hratio, hdigit, Nat.mul_zero, Nat.zero_mul]
      rw [pushHexDigit_of_finite (by decide), hnone, ofRatio, ratioBits, if_pos rfl]
      rfl
    rw [List.eq_replicate_iff.mpr ⟨rfl, hdigits⟩]
    induction parts.digits.length with
    | zero => rfl
    | succ n ih => rw [List.replicate_succ, List.foldl_cons, hzero, ih]
  have hhalves := halves parts.scale
  simp only [hexFloat, hmantissa]
  rw [mulTwoPow_zero (by omega), mulTwoPow_zero (by omega)]

end Numeral

/-! ## Decimal numerals -/

namespace Binary64

theorem isNaN_negate (x : Binary64) :
    x.negate.isNaN = x.isNaN := by
  rw [isNaN, magnitude_negate, isNaN]

theorem isNaN_ofDecimal
    (digits : ℕ)
    (exponent : ℤ) :
    (ofDecimal digits exponent).isNaN = false := by
  simp only [ofDecimal]
  split
  · decide
  split
  · decide
  · exact isNaN_ofRatio _ _

end Binary64

theorem Numeral.isNaN_of_decimal?
    {cs : List Char}
    {x : Binary64}
    (h : decimal? cs = some (.float x)) :
    x.isNaN = false := by
  unfold decimal? at h
  generalize cutSign cs = cut at h
  obtain ⟨flag, unsigned⟩ := cut
  obtain ⟨parts, -, hvalue⟩ := Option.bind_eq_some_iff.mp h
  simp only at hvalue
  split at hvalue
  · cases hvalue
  · obtain rfl := Number.float.inj (Option.some.inj hvalue)
    split
    · rw [Binary64.isNaN_negate, Binary64.isNaN_ofDecimal]
    · exact Binary64.isNaN_ofDecimal _ _

namespace Number

open Numeral

theorem hex?_eq_float_iff
    {cs : List Char}
    {x : Binary64} :
    hex? cs = some (.float x) ↔
      ∃ parts, parts? isHexDigit (fun c => c == 'p' || c == 'P') cs = some parts ∧
        parts.isPlain = false ∧ hexFloat parts = x := by
  unfold hex?
  rw [Option.bind_eq_bind, Option.bind_eq_some_iff]
  refine exists_congr fun parts => and_congr_right fun _ => ?_
  cases parts.isPlain <;> simp

/-- Plain digits have a scale of zero, which is far from both ends. -/
theorem not_isPlain_of_isIndeterminate
    {parts : Parts}
    (h : parts.IsIndeterminate) :
    parts.isPlain = false := by
  refine Bool.eq_false_iff.mpr fun hplain => ?_
  simp only [Parts.isPlain, Bool.and_eq_true, Option.isNone_iff_eq_none] at hplain
  have hscale : parts.scale = 0 := by
    rw [Parts.scale, Parts.places, hplain.1, hplain.2]
    decide
  rcases h with ⟨-, h⟩ | ⟨-, h⟩ <;> omega

/-- A numeral denotes a NaN if and only if it is a hexadecimal one whose digits are zero while half
of its power is infinite, or whose digits overflow while half of its power is zero; digits that are
zero denote zero with any lesser power. -/
theorem ofNumeral?_nan_iff (numeral : List Char) :
    ((∃ x, ofNumeral? numeral = some (.float x) ∧ x.isNaN = true) ↔
      ∃ letter digits parts, (letter = 'x' ∨ letter = 'X') ∧ numeral = '0' :: letter :: digits ∧
        parts? isHexDigit (fun c => c == 'p' || c == 'P') digits = some parts ∧
        parts.IsIndeterminate) ∧
    ∀ letter digits parts, (letter = 'x' ∨ letter = 'X') → numeral = '0' :: letter :: digits →
      parts? isHexDigit (fun c => c == 'p' || c == 'P') digits = some parts →
      parts.isPlain = false → (∀ c ∈ parts.digits, c = '0') → parts.scale < 2047 →
      ofNumeral? numeral = some (.float Binary64.zero) := by
  refine ⟨⟨?_, ?_⟩, ?_⟩
  · rintro ⟨x, h, hnan⟩
    rcases ofNumeral?_eq_some_iff.mp h with ⟨letter, digits, hletter, hnumeral, hhex⟩ | hdecimal
    · obtain ⟨parts, hparts, -, rfl⟩ := hex?_eq_float_iff.mp hhex
      exact ⟨letter, digits, parts, hletter, hnumeral, hparts, (isNaN_hexFloat_iff parts).mp hnan⟩
    · rw [isNaN_of_decimal? hdecimal] at hnan
      cases hnan
  · rintro ⟨letter, digits, parts, hletter, hnumeral, hparts, hindeterminate⟩
    have hhex := hex?_eq_float_iff.mpr
      ⟨parts, hparts, not_isPlain_of_isIndeterminate hindeterminate, rfl⟩
    have hnumber := ofNumeral?_eq_some_iff.mpr (.inl ⟨letter, digits, hletter, hnumeral, hhex⟩)
    exact ⟨hexFloat parts, hnumber, (isNaN_hexFloat_iff parts).mpr hindeterminate⟩
  · intro letter digits parts hletter hnumeral hparts hplain hzeros hscale
    have hhex := hex?_eq_float_iff.mpr ⟨parts, hparts, hplain, hexFloat_of_zeros hzeros hscale⟩
    exact ofNumeral?_eq_some_iff.mpr (.inl ⟨letter, digits, hletter, hnumeral, hhex⟩)

/-- Zeros on both sides of the point, with the greatest power that leaves them zero. -/
theorem ofNumeral?_nan_iff_zeros :
    ∃ letter digits parts, (letter = 'x' ∨ letter = 'X') ∧
      "0X0.00p2054".toList = '0' :: letter :: digits ∧
      parts? isHexDigit (fun c => c == 'p' || c == 'P') digits = some parts ∧
      parts.isPlain = false ∧ (∀ c ∈ parts.digits, c = '0') ∧ parts.scale < 2047 ∧
      ofNumeral? "0X0.00p2054".toList = some (.float Binary64.zero) := by
  have hletter : 'X' = 'x' ∨ 'X' = 'X' := .inr rfl
  have hparts : parts? isHexDigit (fun c => c == 'p' || c == 'P') "0.00p2054".toList =
      some ⟨['0'], some ['0', '0'], some 2054⟩ := by decide +kernel
  have hplain : Parts.isPlain ⟨['0'], some ['0', '0'], some 2054⟩ = false := by decide
  have hzeros : ∀ c ∈ Parts.digits ⟨['0'], some ['0', '0'], some 2054⟩, c = '0' := by
    simp [Parts.digits]
  have hscale : Parts.scale ⟨['0'], some ['0', '0'], some 2054⟩ < 2047 := by decide +kernel
  exact ⟨'X', _, _, hletter, by decide, hparts, hplain, hzeros, hscale,
    (ofNumeral?_nan_iff "0X0.00p2054".toList).2 'X' _ _ hletter (by decide) hparts hplain hzeros
      hscale⟩

/-- Zero times a power of two can be read as a NaN. -/
theorem zero_digits_denote_nan :
    ¬ ∀ (numeral : List Char) (x : Binary64),
      ofNumeral? numeral = some (.float x) → x.isNaN = false := by
  intro h
  have hnan : ofNumeral? "0x0p2048".toList = some (.float Binary64.nan) := by decide +kernel
  exact absurd (h _ _ hnan) (by decide)

end Number
end LuaView
