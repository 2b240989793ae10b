import LuaView.Proofs.Number.FloatText

/-!
# Floats as exact decimals

A finite float is a multiple of a power of two, so it is a decimal with finitely many places.  The
numeral with all these places is read back as the float, because a ratio that a float stands for is
rounded to that float.
-/

namespace LuaView

-- powers are those of the core library, also where there are others
attribute [local instance (high)] instPowNat

open CharClass (digitsValue)

namespace Binary64

variable {x : Binary64}

/-! ## The range of the values -/

/-- Finite floats are below the power of two that no float reaches. -/
theorem value_lt
    (hfinite : x.isFinite = true) :
    x.value < 2 ^ (1024 : ℤ) := by
  have hbound : x.magnitude < 2047 * 2 ^ 52 := of_decide_eq_true hfinite
  have hle := value_le_of_lt (x := x) (k := 1024) (by decide) (by omega)
  have hpos : (0 : ℚ) < 2 ^ (1024 - 53 : ℤ) := zpow_pos (by norm_num) _
  linarith

/-- Floats that are not zero are at least the least one. -/
theorem le_value
    (hvalue : x.value ≠ 0) :
    2 ^ (-1074 : ℤ) ≤ x.value := by
  have hsignificand : x.significand ≠ 0 := by
    intro hzero
    rw [value, hzero, Nat.cast_zero, zero_mul] at hvalue
    exact hvalue rfl
  have hone : (1 : ℚ) ≤ x.significand := by exact_mod_cast Nat.one_le_iff_ne_zero.mpr hsignificand
  have hexponent : -1074 ≤ x.exponent := by
    rw [exponent]
    omega
  calc (2 : ℚ) ^ (-1074 : ℤ) ≤ 2 ^ x.exponent := zpow_le_zpow_right₀ (by norm_num) hexponent
    _ ≤ x.value := le_mul_of_one_le_left (zpow_nonneg (by norm_num) _) hone

/-! ## Reading -/

/-- Without its sign bit a pattern is a magnitude. -/
theorem ofNat_magnitude
    (hsign : x.isNegative = false) :
    (⟨UInt64.ofNat x.magnitude⟩ : Binary64) = x := by
  have hsmall : x.bits.toNat < 2 ^ 63 := Nat.lt_of_not_le (of_decide_eq_false hsign)
  rw [magnitude, Nat.mod_eq_of_lt hsmall, UInt64.ofNat_toNat]

theorem two_zpow_le :
    (2 : ℚ) ^ (1074 : ℤ) ≤ 10 ^ (330 : ℤ) := by
  have hnat : (2 : ℕ) ^ 1074 ≤ 10 ^ 330 := by decide +kernel
  exact_mod_cast hnat

/-- A decimal that a float stands for is far from the ends of the range. -/
theorem top_mem_range
    (hfinite : x.isFinite = true)
    {digits : ℕ}
    (hdigits : 0 < digits)
    {exponent : ℤ}
    (h : (digits : ℚ) * 10 ^ exponent = x.value) :
    -330 ≤ (digitCount 10 digits : ℤ) + exponent ∧ (digitCount 10 digits : ℤ) + exponent ≤ 330 := by
  obtain ⟨hlow, hhigh⟩ := digitCount_spec (b := 10) (by decide) hdigits
  have hpower : (0 : ℚ) < 10 ^ exponent := zpow_pos (by norm_num) _
  have hpos : 0 < x.value := h ▸ mul_pos (by exact_mod_cast hdigits) hpower
  have hten : ∀ a b : ℤ, (10 : ℚ) ^ a * 10 ^ b = 10 ^ (a + b) := fun a b =>
    (zpow_add₀ (by norm_num) a b).symm
  constructor
  · have habove : (10 : ℚ) ^ (-330 : ℤ) < 10 ^ ((digitCount 10 digits : ℤ) + exponent) :=
      calc (10 : ℚ) ^ (-330 : ℤ) ≤ 2 ^ (-1074 : ℤ) := by
            rw [zpow_neg, zpow_neg]
            exact inv_anti₀ (zpow_pos (by norm_num) _) two_zpow_le
        _ ≤ x.value := le_value hpos.ne'
        _ = digits * 10 ^ exponent := h.symm
        _ < 10 ^ (digitCount 10 digits : ℤ) * 10 ^ exponent :=
            mul_lt_mul_of_pos_right (by exact_mod_cast hhigh) hpower
        _ = 10 ^ ((digitCount 10 digits : ℤ) + exponent) := hten _ _
    exact ((zpow_lt_zpow_iff_right₀ (by norm_num)).mp habove).le
  · have hbelow : (10 : ℚ) ^ ((digitCount 10 digits : ℤ) - 1 + exponent) < 10 ^ (330 : ℤ) :=
      calc (10 : ℚ) ^ ((digitCount 10 digits : ℤ) - 1 + exponent) =
            10 ^ ((digitCount 10 digits : ℤ) - 1) * 10 ^ exponent := (hten _ _).symm
        _ ≤ digits * 10 ^ exponent :=
            mul_le_mul_of_nonneg_right (by exact_mod_cast hlow) hpower.le
        _ = x.value := h
        _ < 2 ^ (1024 : ℤ) := value_lt hfinite
        _ ≤ 2 ^ (1074 : ℤ) := zpow_le_zpow_right₀ (by norm_num) (by decide)
        _ ≤ 10 ^ (330 : ℤ) := two_zpow_le
    have hlt := (zpow_lt_zpow_iff_right₀ (by norm_num)).mp hbelow
    omega

/-- The decimal that a finite float stands for is read as the float, which loses its sign. -/
theorem ofDecimal_of_value
    (hfinite : x.isFinite = true)
    {digits : ℕ}
    {exponent : ℤ}
    (h : (digits : ℚ) * 10 ^ exponent = x.value) :
    ofDecimal digits exponent = ⟨UInt64.ofNat x.magnitude⟩ := by
  rcases Nat.eq_zero_or_pos digits with rfl | hdigits
  · rw [Nat.cast_zero, zero_mul] at h
    have hzero : x.magnitude = 0 := beq_iff_eq.mp (x.value_eq_zero_iff.mp h.symm)
    rw [hzero]
    rfl
  · obtain ⟨hlow, hhigh⟩ := top_mem_range hfinite hdigits h
    have hnear : ¬ (digits = 0 ∨ (digitCount 10 digits : ℤ) + exponent < -330) := by omega
    have hratio := scaleRatio_div (b := 10) (by decide) exponent digits 1
    rw [Nat.cast_one, div_one, Nat.cast_ofNat, h] at hratio
    have hpos := scaleRatio_pos (b := 10) (by decide) Nat.one_pos exponent digits
    simp only [ofDecimal, if_neg hnear, if_neg (not_lt.mpr hhigh)]
    rw [ofRatio, ratioBits_of_value hpos hfinite hratio]

/-! ## Writing -/

/-- How many places a float has as a decimal. -/
def exactPlaces (x : Binary64) : ℕ :=
  (-x.exponent).toNat

/-- The digits of the decimal that a float is, on both sides of the point. -/
def exactDigits (x : Binary64) : ℕ :=
  x.ratio.1 * 5 ^ x.exactPlaces

/-- The decimal numeral that stands for exactly a finite float. -/
def exactText (x : Binary64) : List Char :=
  Conversion.signed x (Conversion.positionalText x.exactPlaces x.exactDigits)

/-- With the point where the places say, the exact digits are the value. -/
theorem value_eq_exactDigits (x : Binary64) :
    (x.exactDigits : ℚ) * 10 ^ (-(x.exactPlaces : ℤ)) = x.value := by
  have hdenominator : x.ratio.2 = 2 ^ x.exactPlaces := Nat.one_mul _
  rw [← ratio_div, hdenominator, exactDigits, zpow_neg, zpow_natCast, ← div_eq_mul_inv]
  push_cast
  rw [show (10 : ℚ) = 2 * 5 by norm_num, mul_pow]
  exact mul_div_mul_right _ _ (pow_ne_zero _ (by norm_num))

theorem negate_negate (x : Binary64) :
    x.negate.negate = x := by
  rw [negate, negate, UInt64.xor_assoc, UInt64.xor_self, UInt64.xor_zero]

theorem isNegative_negate
    (hsign : x.isNegative = true) :
    x.negate.isNegative = false := by
  have hlarge : 2 ^ 63 ≤ x.bits.toNat := of_decide_eq_true hsign
  have hbound := x.bits.toNat_lt
  have hfirst : x.bits.toNat / 2 ^ 63 = 1 := by omega
  have hflipped : x.negate.bits.toNat / 2 ^ 63 = 0 := by
    rw [negate, UInt64.toNat_xor, Nat.xor_div_two_pow, hfirst]
    rfl
  refine decide_eq_false ?_
  omega

/-- The sign is lost with the sign bit, and comes back with it. -/
theorem negate_ofNat_magnitude
    (hsign : x.isNegative = true) :
    (⟨UInt64.ofNat x.magnitude⟩ : Binary64).negate = x := by
  rw [← magnitude_negate, ofNat_magnitude (isNegative_negate hsign), negate_negate]

/-- The exact numeral of a finite float is read back as the float. -/
theorem ofNumeral?_exactText
    (hfinite : x.isFinite = true) :
    Number.ofNumeral? x.exactText = some (.float x) := by
  obtain ⟨whole, digits, hparts, hvalue, -, -⟩ :=
    Conversion.decimalParts?_positionalText x.exactPlaces x.exactDigits
  rw [value_eq_exactDigits] at hvalue
  have hfloat := ofDecimal_of_value hfinite hvalue
  have hfront : ∀ c ∈ (Conversion.positionalText x.exactPlaces x.exactDigits).head?,
      c.isDigit = true := by
    intro c hc
    rw [Conversion.positionalText, List.head?_append_of_ne_nil _ Nat.toDigits_ne_nil] at hc
    exact Conversion.isDigit_of_mem_toDigits (List.mem_of_mem_head? hc)
  rw [exactText]
  generalize Conversion.positionalText x.exactPlaces x.exactDigits = unsigned at hparts hfront ⊢
  cases hsign : x.isNegative with
  | true =>
      have hcut : Numeral.cutSign ('-' :: unsigned) = (some true, unsigned) := rfl
      have hdecimal := Numeral.decimal?_of_parts hcut hparts rfl
      rw [Conversion.signed, if_pos hsign, Number.ofNumeral?_eq_some_iff]
      refine .inr (hdecimal.trans ?_)
      rw [if_pos rfl, hfloat, negate_ofNat_magnitude hsign]
  | false =>
      rw [Conversion.signed, if_neg (by rw [hsign]; decide),
        Number.ofNumeral?_of_parts hparts rfl hfront, hfloat, ofNat_magnitude hsign]

example : exactText one = ['1', '.', '0'] ∧ exactText ⟨0xBFD8000000000000⟩ =
    ['-', '0', '.', '3', '7', '5'] := by
  decide +kernel

end Binary64
end LuaView
