import LuaView.Number.NumeralInWords

/-!
# Numerals in machine words

No step of reading a numeral overflows, however long the numeral is, and the number that is read in
words is the one that is read without them.  An exponent stops at the end of its word as soon as
its value has left the word, and behind that point nothing but the sign of the scale matters.
-/

namespace LuaView

open CharClass (digitValue digitsValue)

namespace Word

theorem least_64 : least 64 = -9223372036854775808 := rfl

theorem greatest_64 : greatest 64 = 9223372036854775807 := rfl

theorem least_32 : least 32 = -2147483648 := rfl

theorem greatest_32 : greatest 32 = 2147483647 := rfl

theorem toInt_ofInt_64
    {n : Int}
    (hlow : least 64 ≤ n)
    (hhigh : n ≤ greatest 64) :
    (Int64.ofInt n).toInt = n := by
  rw [least_64] at hlow
  rw [greatest_64] at hhigh
  exact Int64.toInt_ofInt_of_le (by omega) (by omega)

theorem toInt_ofInt_32
    {n : Int}
    (hlow : least 32 ≤ n)
    (hhigh : n ≤ greatest 32) :
    (Int32.ofInt n).toInt = n := by
  rw [least_32] at hlow
  rw [greatest_32] at hhigh
  exact Int32.toInt_ofInt_of_le (by omega) (by omega)

/-- A word of 64 bits holds the number, or the bound that it exceeds. -/
theorem toInt_saturate64 (n : Int) :
    (saturate64 n).toInt = saturated 64 n := by
  apply toInt_ofInt_64 <;> simp only [saturated, least_64, greatest_64] <;> omega

/-- A word of 32 bits holds the number, or the bound that it exceeds. -/
theorem toInt_saturate32 (n : Int) :
    (saturate32 n).toInt = saturated 32 n := by
  apply toInt_ofInt_32 <;> simp only [saturated, least_32, greatest_32] <;> omega

/-- A number between the bounds of 64 bits fits without an overflow. -/
theorem exists_fit64?
    {n : Int}
    (hlow : least 64 ≤ n)
    (hhigh : n ≤ greatest 64) :
    ∃ word, fit64? n = .ok word ∧ word.toInt = n :=
  ⟨Int64.ofInt n, if_pos ⟨hlow, hhigh⟩, toInt_ofInt_64 hlow hhigh⟩

/-- A number between the bounds of 32 bits fits without an overflow. -/
theorem exists_fit32?
    {n : Int}
    (hlow : least 32 ≤ n)
    (hhigh : n ≤ greatest 32) :
    ∃ word, fit32? n = .ok word ∧ word.toInt = n :=
  ⟨Int32.ofInt n, if_pos ⟨hlow, hhigh⟩, toInt_ofInt_32 hlow hhigh⟩

/-- Half of a number lies between zero and the number. -/
theorem tdiv_two_cases (n : Int) :
    0 ≤ n.tdiv 2 ∧ n.tdiv 2 ≤ n ∨ n ≤ n.tdiv 2 ∧ n.tdiv 2 ≤ 0 := by
  rcases Int.le_total 0 n with hn | hn
  · rw [Int.tdiv_eq_ediv_of_nonneg hn]
    omega
  · have hneg := Int.neg_tdiv n 2
    rw [Int.tdiv_eq_ediv_of_nonneg (by omega)] at hneg
    omega

end Word

open Word

namespace NumeralInWords

/-- A step that does not overflow. -/
theorem ok_bind
    {α β : Type}
    (value : α)
    (next : α → Except Overflow β) :
    (Except.ok value >>= next) = next value :=
  rfl

/-! ## Exponents -/

/-- A decimal digit has its value without an overflow. -/
theorem decimalDigit_of_isDigit
    {c : Char}
    (hc : c.isDigit = true) :
    ∃ digit, decimalDigit c = .ok digit ∧ digit.toNat = digitValue c := by
  have hrange : 48 ≤ c.toNat ∧ c.toNat ≤ 57 := by
    have hc' := hc
    simp only [Char.isDigit, Bool.and_eq_true, decide_eq_true_eq, ge_iff_le] at hc'
    exact ⟨UInt32.le_iff_toNat_le.mp hc'.1, UInt32.le_iff_toNat_le.mp hc'.2⟩
  have hzero : '0'.toNat = 48 := rfl
  have hvalue : digitValue c = c.toNat - 48 := by simp [digitValue, hc, hzero]
  have hdistance : ((c.toNat : Int) - ('0'.toNat : Int)).toNat = c.toNat - 48 := by
    rw [hzero]
    omega
  refine ⟨UInt8.ofNat (c.toNat - 48), ?_, ?_⟩
  · rw [decimalDigit, fitByte?, if_pos (by rw [hzero]; omega), hdistance]
  · rw [hvalue, UInt8.toNat_ofNat']
    exact Nat.mod_eq_of_lt (by omega)

/-- A digit that is pushed onto the saturated value of the digits before it leaves the saturated
value of all of them. -/
theorem pushDigit_of_isDigit
    {magnitude : Int64}
    {value : Nat}
    (hmagnitude : magnitude.toInt = saturated 64 value)
    {c : Char}
    (hc : c.isDigit = true) :
    ∃ next, pushDigit magnitude c = .ok next ∧
      next.toInt = saturated 64 ((10 * value + digitValue c : Nat) : Int) := by
  obtain ⟨digit, hdigit, hvalue⟩ := decimalDigit_of_isDigit hc
  refine ⟨_, by rw [pushDigit, hdigit]; rfl, ?_⟩
  rw [toInt_saturate64, toInt_saturate64, hmagnitude, hvalue]
  simp only [saturated, least_64, greatest_64]
  omega

/-- Digits are pushed one by one without an overflow, by induction on them. -/
theorem foldlM_pushDigit
    {digits : List Char}
    (hdigits : digits.all Char.isDigit = true)
    {magnitude : Int64}
    {value : Nat}
    (hmagnitude : magnitude.toInt = saturated 64 value) :
    ∃ result, digits.foldlM pushDigit magnitude = .ok result ∧
      result.toInt =
        saturated 64 (digits.foldl (fun value c => 10 * value + digitValue c) value : Nat) := by
  induction digits generalizing magnitude value with
  | nil => exact ⟨magnitude, rfl, hmagnitude⟩
  | cons c digits ih =>
      obtain ⟨hc, hrest⟩ : c.isDigit = true ∧ digits.all Char.isDigit = true := by
        simpa using hdigits
      obtain ⟨next, hpush, hnext⟩ := pushDigit_of_isDigit hmagnitude hc
      obtain ⟨result, hresult, htoInt⟩ := ih hrest hnext
      refine ⟨result, ?_, htoInt⟩
      rw [List.foldlM_cons, hpush]
      exact hresult

/-- The word holds an exponent: the exponent itself, or the end of the word that is nearest to it,
which the least number is not because it has no counterpart. -/
def Holds (word : Int64) (exponent : Int) : Prop :=
  word.toInt = max (-greatest 64) (saturated 64 exponent)

theorem exponent?_of_none
    {cs : List Char}
    (h : Numeral.exponent? cs = none) :
    exponent? cs = .ok none := by
  unfold Numeral.exponent? at h
  unfold exponent?
  simp only at h ⊢
  split at h
  · rw [if_pos ‹_›]
  · cases h

/-- An exponent is read into a word without an overflow. -/
theorem exponent?_of_some
    {cs : List Char}
    {exponent : Int}
    (h : Numeral.exponent? cs = some exponent) :
    ∃ word, exponent? cs = .ok (some word) ∧ Holds word exponent := by
  unfold Numeral.exponent? at h
  unfold exponent?
  generalize Numeral.cutSign cs = cut at h ⊢
  obtain ⟨sign, digits⟩ := cut
  simp only at h ⊢
  split at h
  · cases h
  rename_i hdigits
  obtain rfl := Option.some.inj h
  rw [if_neg hdigits]
  have hall : digits.all Char.isDigit = true := by
    simp only [Bool.or_eq_true, not_or, Bool.not_eq_true, Bool.not_eq_false'] at hdigits
    exact hdigits.2
  have hzero : (0 : Int64).toInt = saturated 64 ((0 : Nat) : Int) := by decide
  obtain ⟨magnitude, hfold, hmagnitude⟩ := foldlM_pushDigit hall hzero
  replace hmagnitude : magnitude.toInt = saturated 64 (digitsValue 10 digits) := hmagnitude
  generalize digitsValue 10 digits = value at hmagnitude ⊢
  simp only [saturated, least_64, greatest_64] at hmagnitude
  rw [hfold, ok_bind]
  split
  · -- the magnitude is not negative, so its counterpart is a number of the word
    obtain ⟨word, hword, htoInt⟩ := @exists_fit64? (-magnitude.toInt)
      (by rw [least_64]; omega) (by rw [greatest_64]; omega)
    refine ⟨word, by rw [hword]; rfl, ?_⟩
    rw [Holds, htoInt]
    simp only [saturated, least_64, greatest_64]
    omega
  · refine ⟨magnitude, rfl, ?_⟩
    rw [Holds, hmagnitude]
    simp only [saturated, least_64, greatest_64]
    omega

/-! ## Hexadecimal numerals -/

/-- Four bits a place, counted in words. -/
theorem saturated_bits (places : Nat) :
    saturated 64 (saturated 64 places * 4) = saturated 64 (4 * (places : Int)) := by
  simp only [saturated, least_64, greatest_64]
  omega

/-- An exponent that the word cannot hold is so low that the number in its place leaves the smaller
word as well. -/
theorem saturated_lowered
    {exponent bits : Int}
    (hbits : 0 ≤ bits) :
    saturated 32 (saturated 64 (max (-greatest 64) exponent - bits)) =
      saturated 32 (saturated 64 (exponent - bits)) := by
  rcases Int.le_total (-greatest 64) exponent with hheld | hlow
  · rw [Int.max_eq_right hheld]
  · have hleast : ∀ n : Int, n ≤ -greatest 64 → saturated 32 (saturated 64 n) = least 32 := by
      intro n hn
      simp only [saturated, least_64, greatest_64, least_32, greatest_32] at hn ⊢
      omega
    rw [Int.max_eq_left hlow, hleast _ (by omega), hleast _ (by omega)]

/-- The scale that is computed from a word is that of the exponent it holds. -/
theorem scale_of_holds
    {parts : Numeral.Parts}
    {word : Int64}
    (h : Holds word (parts.exponent.getD 0)) :
    (saturate32 (saturate64 (word.toInt -
      (saturate64 ((saturate64 parts.places).toInt * 4)).toInt)).toInt).toInt = parts.scale := by
  have hbits : 0 ≤ saturated 64 (4 * (parts.places : Int)) := by
    simp only [saturated, least_64, greatest_64]
    omega
  rw [toInt_saturate32, toInt_saturate64, toInt_saturate64, toInt_saturate64, h, saturated_bits,
    saturated_lowered hbits, Numeral.Parts.scale]

/-- In words a hexadecimal float is computed as in numbers. -/
theorem float_eq_hexFloat
    {parts : Numeral.Parts}
    {word : Int64}
    (h : Holds word (parts.exponent.getD 0)) :
    float parts.digits parts.places word = .ok (Numeral.hexFloat parts) := by
  have hscale : least 32 ≤ parts.scale ∧ parts.scale ≤ greatest 32 := by
    simp only [Numeral.Parts.scale, saturated, least_64, greatest_64, least_32, greatest_32]
    omega
  have hhalves := tdiv_two_cases parts.scale
  rw [least_32, greatest_32] at hscale
  obtain ⟨half, hhalf, hhalfInt⟩ := @exists_fit32? (parts.scale.tdiv 2)
    (by rw [least_32]; omega) (by rw [greatest_32]; omega)
  obtain ⟨other, hother, hotherInt⟩ := @exists_fit32? (parts.scale - parts.scale.tdiv 2)
    (by rw [least_32]; omega) (by rw [greatest_32]; omega)
  simp only [float, scale_of_holds h, hhalf, ok_bind, hhalfInt, hother, hotherInt]
  rfl

/-- A word that wraps around holds the value of the digits modulo the number of its values. -/
theorem wrapped_eq_digitsValue (digits : List Char) :
    (wrapped digits).toInt64 = Int64.ofNat (digitsValue 16 digits) := by
  have hfold : ∀ value : Nat,
      digits.foldl (fun value c => value * 16 + UInt64.ofNat (digitValue c)) (UInt64.ofNat value) =
        UInt64.ofNat (digits.foldl (fun value c => 16 * value + digitValue c) value) := by
    induction digits with
    | nil => exact fun value => rfl
    | cons c digits ih =>
        intro value
        have hstep : UInt64.ofNat value * 16 + UInt64.ofNat (digitValue c) =
            UInt64.ofNat (16 * value + digitValue c) := by
          rw [UInt64.ofNat_add, UInt64.ofNat_mul, UInt64.mul_comm]
          rfl
        rw [List.foldl_cons, List.foldl_cons, hstep]
        exact ih _
  have hwrapped : wrapped digits = UInt64.ofNat (digitsValue 16 digits) := hfold 0
  rw [hwrapped, UInt64.toInt64_ofNat']

/-- What is left to do behind the exponent of a hexadecimal float. -/
theorem float_bind
    {parts : Numeral.Parts}
    {word : Int64}
    (h : Holds word (parts.exponent.getD 0)) :
    (float parts.digits parts.places word >>= fun value => pure (some (Number.float value))) =
      .ok (some (.float (Numeral.hexFloat parts))) := by
  rw [float_eq_hexFloat h]
  rfl

/-- In words a hexadecimal numeral has the same value. -/
theorem hex?_eq (cs : List Char) :
    hex? cs = .ok (Numeral.hex? cs) := by
  unfold hex? Numeral.hex? Numeral.parts?
  generalize Numeral.cutAt (fun c => c == 'p' || c == 'P') cs = cut
  obtain ⟨mantissa, power⟩ := cut
  simp only
  generalize Numeral.cutAt (· == '.') mantissa = cut
  obtain ⟨whole, fraction⟩ := cut
  simp only [Numeral.Parts.digits]
  split
  · rfl
  cases power with
  | none =>
      cases fraction with
      | none =>
          simp only [wrapped_eq_digitsValue]
          rfl
      | some fraction =>
          have hzero : Holds 0 0 := by
            unfold Holds
            decide
          exact @float_bind ⟨whole, some fraction, none⟩ 0 hzero
  | some power =>
      simp only [Option.isNone_some, Bool.and_false, Bool.false_eq_true, if_false,
        Option.isSome_some, Bool.true_and, Option.bind_some]
      cases hexponent : Numeral.exponent? power with
      | none =>
          rw [exponent?_of_none hexponent, ok_bind]
          rfl
      | some exponent =>
          obtain ⟨word, hword, hholds⟩ := exponent?_of_some hexponent
          have hfloat := @float_bind ⟨whole, fraction, some exponent⟩ word hholds
          have hplain : Numeral.Parts.isPlain ⟨whole, fraction, some exponent⟩ = false :=
            Bool.and_false _
          rw [hword, ok_bind]
          refine hfloat.trans ?_
          simp only [Option.isNone_some, Bool.false_eq_true, if_false, Option.bind_eq_bind,
            Option.bind_some, hplain]
          rfl

/-- A numeral of any length is read in words without an overflow, and as the same number. -/
theorem ofNumeral?_eq (numeral : List Char) :
    ofNumeral? numeral = .ok (Number.ofNumeral? numeral) := by
  unfold ofNumeral?
  split
  · exact hex?_eq _
  · exact hex?_eq _
  · rename_i hx hX
    unfold Number.ofNumeral?
    split
    · exact absurd rfl (hx _)
    · exact absurd rfl (hX _)
    · rfl

end NumeralInWords
end LuaView
