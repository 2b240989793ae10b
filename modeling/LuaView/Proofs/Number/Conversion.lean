import LuaView.Number.Conversion
import LuaView.Proofs.Number.FloatRounding
import LuaView.Proofs.Number.NumeralGrammar
import LuaView.Proofs.Number.SignificantDigits
import Mathlib.Data.List.DropRight

/-!
# The two conversions of a float

A float that is converted twice, for its exponent and for its digits, has the text of
`Binary64.text`, which rounds it once: the second conversion rounds to the digits of the first one,
also where the first one carries into the next power of ten.  Cutting the zeros off a text and
laying out digits without them is the same.
-/

namespace LuaView

-- powers are those of the core library, also where there are others
attribute [local instance (high)] instPowNat

/-- The decimal that a finite float is written as. -/
def Binary64.rounded (x : Binary64) : Significant :=
  if x.isZero then ⟨0, 0⟩ else Significant.ofRatio writtenDigits x.ratio.1 x.ratio.2

namespace Conversion

open Binary64 (writtenDigits needsExponent)

/-! ## Digits behind the point -/

/-- The last digits of a number, zeros included. -/
def lastDigits : ℕ → ℕ → List Char
  | 0, _ => []
  | places + 1, n => lastDigits places (n / 10) ++ [(n % 10).digitChar]

/-- As many digits are taken as are asked for. -/
theorem length_lastDigits (places n : ℕ) :
    (lastDigits places n).length = places := by
  induction places generalizing n with
  | zero => rfl
  | succ places ih => rw [lastDigits, List.length_append, ih, List.length_singleton]

theorem isDigit_digitChar :
    ∀ digit < 10, (Nat.digitChar digit).isDigit = true := by
  decide

/-- All of them are decimal digits. -/
theorem isDigit_of_mem_lastDigits
    {places n : ℕ}
    {c : Char}
    (hc : c ∈ lastDigits places n) :
    c.isDigit = true := by
  induction places generalizing n with
  | zero => cases hc
  | succ places ih =>
      rcases List.mem_append.mp hc with hc | hc
      · exact ih hc
      · obtain rfl := List.mem_singleton.mp hc
        exact isDigit_digitChar _ (Nat.mod_lt n (by decide))

theorem lastDigits_zero (places : ℕ) :
    lastDigits places 0 = List.replicate places '0' := by
  induction places with
  | zero => rfl
  | succ places ih =>
      rw [lastDigits, Nat.zero_div, ih, List.replicate_succ']
      rfl

/-- The last digits of a number depend on its remainder only. -/
theorem lastDigits_mod (places n : ℕ) :
    lastDigits places (n % 10 ^ places) = lastDigits places n := by
  induction places generalizing n with
  | zero => rfl
  | succ places ih =>
      rw [lastDigits, lastDigits, Nat.pow_succ', Nat.mod_mul_right_div_self, ih,
        Nat.mod_mul_right_mod]

/-- A number is written with the digits of its front and its last digits. -/
theorem toDigits_append_lastDigits
    {places n : ℕ}
    (h : 0 < n / 10 ^ places) :
    Nat.toDigits 10 (n / 10 ^ places) ++ lastDigits places n = Nat.toDigits 10 n := by
  induction places generalizing n with
  | zero => rw [Nat.pow_zero, Nat.div_one, lastDigits, List.append_nil]
  | succ places ih =>
      rw [Nat.pow_succ', ← Nat.div_div_eq_div_mul] at h ⊢
      have hten : 10 ≤ n := by
        by_contra hsmall
        have hzero : n / 10 = 0 := Nat.div_eq_of_lt (by omega)
        rw [hzero, Nat.zero_div] at h
        exact Nat.lt_irrefl _ h
      rw [lastDigits, ← List.append_assoc, ih h, ← Nat.toDigits_of_base_le (by decide) hten]

/-- A number below the power has zeros in front of its digits. -/
theorem padded_eq_lastDigits
    {places n : ℕ}
    (hplaces : 0 < places)
    (h : n < 10 ^ places) :
    padded places n = lastDigits places n := by
  induction places generalizing n with
  | zero => cases hplaces
  | succ places ih =>
      rcases Nat.lt_or_ge n 10 with hsmall | hlarge
      · rw [padded, Nat.toDigits_of_lt_base hsmall, lastDigits, Nat.div_eq_of_lt hsmall,
          lastDigits_zero, Nat.mod_eq_of_lt hsmall]
        rfl
      · have hfront : n / 10 < 10 ^ places := by
          rw [Nat.pow_succ] at h
          omega
        have hpositive : 0 < places := by
          refine Nat.pos_of_ne_zero fun hzero => ?_
          rw [hzero, Nat.pow_zero] at hfront
          omega
        rw [lastDigits, ← ih hpositive hfront, padded, padded,
          Nat.toDigits_of_base_le (by decide) hlarge, List.length_append, List.length_singleton,
          Nat.add_sub_add_right, List.append_assoc]

/-- A number with a point is its quotient, the point and the digits of its remainder. -/
theorem pointed_eq (places n : ℕ) :
    pointed places n = Nat.toDigits 10 (n / 10 ^ places) ++
      if places = 0 then [] else '.' :: lastDigits places n := by
  rw [pointed]
  split
  · rfl
  · rename_i hplaces
    rw [padded_eq_lastDigits (by omega) (Nat.mod_lt n (Nat.pow_pos (by decide))), lastDigits_mod]

/-! ## Zeros at the end -/

section Trim

variable {p : Char → Bool} {front behind : List Char}

theorem rdropWhile_append_of_forall
    (h : ∀ c ∈ behind, p c = true) :
    (front ++ behind).rdropWhile p = front.rdropWhile p := by
  rw [List.rdropWhile, List.reverse_append,
    List.dropWhile_append_of_pos fun c hc => h c (List.mem_reverse.mp hc)]
  rfl

theorem rdropWhile_append_of_ne_nil
    (h : behind.rdropWhile p ≠ []) :
    (front ++ behind).rdropWhile p = front ++ behind.rdropWhile p := by
  have hne : (behind.reverse.dropWhile p).isEmpty = false := by
    simpa [List.rdropWhile] using h
  rw [List.rdropWhile, List.reverse_append, List.dropWhile_append, hne]
  simp [List.rdropWhile]

theorem rdropWhile_of_forall_not
    (h : ∀ c ∈ front, p c = false) :
    front.rdropWhile p = front :=
  List.rdropWhile_eq_self_iff.mpr fun hne => by simp [h _ (List.getLast_mem hne)]

theorem rdropWhile_append_replicate
    (front : List Char)
    (c : Char) :
    front.rdropWhile (· == c) ++
      List.replicate (front.length - (front.rdropWhile (· == c)).length) c = front := by
  have hsplit := List.rdropWhile_append_rtakeWhile (p := (· == c)) (l := front)
  have hzeros : front.rtakeWhile (· == c) =
      List.replicate (front.length - (front.rdropWhile (· == c)).length) c := by
    refine List.eq_replicate_iff.mpr ⟨?_, fun d hd => by simpa using List.mem_rtakeWhile_imp hd⟩
    have hlength := congrArg List.length hsplit
    rw [List.length_append] at hlength
    omega
  rw [← hzeros, hsplit]

end Trim

/-- The digits behind the point without the zeros at their end. -/
def fraction (places n : ℕ) : List Char :=
  (lastDigits places n).rdropWhile (· == '0')

theorem isDigit_of_mem_fraction
    {places n : ℕ}
    {c : Char}
    (hc : c ∈ fraction places n) :
    c.isDigit = true :=
  isDigit_of_mem_lastDigits ((List.rdropWhile_prefix _ _).mem hc)

/-- The zeros that are dropped from a fraction complete its digits. -/
theorem fraction_append_zeros (places n : ℕ) :
    fraction places n ++ List.replicate (places - (fraction places n).length) '0' =
      lastDigits places n := by
  have hsplit := rdropWhile_append_replicate (lastDigits places n) '0'
  rwa [length_lastDigits] at hsplit

/-- The digits in front of the point and behind it stand for the number of places. -/
theorem ofDigitChars_pointed (places n : ℕ) :
    Nat.ofDigitChars 10 (Nat.toDigits 10 (n / 10 ^ places) ++ lastDigits places n) 0 = n := by
  induction places generalizing n with
  | zero =>
      rw [Nat.pow_zero, Nat.div_one, lastDigits, List.append_nil, Nat.ofDigitChars_ten_toDigits]
  | succ places ih =>
      rw [lastDigits, ← List.append_assoc, Nat.ofDigitChars_append, Nat.pow_succ',
        ← Nat.div_div_eq_div_mul, ih,
        Nat.ofDigitChars_cons_digitChar_of_lt_ten (Nat.mod_lt n (by decide)), Nat.ofDigitChars_nil]
      exact Nat.div_add_mod n 10

/-- A point in front of a fraction, if there is one. -/
def behindPoint (digits : List Char) : List Char :=
  if digits = [] then [] else '.' :: digits

/-- Trimming drops the zeros of a fraction, and the point if nothing is left of it. -/
theorem trimFraction_eq
    {whole : List Char}
    (hwhole : '.' ∉ whole)
    (places n : ℕ) :
    trimFraction (whole ++ if places = 0 then [] else '.' :: lastDigits places n) =
      whole ++ behindPoint (fraction places n) := by
  have hpoints : ∀ c ∈ whole, (c == '.') = false := by
    intro c hc
    refine beq_false_of_ne ?_
    rintro rfl
    exact hwhole hc
  split
  · rename_i hplaces
    have hnone : whole.contains '.' = false := by simpa using hwhole
    rw [hplaces, List.append_nil, trimFraction, if_neg (by rw [hnone]; decide)]
    exact (List.append_nil whole).symm
  · have hsome : (whole ++ '.' :: lastDigits places n).contains '.' = true := by simp
    have htrim : trimFraction (whole ++ '.' :: lastDigits places n) =
        ((whole ++ '.' :: lastDigits places n).rdropWhile (· == '0')).rdropWhile (· == '.') := by
      rw [trimFraction, if_pos hsome, List.rdropWhile, List.rdropWhile, List.reverse_reverse]
    rw [htrim, behindPoint]
    split
    · rename_i hzeros
      have hall := List.rdropWhile_eq_nil_iff.mp hzeros
      rw [List.append_cons, rdropWhile_append_of_forall hall,
        List.rdropWhile_concat_neg _ _ _ (by decide), List.rdropWhile_concat_pos _ _ _ (by decide),
        rdropWhile_of_forall_not hpoints, List.append_nil]
    · rename_i hfraction
      have hlast : (fraction places n).rdropWhile (· == '.') = fraction places n := by
        refine rdropWhile_of_forall_not fun c hc => beq_false_of_ne ?_
        rintro rfl
        exact absurd (isDigit_of_mem_fraction hc) (by decide)
      rw [List.append_cons, rdropWhile_append_of_ne_nil hfraction,
        rdropWhile_append_of_ne_nil (hlast.symm ▸ hfraction)]
      exact (congrArg _ hlast).trans (List.append_cons _ _ _).symm

/-! ## Texts that read as floats -/

/-- A text with anything but digits and a sign is not taken for an integer. -/
theorem keepFloat_of_mem
    {cs : List Char}
    {c : Char}
    (hc : c ∈ cs)
    (hother : (c.isDigit || c == '-') = false) :
    keepFloat cs = cs := by
  refine if_neg fun hall => ?_
  rw [List.all_eq_true.mp hall c hc] at hother
  cases hother

/-- A whole number gets a point and a zero. -/
theorem keepFloat_behindPoint
    {whole : List Char}
    (hwhole : ∀ c ∈ whole, (c.isDigit || c == '-') = true)
    (digits : List Char) :
    keepFloat (whole ++ behindPoint digits) =
      whole ++ '.' :: if digits = [] then ['0'] else digits := by
  rw [behindPoint]
  split
  · rw [List.append_nil]
    exact if_pos (List.all_eq_true.mpr hwhole)
  · exact keepFloat_of_mem (List.mem_append_right whole List.mem_cons_self) (by decide)

/-- The layout with the point in its place, for a number of places and the digits without their
point. -/
def positionalText (places n : ℕ) : List Char :=
  Nat.toDigits 10 (n / 10 ^ places) ++
    '.' :: if fraction places n = [] then ['0'] else fraction places n

/-- The layout with an exponent. -/
def exponentText (places n : ℕ) (exponent : ℤ) : List Char :=
  Nat.toDigits 10 (n / 10 ^ places) ++ behindPoint (fraction places n) ++
    ['e', if exponent < 0 then '-' else '+'] ++ padded 2 exponent.natAbs

theorem signed_append
    (x : Binary64)
    (front behind : List Char) :
    signed x (front ++ behind) = signed x front ++ behind := by
  unfold signed
  split <;> rfl

theorem mem_signed_toDigits
    {x : Binary64}
    {n : ℕ}
    {c : Char}
    (hc : c ∈ signed x (Nat.toDigits 10 n)) :
    (c.isDigit || c == '-') = true := by
  have hdigits : ∀ c ∈ Nat.toDigits 10 n, c.isDigit = true :=
    fun _ hc => Nat.isDigit_of_mem_toDigits (by decide) (by decide) hc
  unfold signed at hc
  split at hc
  · rcases List.mem_cons.mp hc with rfl | hc
    · decide
    · rw [hdigits c hc, Bool.true_or]
  · rw [hdigits c hc, Bool.true_or]

/-- Trimming a number with a point keeps its whole part. -/
theorem trimFraction_pointed
    (x : Binary64)
    (places n : ℕ) :
    trimFraction (signed x (pointed places n)) =
      signed x (Nat.toDigits 10 (n / 10 ^ places)) ++ behindPoint (fraction places n) := by
  rw [pointed_eq, signed_append, trimFraction_eq]
  intro hpoint
  exact absurd (mem_signed_toDigits hpoint) (by decide)

end Conversion

/-! ## The exponent that is read back -/

namespace Numeral

/-- A sign and digits are read as an exponent. -/
theorem exponent?_of_cutSign
    {cs digits : List Char}
    {flag : Option Bool}
    (hcut : cutSign cs = (flag, digits))
    (hdigits : AreDigits Char.isDigit digits) :
    exponent? cs =
      some (if flag = some true then -(CharClass.digitsValue 10 digits : ℤ)
        else CharClass.digitsValue 10 digits) := by
  have hvalid : (digits.isEmpty || !digits.all Char.isDigit) = false := by
    simpa [hdigits.ne_nil] using hdigits.all
  simp only [exponent?, hcut, hvalid, Bool.false_eq_true, if_false]

/-- An exponent that is written is read back. -/
theorem exponent?_repr (exponent : ℤ) :
    exponent? exponent.repr.toList = some exponent := by
  have hdigits : AreDigits Char.isDigit (Nat.toDigits 10 exponent.natAbs) :=
    ⟨Nat.toDigits_ne_nil, fun _ hc => Nat.isDigit_of_mem_toDigits (by decide) (by decide) hc⟩
  have hcut : cutSign exponent.repr.toList =
      (if exponent < 0 then some true else none, Nat.toDigits 10 exponent.natAbs) := by
    rw [Number.toList_repr]
    split
    · rfl
    · exact cutSign_of_digits hdigits.all
  rw [exponent?_of_cutSign hcut hdigits, digitsValue_toDigits_ten, Option.some_inj]
  rcases lt_or_ge exponent 0 with hnegative | hpositive
  · rw [if_pos hnegative, if_pos rfl]
    omega
  · rw [if_neg (not_lt.mpr hpositive), if_neg nofun]
    omega

end Numeral

/-! ## The layouts of a decimal -/

namespace Significant

open Conversion (positionalText exponentText behindPoint fraction lastDigits)

section Layout

variable {k : ℕ} {decimal : Significant}

/-- The number of digits lies between two powers of ten. -/
theorem length_toDigits
    {n : ℕ}
    (hlow : 10 ^ (k - 1) ≤ n)
    (hhigh : n < 10 ^ k) :
    (Nat.toDigits 10 n).length = k := by
  have hpositive : 0 < n := Nat.lt_of_lt_of_le (Nat.pow_pos (by decide)) hlow
  have hk : 0 < k := by
    refine Nat.pos_of_ne_zero fun hzero => ?_
    rw [hzero, Nat.pow_zero] at hhigh
    omega
  have hle := (Nat.length_toDigits_le_iff (by decide) hk).mpr hhigh
  have hge : ¬ (Nat.toDigits 10 n).length ≤ k - 1 := by
    intro hshort
    have hsome := @Nat.length_toDigits_pos 10 n
    have hlt := (Nat.length_toDigits_le_iff (by decide) (by omega)).mp hshort
    omega
  omega

/-- A number has a digit that is not zero. -/
theorem trimmed_ne_nil
    (h : 0 < decimal.digits) :
    decimal.trimmed ≠ [] := by
  intro hnil
  have hzeros : Nat.toDigits 10 decimal.digits =
      List.replicate (Nat.toDigits 10 decimal.digits).length '0' :=
    List.eq_replicate_of_mem fun c hc => by simpa using List.rdropWhile_eq_nil_iff.mp hnil c hc
  have hvalue := Nat.ofDigitChars_ten_toDigits (n := decimal.digits)
  rw [hzeros, Nat.ofDigitChars_replicate_zero, Nat.mul_zero] at hvalue
  omega

/-- The digits without zeros are those in front of the point and the fraction, or only digits in
front of it. -/
theorem trimmed_cut
    {places : ℕ}
    (h : 0 < decimal.digits / 10 ^ places) :
    if fraction places decimal.digits = [] then
      decimal.trimmed = (Nat.toDigits 10 (decimal.digits / 10 ^ places)).rdropWhile (· == '0')
    else
      decimal.trimmed =
        Nat.toDigits 10 (decimal.digits / 10 ^ places) ++ fraction places decimal.digits := by
  have hdigits := Conversion.toDigits_append_lastDigits h
  have htrimmed : decimal.trimmed = (Nat.toDigits 10 decimal.digits).rdropWhile (· == '0') := rfl
  rw [htrimmed, ← hdigits]
  split
  · rename_i hzeros
    exact Conversion.rdropWhile_append_of_forall (List.rdropWhile_eq_nil_iff.mp hzeros)
  · rename_i hfraction
    exact Conversion.rdropWhile_append_of_ne_nil hfraction

/-- With a point behind so many digits, and with zeros up to the point. -/
theorem whole_and_fraction
    {places : ℕ}
    (h : 0 < decimal.digits / 10 ^ places) :
    decimal.trimmed.take (Nat.toDigits 10 (decimal.digits / 10 ^ places)).length ++
        List.replicate ((Nat.toDigits 10 (decimal.digits / 10 ^ places)).length -
          decimal.trimmed.length) '0' =
      Nat.toDigits 10 (decimal.digits / 10 ^ places) ∧
    decimal.trimmed.drop (Nat.toDigits 10 (decimal.digits / 10 ^ places)).length =
      fraction places decimal.digits := by
  have hcut := trimmed_cut h
  generalize Nat.toDigits 10 (decimal.digits / 10 ^ places) = whole at *
  split at hcut
  · rename_i hzeros
    have hle : decimal.trimmed.length ≤ whole.length := by
      rw [hcut]
      exact (List.rdropWhile_prefix _ _).length_le
    rw [List.take_of_length_le hle, List.drop_of_length_le hle, hzeros, hcut]
    exact ⟨Conversion.rdropWhile_append_replicate whole '0', rfl⟩
  · rename_i hfraction
    rw [hcut, List.take_left, List.drop_left, List.length_append, Nat.sub_eq_zero_of_le (by omega)]
    exact ⟨List.append_nil whole, rfl⟩

/-- Written in full, a decimal has its digits with the point where the exponent says. -/
theorem positional_eq
    (hlow : 10 ^ (k - 1) ≤ decimal.digits)
    (hhigh : decimal.digits < 10 ^ k)
    {places : ℕ}
    (hplaces : (k : ℤ) - 1 - decimal.exponent = places) :
    decimal.positional = positionalText places decimal.digits := by
  have hlength := length_toDigits hlow hhigh
  have hsome : 0 < decimal.digits := Nat.lt_of_lt_of_le (Nat.pow_pos (by decide)) hlow
  have hk : 0 < k := by
    refine Nat.pos_of_ne_zero fun hzero => ?_
    rw [hzero, Nat.pow_zero] at hhigh
    omega
  rw [positional, positionalText]
  split
  · rename_i hexponent
    have hbelow : decimal.digits < 10 ^ places :=
      Nat.lt_of_lt_of_le hhigh (Nat.pow_le_pow_right (by decide) (by omega))
    have hlast : lastDigits places decimal.digits =
        List.replicate (-decimal.exponent - 1).toNat '0' ++ Nat.toDigits 10 decimal.digits := by
      rw [← Conversion.padded_eq_lastDigits (by omega) hbelow, Conversion.padded, hlength]
      congr 2
      omega
    have hfraction : fraction places decimal.digits =
        List.replicate (-decimal.exponent - 1).toNat '0' ++ decimal.trimmed := by
      rw [fraction, hlast]
      exact Conversion.rdropWhile_append_of_ne_nil (trimmed_ne_nil hsome)
    rw [Nat.div_eq_of_lt hbelow, hfraction,
      if_neg (List.append_ne_nil_of_right_ne_nil _ (trimmed_ne_nil hsome))]
    rfl
  · rename_i hexponent
    have hfront : 0 < decimal.digits / 10 ^ places := by
      refine Nat.div_pos (Nat.le_trans (Nat.pow_le_pow_right (by decide) ?_) hlow)
        (Nat.pow_pos (by decide))
      omega
    have hdigits := congrArg List.length (Conversion.toDigits_append_lastDigits hfront)
    rw [List.length_append, Conversion.length_lastDigits, hlength] at hdigits
    have hsize : decimal.exponent.toNat + 1 =
        (Nat.toDigits 10 (decimal.digits / 10 ^ places)).length := by
      omega
    obtain ⟨hwhole, hfraction⟩ := whole_and_fraction hfront
    simp only [hsize, hwhole, hfraction, List.isEmpty_iff]

/-- Written with an exponent, a decimal has its point behind the first digit. -/
theorem scientific_eq
    (hlow : 10 ^ (k - 1) ≤ decimal.digits)
    (hhigh : decimal.digits < 10 ^ k) :
    decimal.scientific = exponentText (k - 1) decimal.digits decimal.exponent := by
  have hlength := length_toDigits hlow hhigh
  have hfront : 0 < decimal.digits / 10 ^ (k - 1) := Nat.div_pos hlow (Nat.pow_pos (by decide))
  have hdigits := congrArg List.length (Conversion.toDigits_append_lastDigits hfront)
  rw [List.length_append, Conversion.length_lastDigits, hlength] at hdigits
  have hpositive := @Nat.length_toDigits_pos 10 (decimal.digits / 10 ^ (k - 1))
  have hsize : 1 = (Nat.toDigits 10 (decimal.digits / 10 ^ (k - 1))).length := by omega
  have htrimmed :=
    List.length_pos_iff.mpr (trimmed_ne_nil (Nat.lt_of_lt_of_le (by positivity) hlow))
  obtain ⟨hwhole, hfraction⟩ := whole_and_fraction hfront
  rw [← hsize] at hwhole hfraction
  rw [Nat.sub_eq_zero_of_le htrimmed, List.replicate_zero, List.append_nil] at hwhole
  simp only [scientific, exponentText, Conversion.padded, behindPoint, hwhole, hfraction,
    List.isEmpty_iff, List.append_assoc]

end Layout
end Significant

/-! ## The text of a float -/

namespace Binary64

/-- The ratio of a float is zero if and only if the float is. -/
theorem ratio_eq_zero_iff (x : Binary64) :
    x.ratio.1 = 0 ↔ x.isZero = true := by
  rw [← value_eq_zero_iff, ← ratio_div, div_eq_zero_iff, Nat.cast_eq_zero, Nat.cast_eq_zero,
    or_iff_left x.ratio_pos.ne']

/-- The decimal has fourteen digits, unless it is zero. -/
theorem isRounding_rounded (x : Binary64) :
    Significant.IsRounding 14 x.value x.rounded := by
  rw [rounded]
  split
  · rename_i hzero
    rw [x.value_eq_zero_iff.mpr hzero]
    exact Significant.isRounding_zero 14
  · rename_i hzero
    have hpositive : 0 < x.ratio.1 :=
      Nat.pos_of_ne_zero fun h => hzero (x.ratio_eq_zero_iff.mp h)
    rw [← ratio_div]
    exact Significant.isRounding_ofRatio (by decide) hpositive x.ratio_pos

/-- How many places the rounded decimal has behind its point, if it has no exponent. -/
def places (x : Binary64) : ℕ :=
  (13 - x.rounded.exponent).toNat

theorem not_isNaN_of_isFinite
    {x : Binary64}
    (h : x.isFinite = true) :
    x.isNaN = false ∧ x.isInfinite = false := by
  simp only [isFinite, isNaN, isInfinite, decide_eq_true_eq, decide_eq_false_iff_not,
    beq_eq_false_iff_ne] at h ⊢
  omega

/-- The exponent of the decimal decides between its layouts. -/
theorem magnitudeText_eq
    {x : Binary64}
    (hfinite : x.isFinite = true) :
    x.magnitudeText =
      if !x.isZero && needsExponent x.rounded.exponent then
        Conversion.exponentText 13 x.rounded.digits x.rounded.exponent
      else Conversion.positionalText x.places x.rounded.digits := by
  have hdigits := x.isRounding_rounded.digits
  rw [magnitudeText, (not_isNaN_of_isFinite hfinite).2, if_neg Bool.false_ne_true]
  cases hzero : x.isZero with
  | true =>
      have hrounded : x.rounded = ⟨0, 0⟩ := by rw [rounded, if_pos hzero]
      rw [if_pos rfl, places, hrounded]
      decide
  | false =>
      have hrounded : x.rounded = Significant.ofRatio writtenDigits x.ratio.1 x.ratio.2 := by
        rw [rounded, if_neg (by rw [hzero]; decide)]
      have hvalue : x.value ≠ 0 := by
        rw [Ne, value_eq_zero_iff, hzero]
        decide
      obtain ⟨hlow, hhigh⟩ := hdigits.resolve_left fun h => hvalue h.1
      simp only [Bool.false_eq_true, if_false, Bool.not_false, Bool.true_and, ← hrounded]
      split
      · exact Significant.scientific_eq hlow hhigh
      · rename_i hexponent
        refine Significant.positional_eq hlow hhigh ?_
        simp only [needsExponent, Bool.or_eq_true, decide_eq_true_eq, not_or] at hexponent
        rw [places]
        omega

end Binary64

namespace Conversion

open Binary64 (writtenDigits needsExponent)

variable {x : Binary64}

/-- Scientific notation shows the rounded digits and their exponent. -/
theorem scientific_eq_rounded (x : Binary64) :
    scientific (writtenDigits - 1) x =
      signed x (pointed 13 x.rounded.digits) ++ 'e' :: x.rounded.exponent.repr.toList := by
  simp only [scientific, Binary64.rounded]
  rfl

/-- The second conversion has the digits of the first one. -/
theorem fixed_eq_rounded
    (hexponent : x.rounded.exponent < 14) :
    fixed x.places x = signed x (pointed x.places x.rounded.digits) := by
  have hround : roundDiv (x.ratio.1 * 10 ^ x.places) x.ratio.2 = x.rounded.digits := by
    cases hzero : x.isZero with
    | true =>
        rw [x.ratio_eq_zero_iff.mpr hzero, Nat.zero_mul, Binary64.rounded, if_pos hzero]
        exact (isNearest_roundDiv 0 x.ratio_pos).eq_of_eq (by simp)
    | false =>
        have hrounded : x.rounded = Significant.ofRatio writtenDigits x.ratio.1 x.ratio.2 := by
          rw [Binary64.rounded, if_neg (by rw [hzero]; decide)]
        have hpositive : 0 < x.ratio.1 := by
          refine Nat.pos_of_ne_zero fun h => ?_
          rw [x.ratio_eq_zero_iff.mp h] at hzero
          cases hzero
        rw [hrounded] at hexponent ⊢
        refine Significant.roundDiv_eq_digits (by decide) hpositive x.ratio_pos ?_
        have hcount : (writtenDigits : ℤ) = 14 := rfl
        rw [Binary64.places, hrounded]
        omega
  simp only [fixed, hround]

/-- The exponent is what stands behind the letter. -/
theorem cutAt_scientific (x : Binary64) :
    Numeral.cutAt (· == 'e') (scientific (writtenDigits - 1) x) =
      (signed x (pointed 13 x.rounded.digits), some x.rounded.exponent.repr.toList) := by
  rw [scientific_eq_rounded]
  refine Numeral.cutAt_append (fun c hc => beq_false_of_ne ?_) rfl _
  rintro rfl
  rw [pointed_eq, signed_append] at hc
  rcases List.mem_append.mp hc with hc | hc
  · exact absurd (mem_signed_toDigits hc) (by decide)
  · rcases List.mem_cons.mp hc with hc | hc
    · cases hc
    · exact absurd (isDigit_of_mem_lastDigits hc) (by decide)

/-- Rounding twice and rounding once give the same text. -/
theorem text_eq (x : Binary64) :
    text x = x.text := by
  rw [text, Binary64.text]
  split
  · rfl
  rename_i hnan
  cases hinfinite : x.isInfinite with
  | true =>
      simp only [Binary64.magnitudeText, hinfinite, if_true, signed]
  | false =>
      have hfinite : x.isFinite = true := by
        simp only [Binary64.isFinite, Binary64.isNaN, Binary64.isInfinite, decide_eq_true_eq,
          beq_eq_false_iff_ne] at hnan hinfinite ⊢
        omega
      have hsign : (if x.isNegative = true then '-' :: x.magnitudeText else x.magnitudeText) =
          signed x x.magnitudeText := rfl
      simp only [Bool.false_eq_true, if_false, cutAt_scientific, Numeral.exponent?_repr,
        Option.getD_some]
      rw [hsign, Binary64.magnitudeText_eq hfinite]
      split
      · rw [trimFraction_pointed, exponentText, signed_append, signed_append, signed_append]
        exact keepFloat_of_mem (c := 'e') (by simp) (by decide)
      · rename_i hform
        have hexponent : x.rounded.exponent < 14 := by
          cases hzero : x.isZero with
          | true =>
              rw [Binary64.rounded, if_pos hzero]
              decide
          | false =>
              simp only [hzero, Bool.not_false, Bool.true_and, needsExponent, Bool.or_eq_true,
                decide_eq_true_eq, not_or] at hform
              omega
        have hplaces : ((writtenDigits : ℤ) - 1 - x.rounded.exponent).toNat = x.places := rfl
        rw [hplaces, fixed_eq_rounded hexponent, trimFraction_pointed,
          keepFloat_behindPoint fun c hc => mem_signed_toDigits hc, positionalText, signed_append]

end Conversion
end LuaView
