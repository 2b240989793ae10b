import LuaView.Proofs.Lexing.Literals
import LuaView.Proofs.Number.Conversion

/-!
# The texts of floats

The text of a finite float, as a numeral: it stands for the float rounded to fourteen significant
digits, has an exponent or a point but no zeros that could be left out, and is read back as one
numeral that denotes a float.
-/

namespace LuaView

-- powers are those of the core library, also where there are others
attribute [local instance (high)] instPowNat

open CharClass (digitsValue)

namespace Numeral

/-- The number that the parts of a decimal numeral stand for. -/
def Parts.value (parts : Parts) : ℚ :=
  digitsValue 10 parts.digits * 10 ^ (parts.exponent.getD 0 - parts.places)

/-- The parts of a decimal numeral without its sign. -/
def decimalParts? (cs : List Char) : Option Parts :=
  parts? Char.isDigit (fun c => c == 'e' || c == 'E') cs

/-- The numeral writes a decimal of fourteen digits.  It has an exponent if the first digit is
far from the point.  The only fraction with a zero at its end is a single zero, and it stands for
the exponent or the fraction that the numeral does not have otherwise. -/
structure Parts.Writes (parts : Parts) (decimal : Significant) : Prop where
  value : parts.value = decimal.value 14
  exponent : parts.exponent =
    if decimal.digits ≠ 0 ∧ (decimal.exponent < -4 ∨ 14 ≤ decimal.exponent) then
      some decimal.exponent
    else none
  pointed : parts.exponent = none → parts.fraction.isSome
  trimmed : ∀ fraction ∈ parts.fraction, fraction ≠ [] ∧
    (fraction.getLast? = some '0' → fraction = ['0'] ∧ parts.exponent = none)

theorem parts?_of_cut
    {cs mantissa whole : List Char}
    {power fraction : Option (List Char)}
    {exponent : Option ℤ}
    (hmark : cutAt (fun c => c == 'e' || c == 'E') cs = (mantissa, power))
    (hpoint : cutAt (· == '.') mantissa = (whole, fraction))
    (hdigits : AreDigits Char.isDigit (whole ++ fraction.getD []))
    (hpower : power.bind exponent? = exponent)
    (hsome : power.isSome = exponent.isSome) :
    decimalParts? cs = some ⟨whole, fraction, exponent⟩ := by
  have hvalid : ((whole ++ fraction.getD []).isEmpty ||
      !(whole ++ fraction.getD []).all Char.isDigit) = false := by
    rw [List.all_eq_true.mpr hdigits.all, List.isEmpty_eq_false_iff.mpr hdigits.ne_nil]
    rfl
  simp only [decimalParts?, parts?, hmark, hpoint, hpower, Parts.digits, hvalid, hsome]
  cases exponent <;> rfl

/-- A point or an exponent makes a decimal numeral a float. -/
theorem decimal?_of_parts
    {cs unsigned : List Char}
    {sign : Option Bool}
    {parts : Parts}
    (hcut : cutSign cs = (sign, unsigned))
    (hparts : decimalParts? unsigned = some parts)
    (hplain : parts.isPlain = false) :
    let float := Binary64.ofDecimal (digitsValue 10 parts.digits)
      (parts.exponent.getD 0 - (parts.places : ℤ))
    decimal? cs = some (.float (if sign = some true then float.negate else float)) := by
  rw [decimalParts?] at hparts
  simp only [decimal?, hcut, hparts, hplain, Option.bind_eq_bind, Option.bind_some,
    Bool.and_false, Bool.false_and, Bool.false_eq_true, if_false]
  rfl

end Numeral

namespace Conversion

open Numeral (AreDigits Parts cutAt decimalParts?)

variable {places n : ℕ}

theorem isDigit_of_mem_toDigits
    {n : ℕ}
    {c : Char}
    (hc : c ∈ Nat.toDigits 10 n) :
    c.isDigit = true :=
  Nat.isDigit_of_mem_toDigits (by decide) (by decide) hc

theorem areDigits_whole
    {digits : List Char}
    (h : ∀ c ∈ digits, c.isDigit = true)
    (n : ℕ) :
    AreDigits Char.isDigit (Nat.toDigits 10 n ++ digits) := by
  refine ⟨List.append_ne_nil_of_left_ne_nil Nat.toDigits_ne_nil _, fun c hc => ?_⟩
  rcases List.mem_append.mp hc with hc | hc
  · exact isDigit_of_mem_toDigits hc
  · exact h c hc

theorem ne_of_isDigit
    {c other : Char}
    (hc : c.isDigit = true)
    (hother : other.isDigit = false) :
    (c == other) = false := by
  refine beq_false_of_ne ?_
  rintro rfl
  rw [hc] at hother
  cases hother

/-- The digits of the whole part are cut at the point. -/
theorem cutAt_behindPoint
    (digits : List Char)
    (n : ℕ) :
    cutAt (· == '.') (Nat.toDigits 10 n ++ behindPoint digits) =
      (Nat.toDigits 10 n, if digits = [] then none else some digits) := by
  have hwhole : ∀ c ∈ Nat.toDigits 10 n, (c == '.') = false := fun c hc =>
    ne_of_isDigit (isDigit_of_mem_toDigits hc) (by decide)
  rw [behindPoint]
  split
  · rw [List.append_nil]
    exact Numeral.cutAt_of_forall hwhole
  · exact Numeral.cutAt_append hwhole rfl digits

theorem not_isMark
    {digits : List Char}
    (h : ∀ c ∈ digits, c.isDigit = true)
    (n : ℕ) :
    ∀ c ∈ Nat.toDigits 10 n ++ behindPoint digits, (c == 'e' || c == 'E') = false := by
  have hdigit : ∀ c, Char.isDigit c = true → (c == 'e' || c == 'E') = false := fun c hc => by
    rw [ne_of_isDigit hc (by decide), ne_of_isDigit hc (by decide)]
    rfl
  intro c hc
  rcases List.mem_append.mp hc with hc | hc
  · exact hdigit c (isDigit_of_mem_toDigits hc)
  · unfold behindPoint at hc
    split at hc
    · cases hc
    · rcases List.mem_cons.mp hc with rfl | hc
      · decide
      · exact hdigit c (h c hc)

/-- The parts of a text with digits behind its point. -/
theorem decimalParts?_pointed
    {digits : List Char}
    (hne : digits ≠ [])
    (hdigits : ∀ c ∈ digits, c.isDigit = true)
    (n : ℕ) :
    decimalParts? (Nat.toDigits 10 n ++ '.' :: digits) =
      some ⟨Nat.toDigits 10 n, some digits, none⟩ := by
  have hcut := cutAt_behindPoint digits n
  have hmark := Numeral.cutAt_of_forall (not_isMark hdigits n)
  rw [behindPoint, if_neg hne] at hcut hmark
  rw [if_neg hne] at hcut
  exact Numeral.parts?_of_cut hmark hcut (areDigits_whole hdigits n) rfl rfl

/-- The parts of a text with an exponent. -/
theorem decimalParts?_exponent
    {digits power : List Char}
    {exponent : ℤ}
    (hdigits : ∀ c ∈ digits, c.isDigit = true)
    (hpower : Numeral.exponent? power = some exponent)
    (n : ℕ) :
    decimalParts? (Nat.toDigits 10 n ++ behindPoint digits ++ 'e' :: power) =
      some ⟨Nat.toDigits 10 n, if digits = [] then none else some digits, some exponent⟩ := by
  have hletter : ('e' == 'e' || 'e' == 'E') = true := by decide
  have hmark := Numeral.cutAt_append (not_isMark hdigits n) hletter power
  refine Numeral.parts?_of_cut hmark (cutAt_behindPoint digits n) ?_ hpower rfl
  split
  · exact areDigits_whole (fun c hc => by cases hc) n
  · exact areDigits_whole hdigits n

/-- The exponent of a text is read back with its sign. -/
theorem exponent?_padded (exponent : ℤ) :
    Numeral.exponent?
        ((if exponent < 0 then '-' else '+') :: padded 2 exponent.natAbs) = some exponent := by
  have hall : ∀ c ∈ padded 2 exponent.natAbs, c.isDigit = true := by
    intro c hc
    rcases List.mem_append.mp hc with hc | hc
    · obtain rfl := List.eq_of_mem_replicate hc
      decide
    · exact isDigit_of_mem_toDigits hc
  have hdigits : AreDigits Char.isDigit (padded 2 exponent.natAbs) :=
    ⟨List.append_ne_nil_of_right_ne_nil _ Nat.toDigits_ne_nil, hall⟩
  have hvalue : digitsValue 10 (padded 2 exponent.natAbs) = exponent.natAbs := by
    rw [Numeral.digitsValue_eq_ofDigitChars hall, padded, Nat.ofDigitChars_append,
      Nat.ofDigitChars_replicate_zero, Nat.mul_zero, Nat.ofDigitChars_ten_toDigits]
  rcases lt_or_ge exponent 0 with hnegative | hpositive
  · have hcut : Numeral.cutSign ('-' :: padded 2 exponent.natAbs) =
        (some true, padded 2 exponent.natAbs) := rfl
    rw [if_pos hnegative, Numeral.exponent?_of_cutSign hcut hdigits, hvalue, if_pos rfl,
      Option.some_inj]
    omega
  · have hcut : Numeral.cutSign ('+' :: padded 2 exponent.natAbs) =
        (some false, padded 2 exponent.natAbs) := rfl
    rw [if_neg (not_lt.mpr hpositive), Numeral.exponent?_of_cutSign hcut hdigits, hvalue,
      if_neg (by decide), Option.some_inj]
    omega

/-! ## Values -/

theorem digitsValue_pointed (places n : ℕ) :
    digitsValue 10 (Nat.toDigits 10 (n / 10 ^ places) ++ lastDigits places n) = n := by
  have hdigits :
      AreDigits Char.isDigit (Nat.toDigits 10 (n / 10 ^ places) ++ lastDigits places n) :=
    areDigits_whole (fun _ hc => isDigit_of_mem_lastDigits hc) _
  rw [Numeral.digitsValue_eq_ofDigitChars hdigits.all, ofDigitChars_pointed]

/-- Zeros at the end scale the digits. -/
theorem digitsValue_fraction (places n : ℕ) :
    (digitsValue 10 (Nat.toDigits 10 (n / 10 ^ places) ++ fraction places n) : ℚ) =
      n * 10 ^ ((fraction places n).length - places : ℤ) := by
  have hdigits : AreDigits Char.isDigit (Nat.toDigits 10 (n / 10 ^ places) ++ fraction places n) :=
    areDigits_whole (fun _ hc => isDigit_of_mem_fraction hc) _
  have hshort : (fraction places n).length ≤ places := by
    have hle := (List.rdropWhile_prefix (· == '0') (lastDigits places n)).length_le
    rwa [length_lastDigits] at hle
  have hscaled := ofDigitChars_pointed places n
  rw [← fraction_append_zeros, ← List.append_assoc, Nat.ofDigitChars_append,
    Nat.ofDigitChars_replicate_zero, ← Numeral.digitsValue_eq_ofDigitChars hdigits.all] at hscaled
  generalize digitsValue 10 (Nat.toDigits 10 (n / 10 ^ places) ++ fraction places n) = value at *
  generalize (fraction places n).length = size at *
  rw [← hscaled]
  push_cast
  rw [← zpow_natCast, mul_right_comm, ← Significant.ten_zpow_add,
    show ((places - size : ℕ) : ℤ) + (size - places) = 0 by omega, zpow_zero, one_mul]

/-- The last digit of a fraction is not zero. -/
theorem getLast?_fraction (places n : ℕ) :
    (fraction places n).getLast? ≠ some '0' := by
  intro hlast
  have hne : fraction places n ≠ [] := fun hnil => by rw [hnil] at hlast; cases hlast
  have hzero : (fraction places n).getLast hne = '0' := by
    rw [List.getLast?_eq_some_getLast hne] at hlast
    exact Option.some.inj hlast
  exact List.rdropWhile_last_not (· == '0') (lastDigits places n) hne (beq_iff_eq.mpr hzero)

/-- The layout with the point in its place stands for the digits with so many places.  The only
fraction with a zero at its end is a single zero. -/
theorem decimalParts?_positionalText (places n : ℕ) :
    ∃ (whole digits : List Char),
      decimalParts? (positionalText places n) = some ⟨whole, some digits, none⟩ ∧
      Parts.value ⟨whole, some digits, none⟩ = n * 10 ^ (-(places : ℤ)) ∧
      digits ≠ [] ∧ (digits.getLast? = some '0' → digits = ['0']) := by
  have hscaled := digitsValue_fraction places n
  have hlast := getLast?_fraction places n
  have hdigits : ∀ c ∈ fraction places n, c.isDigit = true :=
    fun _ hc => isDigit_of_mem_fraction hc
  unfold positionalText
  generalize fraction places n = digits at *
  split
  · rename_i hnil
    rw [hnil, List.append_nil, List.length_nil] at hscaled
    have hzeros : ∀ c ∈ ['0'], c.isDigit = true := List.forall_mem_singleton.mpr (by decide)
    refine ⟨_, _, decimalParts?_pointed (List.cons_ne_nil _ _) hzeros _, ?_, List.cons_ne_nil _ _,
      fun _ => rfl⟩
    have hzero : digitsValue 10 (Nat.toDigits 10 (n / 10 ^ places) ++ ['0']) =
        10 * digitsValue 10 (Nat.toDigits 10 (n / 10 ^ places)) := by
      simp only [digitsValue, List.foldl_append, List.foldl_cons, List.foldl_nil]
      rfl
    rw [Parts.value, Parts.digits, Option.getD_some, hzero]
    push_cast
    rw [hscaled]
    simp only [Parts.places, Option.getD_none, Option.getD_some, List.length_singleton]
    norm_num
    ring
  · rename_i hne
    refine ⟨_, _, decimalParts?_pointed hne hdigits _, ?_, hne, fun hzero => absurd hzero hlast⟩
    rw [Parts.value, Parts.digits, Option.getD_some, hscaled, mul_assoc, ← Significant.ten_zpow_add]
    congr 2
    simp only [Parts.places, Option.getD_none, Option.getD_some]
    omega

variable {decimal : Significant}

/-- The layout with the point in its place has the value of the decimal. -/
theorem writes_positional
    (hnear : ¬ (decimal.digits ≠ 0 ∧ (decimal.exponent < -4 ∨ 14 ≤ decimal.exponent)))
    (hplaces : 13 - decimal.exponent = places) :
    ∃ parts : Parts, decimalParts? (positionalText places decimal.digits) = some parts ∧
      parts.Writes decimal ∧ parts.isPlain = false := by
  obtain ⟨whole, digits, hparts, hvalue, hne, hlast⟩ :=
    decimalParts?_positionalText places decimal.digits
  refine ⟨_, hparts, ⟨?_, (if_neg hnear).symm, fun _ => rfl, ?_⟩, rfl⟩
  · rw [hvalue, Significant.value, show decimal.exponent + 1 - (14 : ℕ) = -(places : ℤ) by omega]
  · rintro _ ⟨⟩
    exact ⟨hne, fun hzero => ⟨hlast hzero, rfl⟩⟩

/-- The layout with an exponent has the value of the decimal. -/
theorem writes_exponent
    (hfar : decimal.digits ≠ 0 ∧ (decimal.exponent < -4 ∨ 14 ≤ decimal.exponent)) :
    ∃ parts : Parts,
      decimalParts? (exponentText 13 decimal.digits decimal.exponent) = some parts ∧
      parts.Writes decimal ∧ parts.isPlain = false := by
  have hscaled := digitsValue_fraction 13 decimal.digits
  have hlast := getLast?_fraction 13 decimal.digits
  have hdigits : ∀ c ∈ fraction 13 decimal.digits, c.isDigit = true :=
    fun _ hc => isDigit_of_mem_fraction hc
  have hparts := decimalParts?_exponent hdigits (exponent?_padded decimal.exponent)
    (decimal.digits / 10 ^ 13)
  have htext : exponentText 13 decimal.digits decimal.exponent =
      Nat.toDigits 10 (decimal.digits / 10 ^ 13) ++ behindPoint (fraction 13 decimal.digits) ++
        'e' :: (if decimal.exponent < 0 then '-' else '+') :: padded 2 decimal.exponent.natAbs := by
    rw [exponentText, List.append_assoc]
    rfl
  rw [htext]
  generalize fraction 13 decimal.digits = digits at *
  have hexponent : some decimal.exponent ≠ none := Option.some_ne_none _
  refine ⟨_, hparts, ⟨?_, (if_pos hfar).symm, fun hnone => absurd hnone hexponent, ?_⟩,
    Bool.and_false _⟩
  · have hfraction : (if digits = [] then none else some digits : Option (List Char)).getD [] =
        digits := by
      split
      · rename_i hnil
        exact hnil.symm
      · rfl
    rw [Parts.value, Parts.digits, Parts.places, hfraction, hscaled, mul_assoc,
      ← Significant.ten_zpow_add, Significant.value, Option.getD_some]
    congr 2
    omega
  · intro behind hbehind
    split at hbehind
    · cases hbehind
    · rename_i hne
      obtain rfl := Option.some.inj hbehind
      exact ⟨hne, fun hzero => absurd hzero hlast⟩

/-- The first conversion, with all its zeros, has the value of the decimal. -/
theorem decimalParts?_scientific
    {x : Binary64}
    (hsign : x.isNegative = false) :
    ∃ parts : Parts, decimalParts? (scientific 13 x) = some parts ∧
      parts.value = x.rounded.value 14 := by
  have htext : scientific 13 x =
      Nat.toDigits 10 (x.rounded.digits / 10 ^ 13) ++
        behindPoint (lastDigits 13 x.rounded.digits) ++
        'e' :: x.rounded.exponent.repr.toList := by
    have hpointed := scientific_eq_rounded x
    rw [signed, if_neg (by rw [hsign]; decide), pointed_eq] at hpointed
    exact hpointed
  have hdigits : ∀ c ∈ lastDigits 13 x.rounded.digits, c.isDigit = true :=
    fun _ hc => isDigit_of_mem_lastDigits hc
  have hparts := decimalParts?_exponent hdigits (Numeral.exponent?_repr x.rounded.exponent)
    (x.rounded.digits / 10 ^ 13)
  refine ⟨_, htext ▸ hparts, ?_⟩
  have hsome : lastDigits 13 x.rounded.digits ≠ [] := by
    rw [← List.length_pos_iff, length_lastDigits]
    decide
  rw [if_neg hsome, Parts.value, Parts.digits, Parts.places, Option.getD_some,
    digitsValue_pointed, length_lastDigits, Significant.value, Option.getD_some]
  congr 2
  omega

end Conversion

/-! ## Reading back -/

namespace Binary64

variable {x : Binary64}

theorem rounded_digits_eq_zero_iff (x : Binary64) :
    x.rounded.digits = 0 ↔ x.value = 0 := by
  constructor
  · intro hzero
    rcases x.isRounding_rounded.digits with ⟨hvalue, -⟩ | ⟨hlow, -⟩
    · exact hvalue
    · omega
  · intro hvalue
    rw [rounded, if_pos (x.value_eq_zero_iff.mp hvalue)]

theorem text_eq_magnitudeText
    (hfinite : x.isFinite = true)
    (hsign : x.isNegative = false) :
    x.text = x.magnitudeText := by
  simp [text, (not_isNaN_of_isFinite hfinite).1, hsign]

/-- Both layouts start with the digits in front of the point. -/
theorem isDigit_of_mem_head_text
    (hfinite : x.isFinite = true)
    (hsign : x.isNegative = false)
    {c : Char}
    (hc : c ∈ x.text.head?) :
    c.isDigit = true := by
  have hfront : ∀ (n : ℕ) (behind : List Char),
      c ∈ (Nat.toDigits 10 n ++ behind).head? → c.isDigit = true := by
    intro n behind hmem
    rw [List.head?_append_of_ne_nil _ Nat.toDigits_ne_nil] at hmem
    exact Conversion.isDigit_of_mem_toDigits (List.mem_of_mem_head? hmem)
  rw [text_eq_magnitudeText hfinite hsign, magnitudeText_eq hfinite] at hc
  split at hc
  · rw [Conversion.exponentText, List.append_assoc, List.append_assoc] at hc
    exact hfront _ _ hc
  · exact hfront _ _ hc

/-- The text of a finite float writes the rounded decimal. -/
theorem writes_text
    (hfinite : x.isFinite = true)
    (hsign : x.isNegative = false) :
    ∃ parts : Numeral.Parts, Numeral.decimalParts? x.text = some parts ∧
      parts.Writes x.rounded ∧ parts.isPlain = false := by
  have hzero : (!x.isZero) = true ↔ x.rounded.digits ≠ 0 := by
    rw [Ne, rounded_digits_eq_zero_iff, value_eq_zero_iff, Bool.not_eq_true', Bool.not_eq_true]
  rw [text_eq_magnitudeText hfinite hsign, magnitudeText_eq hfinite]
  split
  · rename_i hform
    refine Conversion.writes_exponent ?_
    simpa only [needsExponent, Bool.and_eq_true, Bool.or_eq_true, decide_eq_true_eq, hzero]
      using hform
  · rename_i hform
    have hnear : ¬ (x.rounded.digits ≠ 0 ∧
        (x.rounded.exponent < -4 ∨ 14 ≤ x.rounded.exponent)) := by
      simpa only [needsExponent, Bool.and_eq_true, Bool.or_eq_true, decide_eq_true_eq, hzero]
        using hform
    refine Conversion.writes_positional hnear ?_
    have hexponent : x.rounded.exponent < 14 := by
      by_contra hlarge
      refine hnear ⟨fun hdigits => ?_, .inr (by omega)⟩
      rw [rounded, if_pos (x.value_eq_zero_iff.mp (x.rounded_digits_eq_zero_iff.mp hdigits))]
        at hlarge
      exact hlarge (by decide)
    rw [places]
    omega

end Binary64
namespace Number

variable {x : Binary64}

/-- A text with a point or an exponent is read as a float. -/
theorem ofNumeral?_of_parts
    {cs : List Char}
    {parts : Numeral.Parts}
    (hparts : Numeral.decimalParts? cs = some parts)
    (hplain : parts.isPlain = false)
    (hdigit : ∀ c ∈ cs.head?, c.isDigit = true) :
    ofNumeral? cs = some (.float (Binary64.ofDecimal (digitsValue 10 parts.digits)
      (parts.exponent.getD 0 - (parts.places : ℤ)))) := by
  obtain ⟨flag, hcut, hflag⟩ :=
    Numeral.cutSign_append (.inl rfl) fun c hc => Numeral.ne_sign_of_isDigit (hdigit c hc)
  rw [List.nil_append, hflag.mpr rfl] at hcut
  exact ofNumeral?_eq_some_iff.mpr (.inr (Numeral.decimal?_of_parts hcut hparts hplain))

/-- The text of a finite float that is not negative: it stands for the float rounded to fourteen
significant digits, which is also what the conversion with an exponent stands for; it has an
exponent if the first digit of the rounded value stands far from the point, and no zeros that could
be left out; it is what the two conversions give; and it is one numeral that denotes a float. -/
theorem text_float_exact
    (hfinite : x.isFinite = true)
    (hsign : x.isNegative = false) :
    ∃ (decimal : Significant) (rendered parts : Numeral.Parts),
      Significant.IsRounding 14 x.value decimal ∧
      (Numeral.decimalParts? (Conversion.scientific 13 x) = some rendered ∧
        rendered.value = decimal.value 14) ∧
      (Numeral.decimalParts? (Number.float x).text.toList = some parts ∧ parts.Writes decimal) ∧
      Conversion.text x = (Number.float x).text.toList ∧
      ∃ numeral last value,
        tokenize (Number.float x).text = .ok [numeral, Token.eof last] ∧
        numeral.kind = .number ∧ numeral.text = (Number.float x).text ∧
        ofNumeral? numeral.text.toList = some (.float value) := by
  have htext : (Number.float x).text.toList = x.text := String.toList_ofList
  obtain ⟨rendered, hrendered, hvalue⟩ := Conversion.decimalParts?_scientific hsign
  obtain ⟨parts, hparts, hwrites, hplain⟩ := Binary64.writes_text hfinite hsign
  have hdigit : ∀ c ∈ x.text.head?, c.isDigit = true :=
    fun c hc => Binary64.isDigit_of_mem_head_text hfinite hsign hc
  have hdenotes := ofNumeral?_of_parts hparts hplain hdigit
  rw [← htext] at hdenotes hdigit
  have hlexed := @Lexed.singleton ⟨.number, (Number.float x).text⟩
    ⟨Option.isSome_of_eq_some hdenotes, hdigit⟩
  have hhead : (Number.float x).text.toList.head? ≠ some '#' := fun heq =>
    absurd (hdigit '#' heq) (by decide)
  obtain ⟨words, last, htokens, hwords⟩ := tokenize_of_lexed hlexed hhead
  obtain ⟨numeral, rfl, hmark⟩ := List.map_eq_singleton_iff.mp hwords
  obtain ⟨hkind, hsame⟩ := Mark.mk.inj hmark
  refine ⟨x.rounded, rendered, parts, x.isRounding_rounded, ⟨hrendered, hvalue⟩, ⟨?_, hwrites⟩,
    (Conversion.text_eq x).trans htext.symm, numeral, last, _, ?_, hkind, hsame,
    hsame ▸ hdenotes⟩
  · rw [htext, hparts]
  · rwa [Mark.spelling, String.ofList_toList] at htokens

/-- The float below one is rounded up to a power of ten, and has a place less than its own digits
would have. -/
theorem text_float_exact_carry :
    (⟨0x3FEFFFFFFFFFFFFF⟩ : Binary64).isFinite = true ∧
    (⟨0x3FEFFFFFFFFFFFFF⟩ : Binary64).isNegative = false ∧
    ∃ (decimal : Significant) (parts : Numeral.Parts),
      Significant.IsRounding 14 (⟨0x3FEFFFFFFFFFFFFF⟩ : Binary64).value decimal ∧
      Numeral.decimalParts? "1.0".toList = some parts ∧ parts.Writes decimal ∧
      ∃ numeral last value, tokenize "1.0" = .ok [numeral, Token.eof last] ∧
        numeral.kind = .number ∧ ofNumeral? numeral.text.toList = some (.float value) := by
  have hfinite : (⟨0x3FEFFFFFFFFFFFFF⟩ : Binary64).isFinite = true := by decide
  have hsign : (⟨0x3FEFFFFFFFFFFFFF⟩ : Binary64).isNegative = false := by decide
  have htext : (Number.float ⟨0x3FEFFFFFFFFFFFFF⟩).text = "1.0" := by decide +kernel
  obtain ⟨decimal, -, parts, hrounding, -, ⟨hparts, hwrites⟩, -, numeral, last, value, htokens,
    hkind, -, hdenotes⟩ := text_float_exact hfinite hsign
  rw [htext] at hparts htokens
  exact ⟨hfinite, hsign, decimal, parts, hrounding, hparts, hwrites, numeral, last, value, htokens,
    hkind, hdenotes⟩

end Number
end LuaView
