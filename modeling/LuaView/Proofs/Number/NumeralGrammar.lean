import LuaView.Proofs.Number.NumeralInWords
import LuaView.Proofs.Number.Rereading

/-!
# The grammar of numerals

Which texts are numerals, and which of them are integers, said without the reader: a mantissa is
digits with at most one point and at least one digit, and a power is a mark, an optional sign and
decimal digits.  `Number.ofNumeral?` accepts these texts and no others; the integers among them are
the runs of decimal digits that are not too large, and the hexadecimal digits without point and
power, modulo `2 ^ 64`.
-/

namespace LuaView

-- powers are those of the core library, also where there are others
attribute [local instance (high)] instPowNat

open CharClass (isHexDigit digitsValue)

namespace Numeral

/-- At least one digit and nothing else. -/
structure AreDigits (isDigit : Char → Bool) (cs : List Char) : Prop where
  ne_nil : cs ≠ []
  all : ∀ c ∈ cs, isDigit c = true

/-- Digits with at most one point and at least one digit. -/
inductive IsMantissa (isDigit : Char → Bool) : List Char → Prop
  | whole
      {digits : List Char}
      (hdigits : AreDigits isDigit digits) :
      IsMantissa isDigit digits
  | pointed
      {whole fraction : List Char}
      (hdigits : AreDigits isDigit (whole ++ fraction)) :
      IsMantissa isDigit (whole ++ '.' :: fraction)

/-- No sign, or one of the two. -/
def IsSign (sign : List Char) : Prop :=
  sign = [] ∨ sign = ['+'] ∨ sign = ['-']

/-- A mark, an optional sign and decimal digits, or nothing. -/
inductive IsPower (isMark : Char → Bool) : List Char → Prop
  | none :
      IsPower isMark []
  | some
      {mark : Char} {sign digits : List Char}
      (hmark : isMark mark = true)
      (hsign : IsSign sign)
      (hdigits : AreDigits Char.isDigit digits) :
      IsPower isMark (mark :: (sign ++ digits))

/-- The texts that denote a number. -/
inductive IsNumeral : List Char → Prop
  | hexadecimal
      {letter : Char} {mantissa power : List Char}
      (hletter : letter = 'x' ∨ letter = 'X')
      (hmantissa : IsMantissa isHexDigit mantissa)
      (hpower : IsPower (fun c => c == 'p' || c == 'P') power) :
      IsNumeral ('0' :: letter :: (mantissa ++ power))
  | decimal
      {sign mantissa power : List Char}
      (hsign : IsSign sign)
      (hmantissa : IsMantissa Char.isDigit mantissa)
      (hpower : IsPower (fun c => c == 'e' || c == 'E') power) :
      IsNumeral (sign ++ (mantissa ++ power))

/-- The texts that denote an integer: decimal digits with a value below `2 ^ 63`, or hexadecimal
digits, whose value is taken as a two's complement modulo `2 ^ 64`. -/
inductive DenotesInteger : List Char → Int64 → Prop
  | decimal
      {digits : List Char} {value : Int64}
      (hdigits : AreDigits Char.isDigit digits)
      (hlimit : digitsValue 10 digits < 2 ^ 63)
      (hvalue : value.toInt = digitsValue 10 digits) :
      DenotesInteger digits value
  | hexadecimal
      {letter : Char} {digits : List Char} {value : Int64}
      (hletter : letter = 'x' ∨ letter = 'X')
      (hdigits : AreDigits isHexDigit digits)
      (hvalue : value.toInt = Int.bmod (digitsValue 16 digits) (2 ^ 64)) :
      DenotesInteger ('0' :: letter :: digits) value

theorem IsMantissa.ne_nil
    {isDigit : Char → Bool}
    {mantissa : List Char}
    (h : IsMantissa isDigit mantissa) :
    mantissa ≠ [] := by
  cases h with
  | whole hdigits => exact hdigits.ne_nil
  | pointed _ => exact List.append_ne_nil_of_right_ne_nil _ (List.cons_ne_nil _ _)

theorem IsMantissa.digit_or_point
    {isDigit : Char → Bool}
    {mantissa : List Char}
    (h : IsMantissa isDigit mantissa) :
    ∀ c ∈ mantissa, isDigit c = true ∨ c = '.' := by
  intro c hc
  cases h with
  | whole hdigits => exact .inl (hdigits.all c hc)
  | pointed hdigits =>
      rcases List.mem_append.mp hc with hc | hc
      · exact .inl (hdigits.all c (List.mem_append_left _ hc))
      · rcases List.mem_cons.mp hc with rfl | hc
        · exact .inr rfl
        · exact .inl (hdigits.all c (List.mem_append_right _ hc))

/-! ## Cutting -/

/-- A text is cut at the first mark in it. -/
theorem cutAt_append
    {cls : Char → Bool}
    {front : List Char}
    (hfront : ∀ c ∈ front, cls c = false)
    {mark : Char}
    (hmark : cls mark = true)
    (after : List Char) :
    cutAt cls (front ++ mark :: after) = (front, some after) := by
  have hkept : ∀ c ∈ front, (!cls c) = true := fun c hc => by simp [hfront c hc]
  have hdrop : (front ++ mark :: after).dropWhile (fun c => !cls c) = mark :: after := by
    rw [List.dropWhile_append_of_pos hkept]
    simp [hmark]
  have htake : (front ++ mark :: after).takeWhile (fun c => !cls c) = front := by
    rw [List.takeWhile_append_of_pos hkept]
    simp [hmark]
  rw [cutAt, hdrop, htake]

/-- What stands behind an optional sign is cut off from it. -/
theorem cutSign_append
    {sign cs : List Char}
    (hsign : IsSign sign)
    (hcs : ∀ c ∈ cs.head?, c ≠ '+' ∧ c ≠ '-') :
    ∃ flag, cutSign (sign ++ cs) = (flag, cs) ∧ (flag = none ↔ sign = []) := by
  rcases hsign with rfl | rfl | rfl
  · refine ⟨none, ?_, by simp⟩
    rw [List.nil_append]
    unfold cutSign
    split
    · exact absurd rfl (hcs '-' rfl).2
    · exact absurd rfl (hcs '+' rfl).1
    · rfl
  · exact ⟨some false, rfl, by simp⟩
  · exact ⟨some true, rfl, by simp⟩

/-- A sign is cut off the front, if there is one. -/
theorem cutSign_spec
    {cs rest : List Char}
    {flag : Option Bool}
    (h : cutSign cs = (flag, rest)) :
    ∃ sign, IsSign sign ∧ cs = sign ++ rest ∧ (flag = none → sign = []) := by
  unfold cutSign at h
  split at h
  · obtain ⟨rfl, rfl⟩ := Prod.mk.inj h
    exact ⟨['-'], .inr (.inr rfl), rfl, nofun⟩
  · obtain ⟨rfl, rfl⟩ := Prod.mk.inj h
    exact ⟨['+'], .inr (.inl rfl), rfl, nofun⟩
  · obtain ⟨rfl, rfl⟩ := Prod.mk.inj h
    exact ⟨[], .inl rfl, rfl, fun _ => rfl⟩

theorem ne_sign_of_isDigit
    {c : Char}
    (hc : c.isDigit = true) :
    c ≠ '+' ∧ c ≠ '-' := by
  constructor <;> rintro rfl <;> exact absurd hc (by decide)

/-- An exponent is read if and only if it is an optional sign and digits. -/
theorem exponent?_isSome_iff (cs : List Char) :
    (exponent? cs).isSome ↔
      ∃ sign digits, IsSign sign ∧ AreDigits Char.isDigit digits ∧ cs = sign ++ digits := by
  constructor
  · intro h
    unfold exponent? at h
    generalize hcut : cutSign cs = cut at h
    obtain ⟨flag, digits⟩ := cut
    obtain ⟨sign, hsign, hcs, -⟩ := cutSign_spec hcut
    refine ⟨sign, digits, hsign, ?_, hcs⟩
    simp only at h
    split at h
    · cases h
    · rename_i hdigits
      simp only [Bool.or_eq_true, not_or, List.isEmpty_iff, Bool.not_eq_true',
        Bool.not_eq_false] at hdigits
      exact ⟨hdigits.1, List.all_eq_true.mp hdigits.2⟩
  · rintro ⟨sign, digits, hsign, ⟨hne, hall⟩, rfl⟩
    have hhead : ∀ c ∈ digits.head?, c ≠ '+' ∧ c ≠ '-' := fun c hc =>
      ne_sign_of_isDigit (hall c (List.mem_of_mem_head? hc))
    obtain ⟨flag, hcut, -⟩ := cutSign_append hsign hhead
    have hdigits : (digits.isEmpty || !digits.all Char.isDigit) = false := by
      simpa [hne] using hall
    simp only [exponent?, hcut, hdigits, Bool.false_eq_true, if_false, Option.isSome_some]

/-! ## Parts -/

section Parts

variable {isDigit isMark : Char → Bool}

theorem not_isDigit_point
    (hbase : Lexeme.IsBase isDigit isMark) :
    isDigit '.' = false := by
  refine Bool.eq_false_iff.mpr fun h => ?_
  exact absurd (hbase.digit '.' h).1 (by decide)

theorem not_isMark_point
    (hbase : Lexeme.IsBase isDigit isMark) :
    isMark '.' = false := by
  refine Bool.eq_false_iff.mpr fun h => ?_
  exact absurd (hbase.mark '.' h) (by decide)

/-- The digits of a mantissa are cut at its point. -/
theorem cutAt_point
    (hbase : Lexeme.IsBase isDigit isMark)
    {mantissa : List Char}
    (h : IsMantissa isDigit mantissa) :
    ∃ whole fraction, cutAt (· == '.') mantissa = (whole, fraction) ∧
      AreDigits isDigit (whole ++ fraction.getD []) := by
  have hpoint : ∀ c, isDigit c = true → (c == '.') = false := by
    intro c hc
    refine beq_false_of_ne ?_
    rintro rfl
    rw [not_isDigit_point hbase] at hc
    cases hc
  cases h with
  | whole hdigits =>
      refine ⟨mantissa, none, cutAt_of_forall fun c hc => hpoint c (hdigits.all c hc), ?_⟩
      rwa [Option.getD_none, List.append_nil]
  | @pointed whole fraction hdigits =>
      have hwhole : ∀ c ∈ whole, (c == '.') = false := fun c hc =>
        hpoint c (hdigits.all c (List.mem_append_left fraction hc))
      have hcut : cutAt (· == '.') (whole ++ '.' :: fraction) = (whole, some fraction) :=
        cutAt_append hwhole rfl fraction
      exact ⟨whole, some fraction, hcut, hdigits⟩

/-- No character of a mantissa is a mark. -/
theorem not_isMark_of_mem_mantissa
    (hbase : Lexeme.IsBase isDigit isMark)
    {mantissa : List Char}
    (h : IsMantissa isDigit mantissa) :
    ∀ c ∈ mantissa, isMark c = false := by
  intro c hc
  rcases h.digit_or_point c hc with hdigit | rfl
  · exact (hbase.digit c hdigit).2
  · exact not_isMark_point hbase

/-- A mantissa with a power of its base has parts. -/
theorem parts?_isSome_of_shape
    (hbase : Lexeme.IsBase isDigit isMark)
    {mantissa power : List Char}
    (hmantissa : IsMantissa isDigit mantissa)
    (hpower : IsPower isMark power) :
    (parts? isDigit isMark (mantissa ++ power)).isSome := by
  obtain ⟨whole, fraction, hpoint, hdigits⟩ := cutAt_point hbase hmantissa
  have hmarks := not_isMark_of_mem_mantissa hbase hmantissa
  have hvalid : ((whole ++ fraction.getD []).isEmpty ||
      !(whole ++ fraction.getD []).all isDigit) = false := by
    rw [List.all_eq_true.mpr hdigits.all, List.isEmpty_eq_false_iff.mpr hdigits.ne_nil]
    rfl
  cases hpower with
  | none =>
      rw [List.append_nil]
      simp only [parts?, cutAt_of_forall hmarks, hpoint, Parts.digits, hvalid]
      rfl
  | some hmark hsign hpower =>
      have hsome := (exponent?_isSome_iff _).mpr ⟨_, _, hsign, hpower, rfl⟩
      simp only [parts?, cutAt_append hmarks hmark, hpoint, Parts.digits, hvalid, Option.bind_some,
        ← Option.not_isSome, hsome]
      rfl

/-- What is read in parts is a mantissa and a power; it is a run of digits if the parts are
plain. -/
theorem shape_of_parts?
    {cs : List Char}
    {parts : Parts}
    (h : parts? isDigit isMark cs = some parts) :
    (∃ mantissa power, IsMantissa isDigit mantissa ∧ IsPower isMark power ∧
      cs = mantissa ++ power) ∧
    (parts.isPlain = true → AreDigits isDigit cs ∧ parts.digits = cs) := by
  obtain ⟨-, hpower⟩ := cutAt_spec isMark cs
  obtain ⟨-, hpoint⟩ := cutAt_spec (· == '.') (cutAt isMark cs).1
  unfold parts? at h
  generalize cutAt isMark cs = cut at h hpower hpoint
  obtain ⟨mantissa, power⟩ := cut
  simp only at h hpower hpoint
  generalize cutAt (· == '.') mantissa = cut at h hpoint
  obtain ⟨whole, fraction⟩ := cut
  simp only at h hpoint
  split at h
  · cases h
  rename_i hvalid
  split at h
  · cases h
  rename_i hexponent
  obtain rfl := Option.some.inj h
  have hdigits : AreDigits isDigit (whole ++ fraction.getD []) := by
    simp only [Parts.digits, Bool.or_eq_true, not_or, List.isEmpty_iff, Bool.not_eq_true',
      Bool.not_eq_false] at hvalid
    exact ⟨hvalid.1, List.all_eq_true.mp hvalid.2⟩
  have hmantissa : IsMantissa isDigit mantissa := by
    cases fraction with
    | none =>
        obtain rfl : whole = mantissa := hpoint
        rw [Option.getD_none, List.append_nil] at hdigits
        exact .whole hdigits
    | some fraction =>
        obtain ⟨point, hdot, rfl⟩ := hpoint
        obtain rfl : point = '.' := by simpa using hdot
        exact .pointed hdigits
  cases power with
  | none =>
      obtain rfl : mantissa = cs := hpower
      refine ⟨⟨mantissa, [], hmantissa, .none, (List.append_nil mantissa).symm⟩, fun hplain => ?_⟩
      obtain rfl : fraction = none := by simpa [Parts.isPlain] using hplain
      obtain rfl : whole = mantissa := hpoint
      rw [Option.getD_none, List.append_nil] at hdigits
      exact ⟨hdigits, List.append_nil whole⟩
  | some power =>
      obtain ⟨mark, hmark, rfl⟩ := hpower
      have hsome : (exponent? power).isSome := by
        simpa [Option.isSome_iff_ne_none] using hexponent
      obtain ⟨sign, digits, hsign, hpower, rfl⟩ := (exponent?_isSome_iff power).mp hsome
      refine ⟨⟨mantissa, _, hmantissa, .some hmark hsign hpower, rfl⟩, fun hplain => ?_⟩
      obtain ⟨exponent, hvalue⟩ := Option.isSome_iff_exists.mp hsome
      simp [Parts.isPlain, hvalue] at hplain

end Parts

/-! ## Hexadecimal numerals -/

/-- Hexadecimal numerals are mantissas with powers. -/
theorem hex?_isSome_iff (cs : List Char) :
    (hex? cs).isSome ↔ ∃ mantissa power, IsMantissa isHexDigit mantissa ∧
      IsPower (fun c => c == 'p' || c == 'P') power ∧ cs = mantissa ++ power := by
  constructor
  · intro h
    obtain ⟨parts, hparts⟩ := Option.isSome_iff_exists.mp (Option.isSome_of_isSome_bind h)
    exact (shape_of_parts? hparts).1
  · rintro ⟨mantissa, power, hmantissa, hpower, rfl⟩
    have hsome := parts?_isSome_of_shape Lexeme.isBase_hex hmantissa hpower
    obtain ⟨parts, hparts⟩ := Option.isSome_iff_exists.mp hsome
    unfold hex?
    rw [hparts, Option.bind_eq_bind, Option.bind_some]
    split <;> rfl

/-- A hexadecimal numeral of digits only wraps around. -/
theorem hex?_eq_int_iff
    {cs : List Char}
    {value : Int64} :
    hex? cs = some (.int value) ↔
      AreDigits isHexDigit cs ∧ value = Int64.ofNat (digitsValue 16 cs) := by
  constructor
  · intro h
    obtain ⟨parts, hparts, hvalue⟩ := Option.bind_eq_some_iff.mp h
    split at hvalue
    · obtain ⟨hdigits, hcs⟩ := (shape_of_parts? hparts).2 ‹_›
      rw [hcs] at hvalue
      exact ⟨hdigits, (Number.int.inj (Option.some.inj hvalue)).symm⟩
    · cases hvalue
  · rintro ⟨hdigits, rfl⟩
    unfold hex?
    rw [parts?_of_digits Lexeme.isBase_hex hdigits.ne_nil hdigits.all]
    simp only [Parts.digits, Parts.isPlain, Option.bind_eq_bind, Option.bind_some,
      Option.getD_none, List.append_nil]
    rfl

/-! ## Decimal numerals -/

/-- Decimal numerals are signed mantissas with powers. -/
theorem decimal?_isSome_iff (cs : List Char) :
    (decimal? cs).isSome ↔ ∃ sign mantissa power, IsSign sign ∧ IsMantissa Char.isDigit mantissa ∧
      IsPower (fun c => c == 'e' || c == 'E') power ∧ cs = sign ++ (mantissa ++ power) := by
  constructor
  · intro h
    unfold decimal? at h
    generalize hcut : cutSign cs = cut at h
    obtain ⟨flag, unsigned⟩ := cut
    obtain ⟨sign, hsign, rfl, -⟩ := cutSign_spec hcut
    obtain ⟨parts, hparts⟩ := Option.isSome_iff_exists.mp (Option.isSome_of_isSome_bind h)
    obtain ⟨⟨mantissa, power, hmantissa, hpower, rfl⟩, -⟩ := shape_of_parts? hparts
    exact ⟨sign, mantissa, power, hsign, hmantissa, hpower, rfl⟩
  · rintro ⟨sign, mantissa, power, hsign, hmantissa, hpower, rfl⟩
    have hhead : ∀ c ∈ (mantissa ++ power).head?, c ≠ '+' ∧ c ≠ '-' := by
      intro c hc
      obtain ⟨d, ds, rfl⟩ := List.exists_cons_of_ne_nil hmantissa.ne_nil
      obtain rfl : d = c := by simpa using hc
      rcases hmantissa.digit_or_point d List.mem_cons_self with hdigit | rfl
      · exact ne_sign_of_isDigit hdigit
      · decide
    obtain ⟨flag, hcut, -⟩ := cutSign_append hsign hhead
    have hsome := parts?_isSome_of_shape Lexeme.isBase_decimal hmantissa hpower
    obtain ⟨parts, hparts⟩ := Option.isSome_iff_exists.mp hsome
    simp only [decimal?, hcut, hparts, Option.bind_eq_bind, Option.bind_some]
    split <;> rfl

/-- A decimal numeral is an integer if it is digits only and fits into a word. -/
theorem decimal?_eq_int_iff
    {cs : List Char}
    {value : Int64} :
    decimal? cs = some (.int value) ↔
      AreDigits Char.isDigit cs ∧ digitsValue 10 cs < 2 ^ 63 ∧
        value = Int64.ofNat (digitsValue 10 cs) := by
  constructor
  · intro h
    unfold decimal? at h
    generalize hcut : cutSign cs = cut at h
    obtain ⟨flag, unsigned⟩ := cut
    obtain ⟨sign, -, hcs, hnone⟩ := cutSign_spec hcut
    obtain ⟨parts, hparts, hvalue⟩ := Option.bind_eq_some_iff.mp h
    simp only at hparts hvalue
    split at hvalue
    · rename_i hint
      simp only [Bool.and_eq_true, Option.isNone_iff_eq_none, decide_eq_true_eq] at hint
      obtain ⟨⟨hflag, hplain⟩, hlimit⟩ := hint
      obtain rfl : cs = unsigned := by rw [hcs, hnone hflag, List.nil_append]
      obtain ⟨hdigits, hsame⟩ := (shape_of_parts? hparts).2 hplain
      rw [hsame] at hvalue hlimit
      exact ⟨hdigits, hlimit, (Number.int.inj (Option.some.inj hvalue)).symm⟩
    · cases hvalue
  · rintro ⟨hdigits, hlimit, rfl⟩
    exact decimal?_of_digits hdigits.ne_nil hdigits.all hlimit

/-- No character of a decimal numeral is the letter of a hexadecimal one. -/
theorem ne_letter_of_mem_decimal
    {sign mantissa power : List Char}
    (hsign : IsSign sign)
    (hmantissa : IsMantissa Char.isDigit mantissa)
    (hpower : IsPower (fun c => c == 'e' || c == 'E') power) :
    ∀ c ∈ sign ++ (mantissa ++ power), c ≠ 'x' ∧ c ≠ 'X' := by
  have hdigit : ∀ c, Char.isDigit c = true → c ≠ 'x' ∧ c ≠ 'X' := by
    intro c hc
    constructor <;> rintro rfl <;> exact absurd hc (by decide)
  have hsigns : ∀ sign, IsSign sign → ∀ c ∈ sign, c ≠ 'x' ∧ c ≠ 'X' := by
    rintro sign (rfl | rfl | rfl) c hc
    · cases hc
    · obtain rfl := List.mem_singleton.mp hc
      decide
    · obtain rfl := List.mem_singleton.mp hc
      decide
  intro c hc
  rcases List.mem_append.mp hc with hc | hc
  · exact hsigns sign hsign c hc
  rcases List.mem_append.mp hc with hc | hc
  · rcases hmantissa.digit_or_point c hc with hc | rfl
    · exact hdigit c hc
    · decide
  · cases hpower with
    | none => cases hc
    | some hmark hsign hdigits =>
        rcases List.mem_cons.mp hc with rfl | hc
        · constructor <;> rintro rfl <;> exact absurd hmark (by decide)
        · rcases List.mem_append.mp hc with hc | hc
          · exact hsigns _ hsign c hc
          · exact hdigit c (hdigits.all c hc)

/-- No decimal numeral starts as a hexadecimal one. -/
theorem decimal?_eq_none
    {letter : Char}
    (hletter : letter = 'x' ∨ letter = 'X')
    (cs : List Char) :
    decimal? ('0' :: letter :: cs) = none := by
  refine Option.not_isSome_iff_eq_none.mp fun h => ?_
  obtain ⟨sign, mantissa, power, hsign, hmantissa, hpower, hcs⟩ := (decimal?_isSome_iff _).mp h
  have hmem : letter ∈ sign ++ (mantissa ++ power) := by simp [← hcs]
  have hne := ne_letter_of_mem_decimal hsign hmantissa hpower letter hmem
  exact hletter.elim hne.1 hne.2

theorem eq_ofNat_iff
    {value : Int64}
    {n : Nat} :
    value = Int64.ofNat n ↔ value.toInt = Int.bmod n (2 ^ 64) := by
  rw [← Int64.toInt_inj, Int64.toInt_ofNat']
  rfl

theorem bmod_of_lt
    {n : Nat}
    (hn : n < 2 ^ 63) :
    Int.bmod n (2 ^ 64) = n :=
  Int.bmod_eq_of_le (by omega) (by omega)

end Numeral

namespace Number

open Numeral

/-- A number is read from the digits behind the letter of a hexadecimal numeral or from a decimal
numeral, and no text is both. -/
theorem ofNumeral?_eq_some_iff
    {numeral : List Char}
    {number : Number} :
    ofNumeral? numeral = some number ↔
      (∃ letter digits, (letter = 'x' ∨ letter = 'X') ∧ numeral = '0' :: letter :: digits ∧
        hex? digits = some number) ∨
      decimal? numeral = some number := by
  constructor
  · intro h
    unfold ofNumeral? at h
    split at h
    · exact .inl ⟨'x', _, .inl rfl, rfl, h⟩
    · exact .inl ⟨'X', _, .inr rfl, rfl, h⟩
    · exact .inr h
  · rintro (⟨letter, digits, rfl | rfl, rfl, h⟩ | h)
    · exact h
    · exact h
    · unfold ofNumeral?
      split
      · rw [decimal?_eq_none (.inl rfl)] at h
        cases h
      · rw [decimal?_eq_none (.inr rfl)] at h
        cases h
      · exact h

/-- The texts that have a value are the numerals of the grammar. -/
theorem ofNumeral?_isSome_iff (numeral : List Char) :
    (ofNumeral? numeral).isSome ↔ IsNumeral numeral := by
  rw [Option.isSome_iff_exists]
  constructor
  · rintro ⟨number, h⟩
    rcases ofNumeral?_eq_some_iff.mp h with ⟨letter, digits, hletter, rfl, hhex⟩ | hdecimal
    · obtain ⟨mantissa, power, hmantissa, hpower, rfl⟩ :=
        (hex?_isSome_iff digits).mp (Option.isSome_of_eq_some hhex)
      exact .hexadecimal hletter hmantissa hpower
    · obtain ⟨sign, mantissa, power, hsign, hmantissa, hpower, rfl⟩ :=
        (decimal?_isSome_iff numeral).mp (Option.isSome_of_eq_some hdecimal)
      exact .decimal hsign hmantissa hpower
  · intro h
    cases h with
    | hexadecimal hletter hmantissa hpower =>
        have hsome := (hex?_isSome_iff _).mpr ⟨_, _, hmantissa, hpower, rfl⟩
        obtain ⟨number, hhex⟩ := Option.isSome_iff_exists.mp hsome
        exact ⟨number, ofNumeral?_eq_some_iff.mpr (.inl ⟨_, _, hletter, rfl, hhex⟩)⟩
    | decimal hsign hmantissa hpower =>
        have hsome := (decimal?_isSome_iff _).mpr ⟨_, _, _, hsign, hmantissa, hpower, rfl⟩
        obtain ⟨number, hdecimal⟩ := Option.isSome_iff_exists.mp hsome
        exact ⟨number, ofNumeral?_eq_some_iff.mpr (.inr hdecimal)⟩

/-- The texts that have an integer value are those that denote it. -/
theorem ofNumeral?_eq_int_iff
    {numeral : List Char}
    {value : Int64} :
    ofNumeral? numeral = some (.int value) ↔ DenotesInteger numeral value := by
  rw [ofNumeral?_eq_some_iff]
  constructor
  · rintro (⟨letter, digits, hletter, rfl, hhex⟩ | hdecimal)
    · obtain ⟨hdigits, hvalue⟩ := hex?_eq_int_iff.mp hhex
      exact .hexadecimal hletter hdigits (eq_ofNat_iff.mp hvalue)
    · obtain ⟨hdigits, hlimit, hvalue⟩ := decimal?_eq_int_iff.mp hdecimal
      exact .decimal hdigits hlimit (bmod_of_lt hlimit ▸ eq_ofNat_iff.mp hvalue)
  · intro h
    cases h with
    | decimal hdigits hlimit hvalue =>
        refine .inr (decimal?_eq_int_iff.mpr ⟨hdigits, hlimit, eq_ofNat_iff.mpr ?_⟩)
        rw [hvalue, bmod_of_lt hlimit]
    | hexadecimal hletter hdigits hvalue =>
        exact .inl ⟨_, _, hletter, rfl, hex?_eq_int_iff.mpr ⟨hdigits, eq_ofNat_iff.mpr hvalue⟩⟩

/-- The texts that are read as a number are the numerals, the integers among them are exact, all
others are floats, and no numeral is too long for the words it is read in. -/
theorem ofNumeral?_exact (numeral : List Char) :
    ((ofNumeral? numeral).isSome ↔ IsNumeral numeral) ∧
    (∀ value, ofNumeral? numeral = some (.int value) ↔ DenotesInteger numeral value) ∧
    ((∃ value, ofNumeral? numeral = some (.float value)) ↔
      IsNumeral numeral ∧ ∀ value, ¬ DenotesInteger numeral value) ∧
    NumeralInWords.ofNumeral? numeral = .ok (ofNumeral? numeral) := by
  refine ⟨ofNumeral?_isSome_iff numeral, fun value => ofNumeral?_eq_int_iff, ⟨?_, ?_⟩,
    NumeralInWords.ofNumeral?_eq numeral⟩
  · rintro ⟨value, h⟩
    refine ⟨(ofNumeral?_isSome_iff numeral).mp (Option.isSome_of_eq_some h), fun n hn => ?_⟩
    rw [ofNumeral?_eq_int_iff.mpr hn] at h
    cases h
  · rintro ⟨hnumeral, hnotInteger⟩
    obtain ⟨number, h⟩ :=
      Option.isSome_iff_exists.mp ((ofNumeral?_isSome_iff numeral).mpr hnumeral)
    cases number with
    | int value => exact absurd (ofNumeral?_eq_int_iff.mp h) (hnotInteger value)
    | float value => exact ⟨value, h⟩

end Number
end LuaView
