import LuaView.Token.Lexeme
import Mathlib.Algebra.Group.Nat.Defs
import Mathlib.Data.List.TakeWhile

/-!
# Numbers read back

A numeral that denotes a number is one lexeme, as long as no character of a word and no point
stands behind it: all its characters are taken, and none of those that follow.  An integer that is
not negative is written with digits that denote it, and a float is written with a digit first if it
denotes anything.
-/

namespace LuaView

open CharClass (isHexDigit isWord digitsValue digitValue)

/-- The character may stand right behind a numeral. -/
def endsNumeral (c : Char) : Bool :=
  !isWord c && c != '.'

namespace CharClass

theorem isHexDigit_of_isDigit
    {c : Char}
    (h : c.isDigit = true) :
    isHexDigit c = true := by
  simp [isHexDigit, h]

theorem isWord_of_isHexDigit
    {c : Char}
    (h : isHexDigit c = true) :
    isWord c = true := by
  simp only [isHexDigit, Bool.or_eq_true, Bool.and_eq_true, decide_eq_true_eq] at h
  simp only [isWord, Char.isAlphanum]
  delta Char.isAlpha Char.isUpper Char.isLower
  simp only [Bool.or_eq_true, Bool.and_eq_true, decide_eq_true_eq]
  rcases h with (h | h) | h
  · exact .inl (.inr h)
  · refine .inl (.inl (.inr ⟨h.1, ?_⟩))
    exact Nat.le_trans (show c.toNat ≤ 'f'.toNat from h.2) (by decide)
  · refine .inl (.inl (.inl ⟨h.1, ?_⟩))
    exact Nat.le_trans (show c.toNat ≤ 'F'.toNat from h.2) (by decide)

end CharClass

open CharClass (isHexDigit_of_isDigit isWord_of_isHexDigit)

namespace Numeral

/-- Where a text is cut, and that it is cut at the first place possible. -/
theorem cutAt_spec
    (cls : Char → Bool)
    (cs : List Char) :
    (∀ c ∈ (cutAt cls cs).1, cls c = false) ∧
      match (cutAt cls cs).2 with
      | none => (cutAt cls cs).1 = cs
      | some after => ∃ mark, cls mark = true ∧ cs = (cutAt cls cs).1 ++ mark :: after := by
  have hsplit := List.takeWhile_append_dropWhile (p := fun c => !cls c) (l := cs)
  have htake : ∀ c ∈ cs.takeWhile (fun c => !cls c), cls c = false := by
    intro c hc
    simpa using List.all_eq_true.mp List.all_takeWhile c hc
  unfold cutAt
  cases hdrop : cs.dropWhile (fun c => !cls c) with
  | nil =>
      rw [hdrop, List.append_nil] at hsplit
      exact ⟨hsplit ▸ htake, rfl⟩
  | cons mark after =>
      rw [hdrop] at hsplit
      have hmark : cls mark = true := by
        have h := List.head?_dropWhile_not (fun c => !cls c) cs
        rw [hdrop] at h
        simpa using h
      exact ⟨htake, mark, hmark, hsplit.symm⟩

/-- A hexadecimal numeral that has a value has parts. -/
theorem parts?_of_hex?
    {cs : List Char}
    (h : (hex? cs).isSome) :
    (parts? isHexDigit (fun c => c == 'p' || c == 'P') cs).isSome := by
  unfold hex? at h
  exact Option.isSome_of_isSome_bind h

/-- A decimal numeral that starts with no sign. -/
theorem parts?_of_decimal?
    {first : Char}
    {cs : List Char}
    (hminus : first ≠ '-')
    (hplus : first ≠ '+')
    (h : (decimal? (first :: cs)).isSome) :
    (parts? Char.isDigit (fun c => c == 'e' || c == 'E') (first :: cs)).isSome := by
  have hsign : cutSign (first :: cs) = (none, first :: cs) := by
    unfold cutSign
    split
    · rename_i heq
      exact absurd (List.cons.inj heq).1 hminus
    · rename_i heq
      exact absurd (List.cons.inj heq).1 hplus
    · rfl
  unfold decimal? at h
  rw [hsign] at h
  exact Option.isSome_of_isSome_bind h

end Numeral

namespace Lexeme

section Tail

variable {isDigit isMark : Char → Bool}

/-- The digits and the marks of a base: marks are letters, digits are digits of base sixteen, and
no character is both. -/
structure IsBase (isDigit isMark : Char → Bool) : Prop where
  digit : ∀ c, isDigit c = true → isHexDigit c = true ∧ isMark c = false
  mark : ∀ c, isMark c = true → isWord c = true
  decimal : ∀ c, c.isDigit = true → isMark c = false

theorem isBase_hex : IsBase isHexDigit fun c => c == 'p' || c == 'P' := by
  refine ⟨fun c h => ⟨h, ?_⟩, fun c h => ?_, fun c h => ?_⟩
  · refine Bool.eq_false_iff.mpr fun hmark => ?_
    simp only [Bool.or_eq_true, beq_iff_eq] at hmark
    rcases hmark with rfl | rfl <;> revert h <;> decide
  · simp only [Bool.or_eq_true, beq_iff_eq] at h
    rcases h with rfl | rfl <;> decide
  · refine Bool.eq_false_iff.mpr fun hmark => ?_
    simp only [Bool.or_eq_true, beq_iff_eq] at hmark
    rcases hmark with rfl | rfl <;> revert h <;> decide

theorem isBase_decimal : IsBase Char.isDigit fun c => c == 'e' || c == 'E' := by
  refine ⟨fun c h => ⟨isHexDigit_of_isDigit h, ?_⟩, fun c h => ?_, fun c h => ?_⟩
  · refine Bool.eq_false_iff.mpr fun hmark => ?_
    simp only [Bool.or_eq_true, beq_iff_eq] at hmark
    rcases hmark with rfl | rfl <;> revert h <;> decide
  · simp only [Bool.or_eq_true, beq_iff_eq] at h
    rcases h with rfl | rfl <;> decide
  · refine Bool.eq_false_iff.mpr fun hmark => ?_
    simp only [Bool.or_eq_true, beq_iff_eq] at hmark
    rcases hmark with rfl | rfl <;> revert h <;> decide

/-- A run of digits and points is taken as a whole. -/
theorem numeralTail_run
    {cs : List Char}
    (h : ∀ c ∈ cs, isMark c = false ∧ (isHexDigit c = true ∨ c = '.'))
    (rest : List Char) :
    numeralTail isMark false (cs ++ rest) = cs ++ numeralTail isMark false rest := by
  induction cs with
  | nil => rfl
  | cons c cs ih =>
      obtain ⟨hmark, hdigit⟩ := h c List.mem_cons_self
      have hrest := ih fun d hd => h d (List.mem_cons_of_mem c hd)
      have hkept : (isHexDigit c || c == '.') = true := by
        rcases hdigit with hdigit | rfl <;> simp [*]
      simp only [List.cons_append, numeralTail, hmark, hkept, hrest, Bool.false_eq_true, if_false,
        if_true]

/-- A numeral ends in front of what can end it. -/
theorem numeralTail_end
    (hbase : IsBase isDigit isMark)
    {rest : List Char}
    (h : ∀ c ∈ rest.head?, endsNumeral c = true) :
    numeralTail isMark false rest = [] := by
  cases rest with
  | nil => rfl
  | cons c cs =>
      have hc := h c rfl
      simp only [endsNumeral, Bool.and_eq_true, Bool.not_eq_true', bne_iff_ne, ne_eq] at hc
      obtain ⟨hword, hpoint⟩ := hc
      have hmark : isMark c = false := by
        refine Bool.eq_false_iff.mpr fun hmark => ?_
        rw [hbase.mark c hmark] at hword
        cases hword
      have hdigit : isHexDigit c = false := by
        refine Bool.eq_false_iff.mpr fun hdigit => ?_
        rw [isWord_of_isHexDigit hdigit] at hword
        cases hword
      simp [numeralTail, hmark, hdigit, hpoint, hword]

/-- An exponent is taken as a whole behind its mark. -/
theorem numeralTail_exponent
    (hbase : IsBase isDigit isMark)
    {cs : List Char}
    (hcs : (Numeral.exponent? cs).isSome)
    (rest : List Char) :
    numeralTail isMark true (cs ++ rest) = cs ++ numeralTail isMark false rest := by
  have hrun : ∀ digits : List Char, digits.all Char.isDigit = true →
      numeralTail isMark false (digits ++ rest) = digits ++ numeralTail isMark false rest := by
    intro digits hdigits
    refine numeralTail_run (fun c hc => ?_) rest
    have hdigit := List.all_eq_true.mp hdigits c hc
    exact ⟨hbase.decimal c hdigit, .inl (isHexDigit_of_isDigit hdigit)⟩
  have hsigned : ∀ (sign : Char) (digits : List Char), sign = '-' ∨ sign = '+' →
      digits.all Char.isDigit = true →
      numeralTail isMark true (sign :: digits ++ rest) =
        sign :: digits ++ numeralTail isMark false rest := by
    intro sign digits hsign hdigits
    have hmark : isMark sign = false := by
      refine Bool.eq_false_iff.mpr fun hmark => ?_
      have hword := hbase.mark sign hmark
      rcases hsign with rfl | rfl <;> revert hword <;> decide
    have hhex : (isHexDigit sign || sign == '.') = false := by
      rcases hsign with rfl | rfl <;> decide
    have htaken : (true && (sign == '+' || sign == '-')) = true := by
      rcases hsign with rfl | rfl <;> decide
    simp only [List.cons_append, numeralTail, hmark, hhex, htaken, hrun digits hdigits,
      Bool.false_eq_true, if_false, if_true]
  obtain ⟨sign, digits, hcut, hdigits⟩ : ∃ sign digits, Numeral.cutSign cs = (sign, digits) ∧
      digits ≠ [] ∧ digits.all Char.isDigit = true := by
    refine ⟨(Numeral.cutSign cs).1, (Numeral.cutSign cs).2, rfl, ?_⟩
    unfold Numeral.exponent? at hcs
    simp only at hcs
    split at hcs
    · cases hcs
    · rename_i hdigits
      simpa using hdigits
  unfold Numeral.cutSign at hcut
  split at hcut
  · obtain ⟨rfl, rfl⟩ := Prod.mk.inj hcut
    exact hsigned '-' _ (.inl rfl) hdigits.2
  · obtain ⟨rfl, rfl⟩ := Prod.mk.inj hcut
    exact hsigned '+' _ (.inr rfl) hdigits.2
  · obtain ⟨rfl, rfl⟩ := Prod.mk.inj hcut
    cases cs with
    | nil => exact absurd rfl hdigits.1
    | cons c cs =>
        obtain ⟨hc, hcs'⟩ : c.isDigit = true ∧ cs.all Char.isDigit = true := by
          simpa using hdigits.2
        have hkept : (isHexDigit c || c == '.') = true := by simp [isHexDigit_of_isDigit hc]
        simp only [List.cons_append, numeralTail, hbase.decimal c hc, hkept, hrun cs hcs',
          Bool.false_eq_true, if_false, if_true]

/-- A numeral of a base is taken, and then what goes on like one. -/
theorem numeralTail_append
    (hbase : IsBase isDigit isMark)
    {cs : List Char}
    (hcs : (Numeral.parts? isDigit isMark cs).isSome)
    (rest : List Char) :
    numeralTail isMark false (cs ++ rest) = cs ++ numeralTail isMark false rest := by
  obtain ⟨hmantissa, hpower⟩ := Numeral.cutAt_spec isMark cs
  obtain ⟨_, hpoint⟩ := Numeral.cutAt_spec (· == '.') (Numeral.cutAt isMark cs).1
  unfold Numeral.parts? at hcs
  simp only at hcs
  split at hcs
  · cases hcs
  rename_i hdigits
  split at hcs
  · cases hcs
  rename_i hexponent
  generalize Numeral.cutAt isMark cs = cut at *
  obtain ⟨mantissa, power⟩ := cut
  generalize Numeral.cutAt (· == '.') mantissa = cut at *
  obtain ⟨whole, fraction⟩ := cut
  simp only [Numeral.Parts.digits, Bool.or_eq_true, not_or, Bool.not_eq_true,
    List.isEmpty_eq_false_iff, Bool.not_eq_false', List.all_append, Bool.and_eq_true] at hdigits
  -- the digits on both sides of the point are all there is in the mantissa
  have hrun : ∀ c ∈ mantissa, isMark c = false ∧ (isHexDigit c = true ∨ c = '.') := by
    intro c hc
    refine ⟨hmantissa c hc, ?_⟩
    have hwhole : ∀ d ∈ whole, isHexDigit d = true := fun d hd =>
      (hbase.digit d (List.all_eq_true.mp hdigits.2.1 d hd)).1
    cases fraction with
    | none =>
        have hsame : whole = mantissa := hpoint
        exact .inl (hwhole c (hsame ▸ hc))
    | some fraction =>
        obtain ⟨point, hdot, rfl⟩ := hpoint
        rcases List.mem_append.mp hc with hc | hc
        · exact .inl (hwhole c hc)
        · rcases List.mem_cons.mp hc with rfl | hc
          · exact .inr (by simpa using hdot)
          · exact .inl (hbase.digit c (List.all_eq_true.mp hdigits.2.2 c hc)).1
  cases power with
  | none =>
      obtain rfl : mantissa = cs := hpower
      exact numeralTail_run hrun rest
  | some power =>
      obtain ⟨mark, hmark, rfl⟩ := hpower
      have hsome : (Numeral.exponent? power).isSome := by
        simpa [Option.isSome_iff_ne_none] using hexponent
      rw [List.append_assoc, numeralTail_run hrun, List.cons_append, numeralTail, if_pos hmark,
        numeralTail_exponent hbase hsome, List.append_assoc, List.cons_append]

/-- A numeral of a base is taken as a whole. -/
theorem numeralTail_of_parts
    (hbase : IsBase isDigit isMark)
    {cs : List Char}
    (hcs : (Numeral.parts? isDigit isMark cs).isSome)
    {rest : List Char}
    (hrest : ∀ c ∈ rest.head?, endsNumeral c = true) :
    numeralTail isMark false (cs ++ rest) = cs := by
  rw [numeralTail_append hbase hcs, numeralTail_end hbase hrest, List.append_nil]

end Tail

/-- A numeral that denotes a number and starts with a digit is one spelling. -/
theorem numeralSpelling_of_isSome
    {first : Char}
    {cs rest : List Char}
    (hfirst : first.isDigit = true)
    (h : (Number.ofNumeral? (first :: cs)).isSome)
    (hrest : ∀ c ∈ rest.head?, endsNumeral c = true) :
    numeralSpelling first (cs ++ rest) = first :: cs := by
  have hex : ∀ {digits : List Char}, (Numeral.hex? digits).isSome →
      numeralTail (fun c => c == 'p' || c == 'P') false (digits ++ rest) = digits := by
    intro digits hdigits
    exact numeralTail_of_parts isBase_hex (Numeral.parts?_of_hex? hdigits) hrest
  have hdecimal : (Numeral.decimal? (first :: cs)).isSome →
      first :: numeralTail (fun c => c == 'e' || c == 'E') false (cs ++ rest) = first :: cs := by
    intro hdigits
    have hminus : first ≠ '-' := by
      rintro rfl
      exact absurd hfirst (by decide)
    have hplus : first ≠ '+' := by
      rintro rfl
      exact absurd hfirst (by decide)
    have hparts := Numeral.parts?_of_decimal? hminus hplus hdigits
    have htail := numeralTail_of_parts isBase_decimal hparts hrest
    have hkept : (isHexDigit first || first == '.') = true := by
      simp [isHexDigit_of_isDigit hfirst]
    rw [List.cons_append, numeralTail, isBase_decimal.decimal first hfirst, hkept] at htail
    simpa using htail
  unfold Number.ofNumeral? at h
  split at h
  · rename_i digits heq
    obtain ⟨rfl, rfl⟩ := List.cons.inj heq
    simp only [numeralSpelling, List.cons_append, hex h]
  · rename_i digits heq
    obtain ⟨rfl, rfl⟩ := List.cons.inj heq
    simp only [numeralSpelling, List.cons_append, hex h]
  · rename_i hx hX
    -- the letter of base sixteen is neither in the numeral nor behind it
    have hbehind : ∀ letter more, isWord letter = true → cs ++ rest = letter :: more →
        ∃ digits, cs = letter :: digits := by
      intro letter more hletter hmore
      cases cs with
      | nil =>
          rw [List.nil_append] at hmore
          have hends := hrest letter (by rw [hmore]; rfl)
          simp [endsNumeral, hletter] at hends
      | cons c cs =>
          obtain ⟨rfl, _⟩ := List.cons.inj hmore
          exact ⟨cs, rfl⟩
    unfold numeralSpelling
    split
    · rename_i more hmore
      obtain ⟨digits, rfl⟩ := hbehind 'x' more (by decide) hmore
      exact absurd rfl (hx digits)
    · rename_i more hmore
      obtain ⟨digits, rfl⟩ := hbehind 'X' more (by decide) hmore
      exact absurd rfl (hX digits)
    · exact hdecimal h

end Lexeme
namespace Numeral

theorem cutAt_of_forall
    {cls : Char → Bool}
    {cs : List Char}
    (h : ∀ c ∈ cs, cls c = false) :
    cutAt cls cs = (cs, none) := by
  have hdrop : cs.dropWhile (fun c => !cls c) = [] :=
    List.dropWhile_eq_nil_iff.mpr fun c hc => by simp [h c hc]
  unfold cutAt
  rw [hdrop]

/-- The value of decimal digits is that of the library. -/
theorem digitsValue_eq_ofDigitChars
    {cs : List Char}
    (h : ∀ c ∈ cs, c.isDigit = true) :
    digitsValue 10 cs = Nat.ofDigitChars 10 cs 0 := by
  unfold digitsValue Nat.ofDigitChars
  generalize (0 : Nat) = value
  induction cs generalizing value with
  | nil => rfl
  | cons c cs ih =>
      have hc := h c List.mem_cons_self
      rw [List.foldl_cons, List.foldl_cons, ih fun d hd => h d (List.mem_cons_of_mem c hd)]
      simp [digitValue, hc]

/-- The digits of a number in base ten stand for the number. -/
theorem digitsValue_toDigits_ten (n : Nat) :
    digitsValue 10 (Nat.toDigits 10 n) = n := by
  have hdigits : ∀ c ∈ Nat.toDigits 10 n, c.isDigit = true :=
    fun _ hc => Nat.isDigit_of_mem_toDigits (by decide) (by decide) hc
  rw [digitsValue_eq_ofDigitChars hdigits, Nat.ofDigitChars_ten_toDigits]

/-- Digits have no sign in front of them. -/
theorem cutSign_of_digits
    {cs : List Char}
    (hdigits : ∀ c ∈ cs, c.isDigit = true) :
    cutSign cs = (none, cs) := by
  unfold cutSign
  split
  · exact absurd (hdigits '-' List.mem_cons_self) (by decide)
  · exact absurd (hdigits '+' List.mem_cons_self) (by decide)
  · rfl

/-- Digits alone have neither point nor exponent. -/
theorem parts?_of_digits
    {isDigit isMark : Char → Bool}
    (hbase : Lexeme.IsBase isDigit isMark)
    {cs : List Char}
    (hnonempty : cs ≠ [])
    (hdigits : ∀ c ∈ cs, isDigit c = true) :
    parts? isDigit isMark cs = some ⟨cs, none, none⟩ := by
  have hmark : cutAt isMark cs = (cs, none) :=
    cutAt_of_forall fun c hc => (hbase.digit c (hdigits c hc)).2
  have hpoint : cutAt (· == '.') cs = (cs, none) := by
    refine cutAt_of_forall fun c hc => beq_false_of_ne ?_
    rintro rfl
    exact absurd (hbase.digit '.' (hdigits '.' hc)).1 (by decide)
  simp [parts?, hmark, hpoint, Parts.digits, hnonempty]
  exact hdigits

/-- Digits that stand for less than `2 ^ 63` denote an integer. -/
theorem decimal?_of_digits
    {cs : List Char}
    (hnonempty : cs ≠ [])
    (hdigits : ∀ c ∈ cs, c.isDigit = true)
    (hlimit : digitsValue 10 cs < 2 ^ 63) :
    decimal? cs = some (.int (Int64.ofNat (digitsValue 10 cs))) := by
  have hbelow : decide (digitsValue 10 cs < 2 ^ 63) = true := decide_eq_true hlimit
  simp only [decimal?, cutSign_of_digits hdigits,
    parts?_of_digits Lexeme.isBase_decimal hnonempty hdigits, Parts.digits, Parts.isPlain,
    Option.getD_none, List.append_nil, hbelow, Option.bind_eq_bind, Option.bind_some,
    Option.isNone_none, Bool.and_self, if_true]
  rfl

end Numeral

namespace Significant

theorem isDigit_of_mem_trimmed
    {decimal : Significant}
    {c : Char}
    (hc : c ∈ decimal.trimmed) :
    c.isDigit = true := by
  have hmem := (List.dropWhile_sublist _).mem (List.mem_reverse.mp hc)
  exact Nat.isDigit_of_mem_toDigits (by decide) (by decide) (List.mem_reverse.mp hmem)

theorem head_positional
    {decimal : Significant}
    {c : Char}
    (hc : c ∈ decimal.positional.head?) :
    c.isDigit = true := by
  unfold positional at hc
  split at hc
  · obtain rfl : '0' = c := by simpa using hc
    decide
  · cases htrimmed : decimal.trimmed with
    | nil =>
        obtain rfl : '0' = c := by simpa [htrimmed, List.replicate_succ] using hc
        decide
    | cons d ds =>
        obtain rfl : d = c := by simpa [htrimmed] using hc
        exact isDigit_of_mem_trimmed (htrimmed ▸ List.mem_cons_self)

theorem head_scientific
    {decimal : Significant}
    {c : Char}
    (hc : c ∈ decimal.scientific.head?) :
    c.isDigit = true ∨ c = 'e' := by
  unfold scientific at hc
  cases htrimmed : decimal.trimmed with
  | nil =>
      obtain rfl : 'e' = c := by simpa [htrimmed] using hc
      exact .inr rfl
  | cons d ds =>
      obtain rfl : d = c := by simpa [htrimmed] using hc
      exact .inl (isDigit_of_mem_trimmed (htrimmed ▸ List.mem_cons_self))

end Significant

namespace Number

/-- The text of a number starts with a digit and denotes the number. -/
structure ReadsBack (value : Number) : Prop where
  denotes : ofNumeral? value.text.toList = some value
  digit : ∀ c ∈ value.text.toList.head?, c.isDigit = true

/-- Digits below the bound of a word are an integer. -/
theorem ofNumeral?_of_digits
    {cs : List Char}
    (hnonempty : cs ≠ [])
    (hdigits : ∀ c ∈ cs, c.isDigit = true)
    (hlimit : digitsValue 10 cs < 2 ^ 63) :
    ofNumeral? cs = some (.int (Int64.ofNat (digitsValue 10 cs))) := by
  unfold ofNumeral?
  split
  · exact absurd (hdigits 'x' (by simp)) (by decide)
  · exact absurd (hdigits 'X' (by simp)) (by decide)
  · exact Numeral.decimal?_of_digits hnonempty hdigits hlimit

/-- An integer is written with the digits of its magnitude, behind a minus if it is negative. -/
theorem toList_repr (value : Int) :
    value.repr.toList = (if value < 0 then ['-'] else []) ++ Nat.toDigits 10 value.natAbs := by
  cases value with
  | ofNat n => exact Nat.toList_repr
  | negSucc n =>
      have hrepr : (Int.negSucc n).repr.toList = '-' :: (Nat.repr (n + 1)).toList :=
        String.toList_append
      rw [hrepr, Nat.toList_repr, if_pos (Int.negSucc_lt_zero n)]
      rfl

/-- An integer that is not negative is written with the digits of a number below `2 ^ 63`. -/
theorem text_int
    {value : Int64}
    (h : 0 ≤ value.toInt) :
    ∃ n, n < 2 ^ 63 ∧ value = Int64.ofNat n ∧
      (Number.int value).text.toList = Nat.toDigits 10 n := by
  obtain ⟨n, hn⟩ := Int.eq_ofNat_of_zero_le h
  have hbound : n < 2 ^ 63 := by
    have hlt := value.toInt_lt
    omega
  refine ⟨n, hbound, ?_, ?_⟩
  · rw [← Int64.toInt_inj, Int64.toInt_ofNat_of_lt hbound, hn]
  · change value.toInt.repr.toList = _
    rw [hn]
    exact Nat.toList_repr

theorem isDigit_of_mem_text_int
    {value : Int64}
    (h : 0 ≤ value.toInt)
    {c : Char}
    (hc : c ∈ (Number.int value).text.toList) :
    c.isDigit = true := by
  obtain ⟨n, -, -, htext⟩ := text_int h
  rw [htext] at hc
  exact Nat.isDigit_of_mem_toDigits (by decide) (by decide) hc

/-- An integer that is not negative reads back as itself. -/
theorem readsBack_int
    {value : Int64}
    (h : 0 ≤ value.toInt) :
    ReadsBack (.int value) := by
  have hdigits : ∀ c ∈ (Number.int value).text.toList, c.isDigit = true :=
    fun c hc => isDigit_of_mem_text_int h hc
  refine ⟨?_, fun c hc => hdigits c (List.mem_of_mem_head? hc)⟩
  obtain ⟨n, hbound, rfl, htext⟩ := text_int h
  rw [htext] at hdigits ⊢
  have hvalue := Numeral.digitsValue_toDigits_ten n
  rw [ofNumeral?_of_digits Nat.toDigits_ne_nil hdigits (by rw [hvalue]; exact hbound), hvalue]

/-- The first character of a float that is not negative is no sign and no point. -/
theorem head_text_float
    {value : Binary64}
    (hfinite : value.isFinite = true)
    (hsign : value.isNegative = false)
    {c : Char}
    (hc : c ∈ value.text.head?) :
    c.isDigit = true ∨ c = 'e' := by
  have hnan : value.isNaN = false := by
    simp only [Binary64.isFinite, Binary64.isNaN, decide_eq_true_eq, decide_eq_false_iff_not]
      at hfinite ⊢
    omega
  have hinfinite : value.isInfinite = false := by
    simp only [Binary64.isFinite, Binary64.isInfinite, decide_eq_true_eq, beq_eq_false_iff_ne]
      at hfinite ⊢
    omega
  have htext : value.text = value.magnitudeText := by
    simp [Binary64.text, hnan, hsign]
  rw [htext, Binary64.magnitudeText, if_neg (by simp [hinfinite])] at hc
  split at hc
  · obtain rfl : '0' = c := by simpa using hc
    exact .inl (by decide)
  · simp only at hc
    split at hc
    · exact Significant.head_scientific hc
    · exact .inl (Significant.head_positional hc)

/-- A finite float that is not negative reads back as itself if its text has its value. -/
theorem readsBack_float
    {value : Binary64}
    (hfinite : value.isFinite = true)
    (hsign : value.isNegative = false)
    (h : ofNumeral? value.text = some (.float value)) :
    ReadsBack (.float value) := by
  have htext : (Number.float value).text.toList = value.text := String.toList_ofList
  refine ⟨by rw [htext, h], fun c hc => ?_⟩
  rw [htext] at hc
  rcases head_text_float hfinite hsign hc with hdigit | rfl
  · exact hdigit
  · -- a text that starts with an exponent has no digits in front of it
    obtain ⟨cs, hcs⟩ : ∃ cs, value.text = 'e' :: cs := by
      cases htext' : value.text with
      | nil => simp [htext'] at hc
      | cons d ds =>
          rw [htext'] at hc
          obtain rfl : d = 'e' := by simpa using hc
          exact ⟨ds, rfl⟩
    rw [hcs] at h
    simp [ofNumeral?, Numeral.decimal?, Numeral.cutSign, Numeral.parts?, Numeral.cutAt,
      Numeral.Parts.digits] at h

end Number
end LuaView
