import LuaView.Proofs.Lexing.Marks
import LuaView.Proofs.Number.NumeralGrammar

/-!
# Literals written back

What the lexer makes of a string literal between its delimiters, and of an integer in decimal.

A string literal is read back as one token of its kind.  Its text is the same, except that a long
bracket leaves out a line break right behind its opening, also one that the literal had kept because
another line break stood in front of it.

An integer that is not negative is one numeral, which denotes the integer.  A negative one is a
minus sign and the numeral of its absolute value.  The least integer has none of its own size: its
absolute value is read as a float.
-/

namespace LuaView

-- powers are those of the core library, also where there are others
attribute [local instance (high)] instPowNat

/-- A valid mark that stands alone. -/
theorem Lexed.singleton
    {mark : Mark}
    (hmark : mark.Valid) :
    Lexed mark.spelling [mark] := by
  rw [← List.append_nil mark.spelling]
  exact Lexed.mark hmark (fun c hc => by cases hc) .nil

/-! ## Strings -/

namespace Delimiter

/-- The front of a text that is not read back from between the delimiters. -/
def lost (delimiter : Delimiter) (text : List Char) : List Char :=
  match delimiter with
  | .single | .double => []
  | .long => LongBracket.leadingBreak text

/-- A literal text is cut into one mark between its delimiters. -/
theorem lexed_quote
    {delimiter : Delimiter}
    {text : String}
    {spelling : List Char}
    (h : (Kind.string delimiter).Spells text.toList spelling) :
    ∃ again : String, text.toList = delimiter.lost text.toList ++ again.toList ∧
      Lexed (delimiter.quote text).toList [⟨.string delimiter, again⟩] := by
  cases delimiter with
  | single => exact ⟨text, rfl, @Lexed.singleton ⟨.string .single, text⟩ h.1⟩
  | double => exact ⟨text, rfl, @Lexed.singleton ⟨.string .double, text⟩ h.1⟩
  | long =>
      obtain ⟨first, cs, lexeme, hfront, hread, hkind, htext, hspelling⟩ :=
        Lexeme.read_long text.toList []
      refine ⟨String.ofList lexeme.text, ?_, ?_⟩
      · rw [String.toList_ofList, htext]
        exact (LongBracket.leadingBreak_append_drop text.toList).symm
      · rw [List.append_nil] at hfront
        have hquote : (Delimiter.long.quote text).toList = first :: cs := by
          rw [quote, String.toList_ofList, hfront]
        have hgap := Lexeme.gap_long text.toList []
        rw [List.append_nil, hfront] at hgap
        have hbehind : (first :: cs).drop lexeme.spelling.length = [] := by
          rw [hspelling, hfront, List.drop_length]
        rw [hquote, ← hkind]
        exact .next (by rw [hgap]; rfl) hread (by rw [hbehind]; exact .nil)

theorem head_quote
    (delimiter : Delimiter)
    (text : String) :
    (delimiter.quote text).toList.head? ≠ some '#' := by
  cases delimiter <;> simp [quote, LongBracket.quote, LongBracket.opening]

end Delimiter

/-- A string literal between its delimiters is read back as one token of its kind, with its text
but for the line break that is lost. -/
theorem tokenize_quote
    {source : String}
    {tokens : List Token}
    (h : tokenize source = .ok tokens)
    {token : Token}
    (htoken : token ∈ tokens)
    {delimiter : Delimiter}
    (hkind : token.kind = .string delimiter) :
    ∃ again last, tokenize (delimiter.quote token.text) = .ok [again, Token.eof last] ∧
      again.kind = .string delimiter ∧
      token.text.toList = delimiter.lost token.text.toList ++ again.text.toList := by
  have hspells := (partition_of_tokenize h).spelled token htoken
  rw [hkind] at hspells
  obtain ⟨text, hsplit, hlexed⟩ := Delimiter.lexed_quote hspells
  obtain ⟨words, last, htokens, hwords⟩ :=
    tokenize_of_lexed hlexed (Delimiter.head_quote delimiter token.text)
  obtain ⟨again, rfl, hmark⟩ := List.map_eq_singleton_iff.mp hwords
  obtain ⟨hagain, rfl⟩ := Mark.mk.inj hmark
  rw [String.ofList_toList] at htokens
  exact ⟨again, last, htokens, hagain, hsplit⟩

/-- The text starts with a line break, and it holds the closing brackets of two levels, the second
one across its end. -/
theorem tokenize_quote_brackets :
    ∃ tokens token, tokenize "return [==[\n\n]]a]=]==]" = .ok tokens ∧ token ∈ tokens ∧
      token.kind = .string .long ∧
      ∃ again last, tokenize (Delimiter.long.quote token.text) = .ok [again, Token.eof last] ∧
        again.kind = .string .long ∧
        token.text.toList = Delimiter.long.lost token.text.toList ++ again.text.toList := by
  have hfind : (tokenize "return [==[\n\n]]a]=]==]").map
      (fun tokens => decide (∃ token ∈ tokens, token.kind = .string .long)) = .ok true := by
    decide +kernel
  cases htokens : tokenize "return [==[\n\n]]a]=]==]" with
  | error error =>
      rw [htokens] at hfind
      cases hfind
  | ok tokens =>
      rw [htokens] at hfind
      obtain ⟨token, htoken, hkind⟩ := of_decide_eq_true (Except.ok.inj hfind)
      exact ⟨tokens, token, rfl, htoken, hkind, tokenize_quote htokens htoken hkind⟩

/-- A string literal that is written between its delimiters can lose a line break. -/
theorem long_quote_loses_lineBreak :
    ∃ tokens token, tokenize "return [[\n\nx]]" = .ok tokens ∧ token ∈ tokens ∧
      token.kind = .string .long ∧
      ¬ ∃ again last, tokenize (Delimiter.long.quote token.text) = .ok [again, Token.eof last] ∧
        again.kind = .string .long ∧ again.text = token.text := by
  have hfind : (tokenize "return [[\n\nx]]").map
      (fun tokens => decide (∃ token ∈ tokens, token.mark = ⟨.string .long, "\nx"⟩)) =
        .ok true := by
    decide +kernel
  have hagain : (tokenize (Delimiter.long.quote "\nx")).map (fun tokens => tokens.map Token.mark) =
      .ok [⟨.string .long, "x"⟩, ⟨.eof, ""⟩] := by
    decide +kernel
  cases htokens : tokenize "return [[\n\nx]]" with
  | error error =>
      rw [htokens] at hfind
      cases hfind
  | ok tokens =>
      rw [htokens] at hfind
      obtain ⟨token, htoken, hmark⟩ := of_decide_eq_true (Except.ok.inj hfind)
      obtain ⟨hkind, htext⟩ := Mark.mk.inj hmark
      refine ⟨tokens, token, rfl, htoken, hkind, ?_⟩
      rintro ⟨again, last, hquote, -, hsame⟩
      rw [htext] at hquote hsame
      rw [hquote] at hagain
      obtain ⟨hfirst, -⟩ := List.cons.inj (Except.ok.inj hagain)
      have hx : "\nx" = "x" := hsame.symm.trans (Mark.mk.inj hfirst).2
      exact absurd hx (by decide)

/-! ## Integers -/

namespace Number

/-- Decimal digits are a numeral that can be written. -/
theorem valid_of_digits
    {digits : List Char}
    (h : Numeral.AreDigits Char.isDigit digits) :
    Mark.Valid ⟨.number, String.ofList digits⟩ := by
  have hnumeral : Numeral.IsNumeral ([] ++ (digits ++ [])) :=
    .decimal (.inl rfl) (.whole h) .none
  rw [List.nil_append, List.append_nil] at hnumeral
  refine ⟨?_, ?_⟩
  · rw [String.toList_ofList]
    exact (ofNumeral?_isSome_iff digits).mpr hnumeral
  · rw [String.toList_ofList]
    exact fun c hc => h.all c (List.mem_of_mem_head? hc)

theorem areDigits_toDigits (n : Nat) :
    Numeral.AreDigits Char.isDigit (Nat.toDigits 10 n) :=
  ⟨Nat.toDigits_ne_nil, fun _ hc => Nat.isDigit_of_mem_toDigits (by decide) (by decide) hc⟩

/-- A negative integer is written as a minus sign and the digits of its absolute value. -/
theorem text_int_of_neg
    {value : Int64}
    (h : value.toInt < 0) :
    (Number.int value).text.toList = '-' :: Nat.toDigits 10 value.toInt.natAbs := by
  change value.toInt.repr.toList = _
  rw [toList_repr, if_pos h]
  rfl

/-- The digits of a number above all integers are read as a float. -/
theorem ofNumeral?_two_pow_63 :
    ofNumeral? (Nat.toDigits 10 (2 ^ 63)) = some (.float ⟨0x43E0000000000000⟩) := by
  decide +kernel

/-- The absolute value of a negative integer is an integer or `2 ^ 63`. -/
theorem ofNumeral?_natAbs
    {value : Int64}
    (h : value.toInt < 0) :
    ofNumeral? (Nat.toDigits 10 value.toInt.natAbs) =
      if value = Int64.minValue then some (.float ⟨0x43E0000000000000⟩)
      else some (.int (-value)) := by
  have hlow := value.le_toInt
  split
  · rename_i hleast
    have habs : value.toInt.natAbs = 2 ^ 63 := by rw [hleast, Int64.toInt_minValue]; rfl
    rw [habs, ofNumeral?_two_pow_63]
  · rename_i hleast
    have hne : value.toInt ≠ -2 ^ 63 := fun heq =>
      hleast (Int64.toInt_inj.mp (heq.trans Int64.toInt_minValue.symm))
    have hlimit : value.toInt.natAbs < 2 ^ 63 := by omega
    have hdigits := areDigits_toDigits value.toInt.natAbs
    have hvalue := Numeral.digitsValue_toDigits_ten value.toInt.natAbs
    have hneg : Int64.ofNat value.toInt.natAbs = -value := by
      rw [← Int64.toInt_inj, Int64.toInt_ofNat_of_lt hlimit, Int64.toInt_neg,
        Int.bmod_eq_of_le (by omega) (by omega)]
      omega
    rw [ofNumeral?_of_digits hdigits.ne_nil hdigits.all (by rw [hvalue]; exact hlimit), hvalue,
      hneg]

/-- An integer in decimal is read back as one numeral that denotes it, if it is not negative, and
otherwise as a minus sign and the numeral of its absolute value. -/
theorem tokenize_text_int (value : Int64) :
    (0 ≤ value.toInt → ∃ numeral last,
      tokenize (Number.int value).text = .ok [numeral, Token.eof last] ∧
      numeral.kind = .number ∧ ofNumeral? numeral.text.toList = some (.int value)) ∧
    (value.toInt < 0 → ∃ minus numeral last,
      tokenize (Number.int value).text = .ok [minus, numeral, Token.eof last] ∧
      minus.kind = .symbol .minus ∧ numeral.kind = .number ∧
      numeral.text.toList = Nat.toDigits 10 value.toInt.natAbs ∧
      ofNumeral? numeral.text.toList =
        if value = Int64.minValue then some (.float ⟨0x43E0000000000000⟩)
        else some (.int (-value))) := by
  constructor
  · intro hvalue
    obtain ⟨hdenotes, hdigit⟩ := readsBack_int hvalue
    have hlexed := @Lexed.singleton ⟨.number, (Number.int value).text⟩
      ⟨Option.isSome_of_eq_some hdenotes, hdigit⟩
    have hhead : (Number.int value).text.toList.head? ≠ some '#' := fun heq =>
      absurd (hdigit '#' heq) (by decide)
    obtain ⟨words, last, htokens, hwords⟩ := tokenize_of_lexed hlexed hhead
    obtain ⟨numeral, rfl, hmark⟩ := List.map_eq_singleton_iff.mp hwords
    obtain ⟨hkind, htext⟩ := Mark.mk.inj hmark
    refine ⟨numeral, last, ?_, hkind, htext ▸ hdenotes⟩
    rwa [Mark.spelling, String.ofList_toList] at htokens
  · intro hvalue
    have hdigits := areDigits_toDigits value.toInt.natAbs
    have hnumeral := Lexed.singleton (valid_of_digits hdigits)
    have hminus : Lexed ('-' :: Nat.toDigits 10 value.toInt.natAbs)
        [Mark.sign .minus, ⟨.number, String.ofList (Nat.toDigits 10 value.toInt.natAbs)⟩] := by
      rw [Mark.spelling, String.toList_ofList] at hnumeral
      refine @Lexed.mark (Mark.sign .minus) rfl _ (fun c hc => ?_) _ hnumeral
      have hdigit := hdigits.all c (List.mem_of_mem_head? hc)
      simpa [Mark.allows, Mark.sign, Mark.signAllows] using (Numeral.ne_sign_of_isDigit hdigit).2
    obtain ⟨words, last, htokens, hwords⟩ := tokenize_of_lexed hminus (by simp)
    obtain ⟨minus, more, rfl, hminusMark, hmore⟩ := List.map_eq_cons_iff.mp hwords
    obtain ⟨numeral, rfl, hmark⟩ := List.map_eq_singleton_iff.mp hmore
    obtain ⟨hkind, htext⟩ := Mark.mk.inj hmark
    have hchars : numeral.text.toList = Nat.toDigits 10 value.toInt.natAbs := by
      rw [htext, String.toList_ofList]
    refine ⟨minus, numeral, last, ?_, (Mark.mk.inj hminusMark).1, hkind, hchars, ?_⟩
    · rwa [← text_int_of_neg hvalue, String.ofList_toList] at htokens
    · rw [hchars, ofNumeral?_natAbs hvalue]

/-- The least integer is read back as a minus sign and a float. -/
theorem tokenize_text_int_least :
    Int64.minValue.toInt < 0 ∧ ∃ minus numeral last,
      tokenize (Number.int Int64.minValue).text = .ok [minus, numeral, Token.eof last] ∧
      minus.kind = .symbol .minus ∧ numeral.kind = .number ∧
      numeral.text.toList = Nat.toDigits 10 Int64.minValue.toInt.natAbs ∧
      ofNumeral? numeral.text.toList = some (.float ⟨0x43E0000000000000⟩) := by
  have hneg : Int64.minValue.toInt < 0 := by decide
  obtain ⟨minus, numeral, last, htokens, hminus, hkind, hchars, hnumeral⟩ :=
    (tokenize_text_int Int64.minValue).2 hneg
  rw [if_pos rfl] at hnumeral
  exact ⟨hneg, minus, numeral, last, htokens, hminus, hkind, hchars, hnumeral⟩

/-- A hexadecimal numeral can denote a negative integer, which is not written as one numeral. -/
theorem negative_int_splits :
    ¬ ∀ (numeral : List Char) (value : Int64), ofNumeral? numeral = some (.int value) →
      ∃ token last, tokenize (Number.int value).text = .ok [token, Token.eof last] ∧
        token.kind = .number ∧ ofNumeral? token.text.toList = some (.int value) := by
  intro h
  have hvalue : ofNumeral? "0xffffffffffffffff".toList = some (.int (-1)) := by decide +kernel
  have hlength : (tokenize (Number.int (-1)).text).map List.length = .ok 3 := by decide +kernel
  obtain ⟨token, last, htokens, -⟩ := h _ _ hvalue
  rw [htokens] at hlength
  cases hlength

end Number
end LuaView
