import LuaView.Proofs.Lexing.Positions
import LuaView.Proofs.Lexing.Relayout

/-!
# Longest matches

`IsLexeme` says without a reader which texts are lexemes.  A token is the longest lexeme that begins
where it begins.  For each kind of lexeme, what starts with one is read as something at least as
long; a numeral is longest because it denotes a number together with all that would be taken with
it, so nothing that could go on like a numeral stands behind it.
-/

namespace LuaView

/-- What stands between two quotes: characters other than a quote, a line break and a backslash, and
backslashes with what they take along. -/
inductive QuotedText (quote : Char) : List Char → Prop
  | nil :
      QuotedText quote []
  | plain
      {c : Char} {cs : List Char}
      (hquote : c ≠ quote)
      (hbreak : c ≠ '\n' ∧ c ≠ '\r')
      (hslash : c ≠ '\\')
      (hcs : QuotedText quote cs) :
      QuotedText quote (c :: cs)
  | escape
      {c : Char} {cs : List Char}
      (hletter : c ≠ 'z')
      (hcs : QuotedText quote cs) :
      QuotedText quote ('\\' :: c :: cs)
  | skip
      {blanks cs : List Char}
      (hblanks : ∀ c ∈ blanks, isBlank c = true)
      (hcs : QuotedText quote cs) :
      QuotedText quote ('\\' :: 'z' :: (blanks ++ cs))

/-- The lexemes of the language. -/
inductive IsLexeme : List Char → Prop
  | word
      {cs : List Char}
      (hword : isIdentifier cs = true) :
      IsLexeme cs
  | numeral
      {first : Char} {cs : List Char}
      (hstart : Lexeme.startsNumeral first cs = true)
      (hvalue : (Number.ofNumeral? (first :: cs)).isSome) :
      IsLexeme (first :: cs)
  | symbol (symbol : Symbol) :
      IsLexeme symbol.text.toList
  | quoted
      {quote : Char} {text : List Char}
      (hquote : quote = '\'' ∨ quote = '"')
      (htext : QuotedText quote text) :
      IsLexeme (quote :: text ++ [quote])
  | long
      {bracket : LongBracket}
      (hbracket : bracket.WellFormed) :
      IsLexeme bracket.spelling

namespace Lexeme

/-! ## Quoted texts -/

theorem quotedText_skip
    {quote : Char}
    {blanks : List Char}
    (hblanks : ∀ c ∈ blanks, isBlank c = true)
    (cs : List Char) :
    quotedText quote .blanks (blanks ++ cs) =
      (blanks ++ (quotedText quote .blanks cs).1, (quotedText quote .blanks cs).2) := by
  induction blanks with
  | nil => rfl
  | cons c blanks ih =>
      have hrest := ih fun d hd => hblanks d (List.mem_cons_of_mem c hd)
      simp [quotedText, hblanks c List.mem_cons_self, hrest]

/-- A quoted text is read up to the quote behind it, also where blanks would be skipped. -/
theorem quotedText_of_isQuoted
    {quote : Char}
    (hquote : quote = '\'' ∨ quote = '"')
    {text : List Char}
    (h : QuotedText quote text)
    (rest : List Char)
    (mode : QuotedMode)
    (hmode : mode ≠ .escaped) :
    quotedText quote mode (text ++ quote :: rest) = (text, true) := by
  have hblank : isBlank quote = false := by rcases hquote with rfl | rfl <;> decide
  have hother : '\\' ≠ quote := by rcases hquote with rfl | rfl <;> decide
  have hslash : isBlank '\\' = false := by decide
  induction h generalizing mode with
  | nil => simp [quotedText, hmode, hblank]
  | @plain c cs hc hbreak hc' _ ih =>
      have hplain := ih .plain (by decide)
      have hblanks := ih .blanks (by decide)
      by_cases hskip : mode = .blanks ∧ isBlank c = true
      · simp [quotedText, hskip, hblanks]
      · simp [quotedText, hmode, hskip, hc, hbreak, hc', hplain]
  | @escape c cs hletter _ ih =>
      have hplain := ih .plain (by decide)
      simp [quotedText, hmode, hother, hslash, hletter, hplain]
  | @skip blanks cs hblanks _ ih =>
      have hrest := ih .blanks (by decide)
      simp [quotedText, hmode, hother, hslash, quotedText_skip hblanks, hrest]

/-- What the characters behind a place in a quoted text make of it. -/
def QuotedMode.Continues (quote : Char) (text : List Char) : QuotedMode → Prop
  | .plain => QuotedText quote text
  | .escaped => QuotedText quote ('\\' :: text)
  | .blanks => ∃ blanks cs, text = blanks ++ cs ∧ (∀ c ∈ blanks, isBlank c = true) ∧
      QuotedText quote cs

/-- What was read up to a quote is a quoted text. -/
theorem isQuoted_of_quotedText
    {quote : Char}
    {mode : QuotedMode}
    {cs text : List Char}
    (h : quotedText quote mode cs = (text, true)) :
    mode.Continues quote text := by
  induction cs generalizing mode text with
  | nil => simp [quotedText] at h
  | cons c cs ih =>
      have hmore : ∀ next, ((c :: (quotedText quote next cs).1,
          (quotedText quote next cs).2) = (text, true)) →
          ∃ more, text = c :: more ∧ next.Continues quote more := by
        intro next hnext
        obtain ⟨rfl, hclosed⟩ := Prod.mk.inj hnext
        exact ⟨_, rfl, ih (Prod.ext rfl hclosed)⟩
      -- behind blanks a text goes on like any other
      have hplain : mode ≠ .escaped → QuotedText quote text → mode.Continues quote text := by
        intro hmode htext
        cases mode with
        | plain => exact htext
        | escaped => exact absurd rfl hmode
        | blanks => exact ⟨[], text, rfl, List.forall_mem_nil _, htext⟩
      simp only [quotedText] at h
      split at h
      · rename_i hmode
        subst hmode
        obtain ⟨more, rfl, hcontinues⟩ := hmore _ h
        split at hcontinues
        · rename_i hletter
          subst hletter
          obtain ⟨blanks, cs, rfl, hblanks, hcs⟩ := hcontinues
          exact .skip hblanks hcs
        · rename_i hletter
          exact .escape hletter hcontinues
      rename_i hmode
      split at h
      · rename_i hblank
        obtain ⟨rfl, hblank⟩ := hblank
        obtain ⟨more, rfl, blanks, cs, rfl, hblanks, hcs⟩ := hmore _ h
        refine ⟨c :: blanks, cs, rfl, ?_, hcs⟩
        exact List.forall_mem_cons.mpr ⟨hblank, hblanks⟩
      split at h
      · obtain ⟨rfl, -⟩ := Prod.mk.inj h
        exact hplain hmode .nil
      rename_i hquote
      split at h
      · cases (Prod.mk.inj h).2
      rename_i hbreak
      split at h
      · rename_i hslash
        subst hslash
        obtain ⟨more, rfl, hcontinues⟩ := hmore _ h
        exact hplain hmode hcontinues
      · rename_i hslash
        obtain ⟨more, rfl, hcontinues⟩ := hmore _ h
        exact hplain hmode (.plain hquote (not_or.mp hbreak) hslash hcontinues)

/-! ## Numerals -/

/-- A numeral at the front of one in base sixteen has this base as well, or is only a part of what
the base is written with. -/
theorem hexadecimal_atFront
    {letter : Char}
    (hletter : letter = 'x' ∨ letter = 'X')
    {numeral cs : List Char}
    (hfront : numeral <+: '0' :: letter :: cs)
    (hvalue : (Number.ofNumeral? numeral).isSome) :
    numeral.length < ['0', letter].length ∨ ∃ digits, numeral = ['0', letter] ++ digits ∧
      (Numeral.parts? CharClass.isHexDigit (fun c => c == 'p' || c == 'P') digits).isSome := by
  match numeral with
  | [] => exact .inl (by simp)
  | [c] => exact .inl (by simp)
  | c :: d :: digits =>
      obtain ⟨hzero, hrest⟩ := List.cons_prefix_cons.mp hfront
      obtain ⟨hbase, -⟩ := List.cons_prefix_cons.mp hrest
      subst hzero hbase
      refine .inr ⟨digits, rfl, Numeral.parts?_of_hex? ?_⟩
      rcases hletter with rfl | rfl <;> exact hvalue

/-- A numeral at the front of a text in which no letter of base sixteen is written is decimal. -/
theorem decimal_atFront
    {first : Char}
    (hfirst : first.isDigit = true ∨ first = '.')
    {numeral cs : List Char}
    (hx : ∀ more, first = '0' → cs ≠ 'x' :: more)
    (hX : ∀ more, first = '0' → cs ≠ 'X' :: more)
    (hfront : numeral <+: first :: cs)
    (hvalue : (Number.ofNumeral? numeral).isSome) :
    (Numeral.parts? Char.isDigit (fun c => c == 'e' || c == 'E') numeral).isSome := by
  cases numeral with
  | nil => cases hvalue
  | cons c digits =>
      obtain ⟨rfl, rest, rfl⟩ := List.cons_prefix_cons.mp hfront
      refine Numeral.parts?_of_decimal? ?_ ?_ ?_
      · rintro rfl
        exact absurd hfirst (by decide)
      · rintro rfl
        exact absurd hfirst (by decide)
      · unfold Number.ofNumeral? at hvalue
        split at hvalue
        · rename_i more hmore
          obtain ⟨rfl, rfl⟩ := List.cons.inj hmore
          exact absurd rfl (hx _ rfl)
        · rename_i more hmore
          obtain ⟨rfl, rfl⟩ := List.cons.inj hmore
          exact absurd rfl (hX _ rfl)
        · exact hvalue

/-- What is taken as a numeral is its base, if that is written, and the tail behind it.  A shorter
numeral has the same base, or is only a part of what the base is written with. -/
theorem numeralSpelling_base
    {first : Char}
    {cs : List Char}
    (hstart : startsNumeral first cs = true) :
    ∃ isDigit isMark base tail, IsBase isDigit isMark ∧ first :: cs = base ++ tail ∧
      numeralSpelling first cs = base ++ numeralTail isMark false tail ∧
      ∀ numeral, numeral <+: first :: cs → (Number.ofNumeral? numeral).isSome →
        numeral.length < base.length ∨
          ∃ digits, numeral = base ++ digits ∧ (Numeral.parts? isDigit isMark digits).isSome := by
  unfold numeralSpelling
  split
  · exact ⟨_, _, ['0', 'x'], _, isBase_hex, rfl, rfl, fun _ => hexadecimal_atFront (.inl rfl)⟩
  · exact ⟨_, _, ['0', 'X'], _, isBase_hex, rfl, rfl, fun _ => hexadecimal_atFront (.inr rfl)⟩
  · rename_i hx hX
    have hfirst : first.isDigit = true ∨ first = '.' := by
      simp only [startsNumeral, Bool.or_eq_true, Bool.and_eq_true, beq_iff_eq] at hstart
      exact hstart.imp id And.left
    have hkept : (CharClass.isHexDigit first || first == '.') = true := by
      rcases hfirst with hdigit | rfl
      · simp [CharClass.isHexDigit_of_isDigit hdigit]
      · decide
    have hmark : (first == 'e' || first == 'E') = false := by
      rcases hfirst with hdigit | rfl
      · exact isBase_decimal.decimal first hdigit
      · decide
    refine ⟨_, _, [], first :: cs, isBase_decimal, rfl, ?_, fun numeral hfront hvalue => ?_⟩
    · simp [numeralTail, hmark, hkept]
    · exact .inr ⟨numeral, rfl, decimal_atFront hfirst hx hX hfront hvalue⟩

/-- A numeral at the front of a text is taken as a whole. -/
theorem length_le_numeralSpelling
    {first : Char}
    {cs numeral : List Char}
    (hstart : startsNumeral first cs = true)
    (hfront : numeral <+: first :: cs)
    (hvalue : (Number.ofNumeral? numeral).isSome) :
    numeral.length ≤ (numeralSpelling first cs).length := by
  obtain ⟨isDigit, isMark, base, tail, hbase, hcs, hspelling, hnumerals⟩ :=
    numeralSpelling_base hstart
  rw [hspelling, List.length_append]
  rcases hnumerals numeral hfront hvalue with hshort | ⟨digits, rfl, hparts⟩
  · omega
  · rw [hcs, List.prefix_append_right_inj] at hfront
    obtain ⟨rest, rfl⟩ := hfront
    rw [numeralTail_append hbase hparts, List.length_append, List.length_append]
    omega

/-- Nothing goes on like a numeral behind one that denotes a number. -/
theorem endsNumeral_of_readNumeral
    {first : Char}
    {cs rest : List Char}
    (hstart : startsNumeral first cs = true)
    (hvalue : (Number.ofNumeral? (numeralSpelling first cs)).isSome)
    (hrest : first :: cs = numeralSpelling first cs ++ rest) :
    ∀ c ∈ rest.head?, endsNumeral c = true := by
  obtain ⟨isDigit, isMark, base, tail, hbase, hcs, hspelling, hnumerals⟩ :=
    numeralSpelling_base hstart
  have hparts : (Numeral.parts? isDigit isMark (numeralTail isMark false tail)).isSome := by
    rcases hnumerals _ (numeralSpelling_atFront first cs) hvalue with
      hshort | ⟨digits, hdigits, hparts⟩
    · rw [hspelling, List.length_append] at hshort
      omega
    · rw [hspelling] at hdigits
      rwa [List.append_cancel_left hdigits]
  have htail : tail = numeralTail isMark false tail ++ rest := by
    rw [hcs, hspelling, List.append_assoc] at hrest
    exact List.append_cancel_left hrest
  have hnothing : numeralTail isMark false rest = [] := by
    have happend := numeralTail_append hbase hparts rest
    rw [← htail] at happend
    exact List.self_eq_append_right.mp happend
  intro c hc
  obtain ⟨more, rfl⟩ := List.head?_eq_some_iff.mp hc
  rw [numeralTail] at hnothing
  split_ifs at hnothing with hmark hdigit
  have hword : CharClass.isWord c = false := by
    refine Bool.eq_false_iff.mpr fun hword => ?_
    rw [List.takeWhile_cons_of_pos hword] at hnothing
    cases hnothing
  have hpoint : c ≠ '.' := by
    rintro rfl
    exact hdigit (by decide)
  simp [endsNumeral, hword, hpoint]

/-! ## What a lexeme at the front is read as -/

section Read

variable {first : Char} {cs : List Char} {lexeme : Lexeme}

theorem length_word_le
    (h : read first cs = .ok lexeme)
    {longer : List Char}
    (hword : isIdentifier longer = true)
    (hfront : longer <+: first :: cs) :
    longer.length ≤ lexeme.spelling.length := by
  cases longer with
  | nil => exact Nat.zero_le _
  | cons c more =>
      obtain ⟨rfl, rest, rfl⟩ := List.cons_prefix_cons.mp hfront
      obtain ⟨hstart, hall⟩ := Bool.and_eq_true_iff.mp hword
      obtain rfl := Except.ok.inj ((read_of_isNameStart hstart _).symm.trans h)
      have htake : (more ++ rest).takeWhile CharClass.isWord =
          more ++ rest.takeWhile CharClass.isWord :=
        List.takeWhile_append_of_pos (List.all_eq_true.mp hall)
      simp only [readWord, htake, List.length_cons, List.length_append]
      omega

/-- What starts like a numeral is one. -/
theorem read_of_startsNumeral
    (hstart : startsNumeral first cs = true) :
    read first cs = readNumeral first cs := by
  have hfirst : first ≠ '-' ∧ first ≠ '[' := by
    simp only [startsNumeral, Bool.or_eq_true, Bool.and_eq_true, beq_iff_eq] at hstart
    constructor <;> rintro rfl <;> exact absurd hstart (by simp)
  unfold startsNumeral at hstart
  rw [read, if_neg fun h => hfirst.1 h.1, level?_eq_none hfirst.2]
  simp only
  rw [if_pos hstart]

theorem length_numeral_le
    (h : read first cs = .ok lexeme)
    {c : Char}
    {longer : List Char}
    (hstart : startsNumeral c longer = true)
    (hvalue : (Number.ofNumeral? (c :: longer)).isSome)
    (hfront : c :: longer <+: first :: cs) :
    (c :: longer).length ≤ lexeme.spelling.length := by
  obtain ⟨rfl, rest, rfl⟩ := List.cons_prefix_cons.mp hfront
  have hstart' : startsNumeral c (longer ++ rest) = true := by
    cases longer with
    | nil =>
        simp only [startsNumeral, List.head?_nil, Option.any_none, Bool.and_false,
          Bool.or_false] at hstart
        simp [startsNumeral, hstart]
    | cons d longer => exact hstart
  rw [read_of_startsNumeral hstart', readNumeral] at h
  split at h
  · obtain rfl := Except.ok.inj h
    exact length_le_numeralSpelling hstart' hfront hvalue
  · cases h

/-- Symbols of several characters are read as symbols. -/
theorem read_of_symbol
    {symbol : Symbol}
    (hlong : 1 < symbol.text.toList.length)
    (hfront : symbol.text.toList <+: first :: cs) :
    read first cs = readSymbol first cs := by
  obtain ⟨rest, hrest⟩ := hfront
  cases symbol <;> first
    | exact absurd hlong (by decide)
    | simp [Symbol.text] at hrest
      obtain ⟨rfl, rfl⟩ := hrest
      simp [read, LongBracket.level?, CharClass.isNameStart]

theorem length_symbol_le
    (h : read first cs = .ok lexeme)
    {symbol : Symbol}
    (hfront : symbol.text.toList <+: first :: cs) :
    symbol.text.toList.length ≤ lexeme.spelling.length := by
  have hpositive := List.length_pos_iff.mpr lexeme.spelling_ne_nil
  rcases Nat.lt_or_ge 1 symbol.text.toList.length with hlong | hshort
  · rw [read_of_symbol hlong hfront, readSymbol] at h
    split at h
    · rename_i longest hlongest
      obtain rfl := Except.ok.inj h
      exact Scan.length_le_longest? hfront hlongest
    · cases h
  · omega

theorem length_quoted_le
    (h : read first cs = .ok lexeme)
    {quote : Char}
    {text : List Char}
    (hquote : quote = '\'' ∨ quote = '"')
    (htext : QuotedText quote text)
    (hfront : quote :: text ++ [quote] <+: first :: cs) :
    (quote :: text ++ [quote]).length ≤ lexeme.spelling.length := by
  obtain ⟨rest, hrest⟩ := hfront
  rw [List.append_assoc] at hrest
  obtain ⟨rfl, rfl⟩ := List.cons.inj hrest
  obtain ⟨delimiter, hdelimiter⟩ : ∃ delimiter : Delimiter,
      quote = '\'' ∧ delimiter = .single ∨ quote = '"' ∧ delimiter = .double := by
    rcases hquote with rfl | rfl
    · exact ⟨.single, .inl ⟨rfl, rfl⟩⟩
    · exact ⟨.double, .inr ⟨rfl, rfl⟩⟩
  have hquoted : IsQuotedText quote text := fun rest =>
    quotedText_of_isQuoted hquote htext rest .plain (by decide)
  obtain ⟨other, hread, -, -, hspelling⟩ := read_quoted hdelimiter hquoted rest
  obtain rfl := Except.ok.inj (hread.symm.trans h)
  rw [hspelling]

theorem length_long_le
    (h : read first cs = .ok lexeme)
    {bracket : LongBracket}
    (hbracket : bracket.WellFormed)
    (hfront : bracket.spelling <+: first :: cs) :
    bracket.spelling.length ≤ lexeme.spelling.length := by
  obtain ⟨rest, hrest⟩ := hfront
  have hlevel : LongBracket.level? (first :: cs) = some bracket.level := by
    rw [← hrest]
    simp only [LongBracket.spelling, List.append_assoc]
    exact LongBracket.level?_opening _ _
  have hfirst : first ≠ '-' := by
    rintro rfl
    cases hlevel
  obtain ⟨other, hother, hspelling⟩ := hbracket.exists_read? rest
  rw [hrest] at hother
  rw [read, if_neg fun h => hfirst h.1, hlevel] at h
  simp only [readLong, hother] at h
  obtain rfl := Except.ok.inj h
  simp only [hspelling, Nat.le_refl]

/-- No lexeme at the front of a text is longer than the one that is read. -/
theorem length_lexeme_le
    (h : read first cs = .ok lexeme)
    {longer : List Char}
    (hlexeme : IsLexeme longer)
    (hfront : longer <+: first :: cs) :
    longer.length ≤ lexeme.spelling.length := by
  cases hlexeme with
  | word hword => exact length_word_le h hword hfront
  | numeral hstart hvalue => exact length_numeral_le h hstart hvalue hfront
  | symbol symbol => exact length_symbol_le h hfront
  | quoted hquote htext => exact length_quoted_le h hquote htext hfront
  | long hbracket => exact length_long_le h hbracket hfront

/-- What is read as a numeral is one. -/
theorem read_number
    (h : read first cs = .ok lexeme)
    (hkind : lexeme.kind = .number) :
    startsNumeral first cs = true ∧ lexeme.spelling = numeralSpelling first cs ∧
      (Number.ofNumeral? (numeralSpelling first cs)).isSome := by
  rcases read_cases h with ⟨level, -, hlong⟩ | ⟨hstart, hnumeral⟩ | ⟨hother, -⟩
  · unfold readLong at hlong
    split at hlong
    · obtain rfl := Except.ok.inj hlong
      cases hkind
    · cases hlong
  · rw [readNumeral] at hnumeral
    split at hnumeral
    · rename_i hvalue
      obtain rfl := Except.ok.inj hnumeral
      exact ⟨hstart, rfl, hvalue⟩
    · cases hnumeral
  · exact absurd hkind hother

theorem isIdentifier_of_read
    (h : read first cs = .ok lexeme)
    (hkind : lexeme.kind = .name ∨ lexeme.kind.isKeyword = true) :
    isIdentifier lexeme.spelling = true := by
  have hspells := (read_fits h).spells
  rcases hkind with hname | hkeyword
  · rw [hname] at hspells
    exact hspells.1.1
  · cases hkind : lexeme.kind with
    | keyword word =>
        rw [hkind] at hspells
        rw [hspells.2, hspells.1]
        exact Mark.isIdentifier_keyword word
    | _ => simp [hkind, Kind.isKeyword] at hkeyword

/-- What is read is a lexeme. -/
theorem isLexeme_of_read
    (h : read first cs = .ok lexeme) :
    IsLexeme lexeme.spelling := by
  have hspells := (read_fits h).spells
  cases hkind : lexeme.kind with
  | keyword word => exact .word (isIdentifier_of_read h (.inr (by rw [hkind]; rfl)))
  | symbol symbol =>
      rw [hkind] at hspells
      rw [hspells.2, hspells.1]
      exact .symbol symbol
  | number =>
      obtain ⟨hstart, hspelling, hvalue⟩ := read_number h hkind
      obtain ⟨tail, htail⟩ : ∃ tail, numeralSpelling first cs = first :: tail := by
        unfold numeralSpelling
        split <;> exact ⟨_, rfl⟩
      have hagain := startsNumeral_again hstart htail []
      rw [List.append_nil] at hagain
      rw [htail] at hvalue hspelling
      rw [hspelling]
      exact .numeral hagain hvalue
  | name => exact .word (isIdentifier_of_read h (.inl hkind))
  | string delimiter =>
      rw [hkind] at hspells
      cases delimiter with
      | single =>
          have htext : QuotedMode.Continues '\'' lexeme.text .plain :=
            isQuoted_of_quotedText (hspells.1 [])
          rw [hspells.2]
          exact .quoted (.inl rfl) htext
      | double =>
          have htext : QuotedMode.Continues '"' lexeme.text .plain :=
            isQuoted_of_quotedText (hspells.1 [])
          rw [hspells.2]
          exact .quoted (.inr rfl) htext
      | long =>
          obtain ⟨bracket, hbracket, -, hspelling⟩ := hspells
          rw [hspelling]
          exact .long hbracket
  | eof =>
      rw [hkind] at hspells
      exact absurd hspells.2 lexeme.spelling_ne_nil

/-- Behind a word no character goes on with it. -/
theorem not_isWord_behind
    (h : read first cs = .ok lexeme)
    (hword : isIdentifier lexeme.spelling = true)
    {rest : List Char}
    (hrest : first :: cs = lexeme.spelling ++ rest) :
    ∀ c ∈ rest.head?, CharClass.isWord c = false := by
  obtain ⟨more, hspelling⟩ : ∃ more, lexeme.spelling = first :: more := by
    cases hspelling : lexeme.spelling with
    | nil => exact absurd hspelling lexeme.spelling_ne_nil
    | cons c more =>
        rw [hspelling] at hrest
        exact ⟨more, by rw [(List.cons.inj hrest).1]⟩
  rw [hspelling] at hword
  obtain ⟨hstart, -⟩ := Bool.and_eq_true_iff.mp hword
  obtain rfl := Except.ok.inj ((read_of_isNameStart hstart cs).symm.trans h)
  obtain rfl : cs.dropWhile CharClass.isWord = rest := by
    have hsplit : first :: cs.takeWhile CharClass.isWord ++ cs.dropWhile CharClass.isWord =
        first :: cs.takeWhile CharClass.isWord ++ rest := by
      rw [List.cons_append, List.takeWhile_append_dropWhile]
      exact hrest
    exact List.append_cancel_left hsplit
  intro c hc
  have hhead := List.head?_dropWhile_not CharClass.isWord cs
  rw [Option.mem_def.mp hc] at hhead
  simpa using hhead

theorem endsNumeral_behind
    (h : read first cs = .ok lexeme)
    (hkind : lexeme.kind = .number)
    {rest : List Char}
    (hrest : first :: cs = lexeme.spelling ++ rest) :
    ∀ c ∈ rest.head?, endsNumeral c = true := by
  obtain ⟨hstart, hspelling, hvalue⟩ := read_number h hkind
  rw [hspelling] at hrest
  exact endsNumeral_of_readNumeral hstart hvalue hrest

end Read

end Lexeme

/-! ## Tokens -/

/-- The token stands between two parts of its source, and is the longest lexeme that begins behind
the first of them. -/
structure Token.IsLongest (token : Token) (source : String) (before spelling after : List Char) :
    Prop where
  source_eq : source.toList = before ++ (spelling ++ after)
  start : token.span.start.IsBehind source before
  stop : token.span.stop.IsBehind source (before ++ spelling)
  lexeme : IsLexeme spelling
  longest : ∀ longer, IsLexeme longer → longer <+: spelling ++ after →
    longer.length ≤ spelling.length
  word : token.kind = .name ∨ token.kind.isKeyword = true →
    ∀ c ∈ after.head?, CharClass.isWord c = false
  numeral : token.kind = .number →
    ∀ c ∈ after.head?, CharClass.isWord c = false ∧ c ≠ '.'

/-- Every token but the end of the source is a longest match. -/
theorem token_longest
    {source : String}
    {tokens : List Token}
    (h : tokenize source = .ok tokens)
    {token : Token}
    (htoken : token ∈ tokens)
    (hkind : token.kind ≠ .eof) :
    ∃ before spelling after, token.IsLongest source before spelling after := by
  obtain ⟨skipped, behind, hsource, hreading⟩ := Scan.reading_tokenize source
  rcases hreading.token_cases h htoken with rfl | ⟨before, first, cs, lexeme, hsplit, hread, rfl⟩
  · exact absurd rfl hkind
  obtain ⟨after, hafter⟩ := (Lexeme.read_fits hread).atFront
  have hwhole : source.toList = before ++ (lexeme.spelling ++ after) := by
    rw [hsource, hsplit, hafter]
  refine ⟨before, lexeme.spelling, after, hwhole, Position.isBehind_afterAll hwhole,
    Position.isBehind_afterAll (by rw [hwhole, List.append_assoc]), Lexeme.isLexeme_of_read hread,
    fun longer hlexeme hfront => ?_, fun hword => ?_, fun hnumber c hc => ?_⟩
  · rw [hafter] at hfront
    exact Lexeme.length_lexeme_le hread hlexeme hfront
  · exact Lexeme.not_isWord_behind hread (Lexeme.isIdentifier_of_read hread hword) hafter.symm
  · have hends := Lexeme.endsNumeral_behind hread hnumber hafter.symm c hc
    simpa [endsNumeral] using hends

/-- The sign behind an exponent mark belongs to the numeral. -/
theorem token_longest_exponent :
    ∃ before spelling after,
      Token.IsLongest ⟨.number, "0x1p+4", ⟨3, 0, 3⟩, ⟨9, 0, 9⟩⟩ "a<=0x1p+4 ..[=[]]]=]"
        before spelling after := by
  have htokens : tokenize "a<=0x1p+4 ..[=[]]]=]" = .ok
      [⟨.name, "a", ⟨0, 0, 0⟩, ⟨1, 0, 1⟩⟩, ⟨.symbol .ltEq, "<=", ⟨1, 0, 1⟩, ⟨3, 0, 3⟩⟩,
        ⟨.number, "0x1p+4", ⟨3, 0, 3⟩, ⟨9, 0, 9⟩⟩,
        ⟨.symbol .dotDot, "..", ⟨10, 0, 10⟩, ⟨12, 0, 12⟩⟩,
        ⟨.string .long, "]]", ⟨12, 0, 12⟩, ⟨20, 0, 20⟩⟩, Token.eof ⟨20, 0, 20⟩] := by
    decide +kernel
  exact token_longest htokens (by simp) (by decide)

end LuaView
