import LuaView.Proofs.Lexing.CarriageReturns
import Mathlib.Data.List.Forall2

/-!
# Line breaks of two characters

Numerals, words, symbols and long strings are read from a text with two characters in every line
break as they are read from one with line feeds only, and so is a quoted string unless it has a
backslash in front of a line feed: there the backslash takes the carriage return with it, and the
line feed ends the text.

A source without such a string is cut into the same tokens on the same lines; from a source with one
comes a string that is never closed.
-/

namespace LuaView
namespace Lexeme

/-! ## Lexemes -/

/-- A text without carriage returns that stands at the front of both texts has no line feed. -/
theorem crlf_eq_self_of_prefix
    {text cs : List Char}
    (hreturn : '\r' ∉ text)
    (h : text <+: crlf cs) :
    crlf text = text := by
  refine crlf_eq_self ?_
  induction text generalizing cs with
  | nil => exact List.not_mem_nil
  | cons c text ih =>
      simp only [List.mem_cons, not_or] at hreturn ⊢
      cases cs with
      | nil => simp at h
      | cons d cs =>
          by_cases hd : d = '\n'
          · rw [hd, crlf_newline, List.cons_prefix_cons] at h
            exact absurd h.1.symm hreturn.1
          · rw [crlf_cons_of_ne hd, List.cons_prefix_cons] at h
            exact ⟨fun hc => hd (h.1.symm.trans hc.symm), ih hreturn.2 h.2⟩

/-- No numeral extends over a line break. -/
theorem numeralTail_crlf
    {isMark : Char → Bool}
    (hfeed : isMark '\n' = false)
    (hreturn : isMark '\r' = false)
    (afterMark : Bool)
    (cs : List Char) :
    numeralTail isMark afterMark (crlf cs) = numeralTail isMark afterMark cs := by
  induction cs generalizing afterMark with
  | nil => rfl
  | cons c cs ih =>
      by_cases hc : c = '\n'
      · have hhex : CharClass.isHexDigit '\n' = false ∧ CharClass.isHexDigit '\r' = false := by
          decide
        have hword : CharClass.isWord '\n' = false ∧ CharClass.isWord '\r' = false := by decide
        simp [hc, numeralTail, hfeed, hreturn, hhex, hword]
      · have hwords : (c :: crlf cs).takeWhile CharClass.isWord =
            (c :: cs).takeWhile CharClass.isWord := by
          rw [← crlf_cons_of_ne hc]
          exact takeWhile_crlf (by decide) (by decide) _
        simp only [crlf_cons_of_ne hc, numeralTail, ih, hwords]

theorem numeralSpelling_crlf
    (first : Char)
    (cs : List Char) :
    numeralSpelling first (crlf cs) = numeralSpelling first cs := by
  have hdecimal : numeralTail (fun c => c == 'e' || c == 'E') false (crlf cs) =
      numeralTail (fun c => c == 'e' || c == 'E') false cs :=
    numeralTail_crlf (by decide) (by decide) false cs
  cases cs with
  | nil => rfl
  | cons c cs =>
      have hhex : numeralTail (fun c => c == 'p' || c == 'P') false (crlf cs) =
          numeralTail (fun c => c == 'p' || c == 'P') false cs :=
        numeralTail_crlf (by decide) (by decide) false cs
      by_cases hc : c = '\n'
      · subst hc
        rw [crlf_newline] at hdecimal ⊢
        simp [numeralSpelling, hdecimal]
      · rw [crlf_cons_of_ne hc] at hdecimal ⊢
        simp only [numeralSpelling, hdecimal]
        split <;> simp_all

/-! ## Quoted strings -/

/-- A character ends a quoted text: it is the closing quote or a line break, and stands for
itself. -/
def QuotedMode.Ends (quote : Char) (mode : QuotedMode) (c : Char) : Prop :=
  mode ≠ .escaped ∧ ¬ (mode = .blanks ∧ isBlank c = true) ∧ (c = quote ∨ c = '\n' ∨ c = '\r')

/-- What a character of a quoted text means for the next one. -/
def QuotedMode.after (mode : QuotedMode) (c : Char) : QuotedMode :=
  if mode = .escaped then (if c = 'z' then .blanks else .plain)
  else if mode = .blanks ∧ isBlank c then .blanks
  else if c = '\\' then .escaped
  else .plain

/-- A character that ends a quoted text is not part of it. -/
theorem quotedText_of_ends
    {quote c : Char}
    {mode : QuotedMode}
    (h : mode.Ends quote c)
    (cs : List Char) :
    quotedText quote mode (c :: cs) = ([], decide (c = quote)) := by
  obtain ⟨hmode, hblank, hc⟩ := h
  simp only [quotedText, if_neg hmode, if_neg hblank]
  by_cases hquote : c = quote
  · rw [if_pos hquote, decide_eq_true hquote]
  · rw [if_neg hquote, if_pos (hc.resolve_left hquote), decide_eq_false hquote]

/-- Any other character is, and the text goes on in the mode behind it. -/
theorem quotedText_of_not_ends
    {quote c : Char}
    {mode : QuotedMode}
    (h : ¬ mode.Ends quote c)
    (cs : List Char) :
    quotedText quote mode (c :: cs) =
      (c :: (quotedText quote (mode.after c) cs).1, (quotedText quote (mode.after c) cs).2) := by
  by_cases hmode : mode = .escaped
  · simp only [quotedText, QuotedMode.after, if_pos hmode]
  · by_cases hblank : mode = .blanks ∧ isBlank c = true
    · simp only [quotedText, QuotedMode.after, if_neg hmode, if_pos hblank]
    · have hc : ¬ c = quote ∧ ¬ (c = '\n' ∨ c = '\r') := by
        rw [← not_or]
        exact fun hc => h ⟨hmode, hblank, hc⟩
      simp only [quotedText, QuotedMode.after, if_neg hmode, if_neg hblank, if_neg hc.1,
        if_neg hc.2]
      split <;> rfl

/-- A backslash stands in front of a line feed. -/
def EscapesBreak (text : List Char) : Prop :=
  ['\\', '\n'] <:+: text

instance (text : List Char) : Decidable (EscapesBreak text) :=
  inferInstanceAs (Decidable (_ <:+: _))

/-- A backslash in front of a line feed is at the beginning of a text or later in it. -/
theorem escapesBreak_cons
    {c : Char}
    {text : List Char} :
    EscapesBreak (c :: text) ↔ c = '\\' ∧ text.head? = some '\n' ∨ EscapesBreak text := by
  have hfront : ['\\', '\n'] <+: c :: text ↔ c = '\\' ∧ text.head? = some '\n' := by
    cases text with
    | nil => simp
    | cons d text => simp [List.cons_prefix_cons, eq_comm]
  rw [EscapesBreak, List.infix_cons_iff, hfront]
  rfl

/-- A text that is read in a mode begins with a line feed that is escaped, or has a backslash in
front of a line feed. -/
def QuotedMode.EscapesBreak (mode : QuotedMode) (text : List Char) : Prop :=
  mode = .escaped ∧ text.head? = some '\n' ∨ Lexeme.EscapesBreak text

/-- A line feed at the front of a quoted text is escaped, or behind `\z`. -/
theorem head?_quotedText_plain
    {quote : Char}
    {cs text : List Char}
    (h : quotedText quote .plain cs = (text, true)) :
    text.head? ≠ some '\n' := by
  cases cs with
  | nil => simp [quotedText] at h
  | cons c cs =>
      by_cases hends : QuotedMode.Ends quote .plain c
      · rw [quotedText_of_ends hends] at h
        rw [← (Prod.mk.inj h).1]
        rintro ⟨⟩
      · rw [quotedText_of_not_ends hends] at h
        rw [← (Prod.mk.inj h).1]
        intro hc
        refine hends ⟨?_, ?_, .inr (.inl (Option.some.inj hc))⟩
        · rintro ⟨⟩
        · rintro ⟨⟨⟩, -⟩

theorem QuotedMode.escapesBreak_cons
    {quote c : Char}
    {mode : QuotedMode}
    {cs text : List Char}
    (hc : c ≠ '\n')
    (h : quotedText quote (mode.after c) cs = (text, true)) :
    mode.EscapesBreak (c :: text) ↔ (mode.after c).EscapesBreak text := by
  have hfront : mode.EscapesBreak (c :: text) ↔
      c = '\\' ∧ text.head? = some '\n' ∨ Lexeme.EscapesBreak text := by
    rw [QuotedMode.EscapesBreak, Lexeme.escapesBreak_cons]
    simp [hc]
  rw [hfront, QuotedMode.EscapesBreak]
  refine or_congr_left' fun _ => ?_
  by_cases hmode : mode = .escaped
  · constructor
    · rintro ⟨rfl, hhead⟩
      have hplain : mode.after '\\' = .plain := by simp [after, hmode]
      rw [hplain] at h
      exact absurd hhead (head?_quotedText_plain h)
    · rintro ⟨hafter, -⟩
      simp only [after, hmode, if_true] at hafter
      split at hafter <;> cases hafter
  · by_cases hblank : mode = .blanks ∧ isBlank c = true
    · have hslash : c ≠ '\\' := ne_of_isBlank hblank.2 (by decide)
      simp [after, hblank, hslash]
    · rw [after, if_neg hmode, if_neg hblank]
      by_cases hslash : c = '\\' <;> simp [hslash]

theorem QuotedMode.after_blanks
    {c : Char}
    (hc : isBlank c = true) :
    QuotedMode.after .blanks c = .blanks := by
  simp [QuotedMode.after, hc]

/-- The backslash takes the carriage return, and the line feed then stands for itself. -/
theorem quotedText_crlf_escaped
    {quote : Char}
    (hquote : '\n' ≠ quote)
    (cs : List Char) :
    (quotedText quote .escaped (crlf ('\n' :: cs))).2 = false := by
  have hreturn : ¬ QuotedMode.Ends quote .escaped '\r' := fun h => h.1 rfl
  have hfeed : QuotedMode.Ends quote .plain '\n' := ⟨nofun, nofun, .inr (.inl rfl)⟩
  rw [crlf_newline, quotedText_of_not_ends hreturn]
  change (quotedText quote .plain ('\n' :: crlf cs)).2 = false
  rw [quotedText_of_ends hfeed]
  exact decide_eq_false hquote

/-- Among the blanks that `\z` skips, a line break of two characters is two blanks. -/
theorem quotedText_crlf_blanks
    (quote : Char)
    (cs : List Char) :
    quotedText quote .blanks (crlf ('\n' :: cs)) =
      ('\r' :: '\n' :: (quotedText quote .blanks (crlf cs)).1,
        (quotedText quote .blanks (crlf cs)).2) := by
  have hblank : ∀ c, isBlank c = true → ¬ QuotedMode.Ends quote .blanks c :=
    fun _ hc h => h.2.1 ⟨rfl, hc⟩
  rw [crlf_newline, quotedText_of_not_ends (hblank '\r' (by decide)),
    QuotedMode.after_blanks (c := '\r') (by decide),
    quotedText_of_not_ends (hblank '\n' (by decide)),
    QuotedMode.after_blanks (c := '\n') (by decide)]

/-- A quoted text without an escaped line feed is closed where it was closed before, and one with an
escaped line feed is not closed any more. -/
theorem quotedText_crlf
    {quote : Char}
    (hquote : '\n' ≠ quote)
    {mode : QuotedMode}
    {cs text : List Char}
    (h : quotedText quote mode cs = (text, true)) :
    ¬ mode.EscapesBreak text ∧ quotedText quote mode (crlf cs) = (crlf text, true) ∨
      mode.EscapesBreak text ∧ (quotedText quote mode (crlf cs)).2 = false := by
  induction cs generalizing mode text with
  | nil => simp [quotedText] at h
  | cons c cs ih =>
      by_cases hends : mode.Ends quote c
      · rw [quotedText_of_ends hends] at h
        obtain ⟨rfl, hclosed⟩ := Prod.mk.inj h
        obtain rfl : c = quote := of_decide_eq_true hclosed
        left
        rw [crlf_cons_of_ne hquote.symm, quotedText_of_ends hends, crlf_nil]
        exact ⟨by simp [QuotedMode.EscapesBreak, EscapesBreak], h⟩
      · rw [quotedText_of_not_ends hends] at h
        obtain ⟨htext, hclosed⟩ := Prod.mk.inj h
        have hmore : quotedText quote (mode.after c) cs =
            ((quotedText quote (mode.after c) cs).1, true) := Prod.ext rfl hclosed
        generalize (quotedText quote (mode.after c) cs).1 = more at hmore htext
        subst htext
        by_cases hc : c = '\n'
        · subst hc
          by_cases hmode : mode = .escaped
          · subst hmode
            exact .inr ⟨.inl ⟨rfl, rfl⟩, quotedText_crlf_escaped hquote cs⟩
          · obtain rfl : mode = .blanks := by
              by_contra hblanks
              exact hends ⟨hmode, fun h => hblanks h.1, .inr (.inl rfl)⟩
            rw [QuotedMode.after_blanks (c := '\n') (by decide)] at hmore
            have hsame : QuotedMode.EscapesBreak .blanks ('\n' :: more) ↔
                QuotedMode.EscapesBreak .blanks more := by
              rw [QuotedMode.EscapesBreak, QuotedMode.EscapesBreak, escapesBreak_cons]
              simp
            rw [hsame, quotedText_crlf_blanks, crlf_newline]
            rcases ih hmore with ⟨hescapes, hnew⟩ | ⟨hescapes, hnew⟩
            · exact .inl ⟨hescapes, by rw [hnew]⟩
            · exact .inr ⟨hescapes, hnew⟩
        · rw [crlf_cons_of_ne hc, crlf_cons_of_ne hc, quotedText_of_not_ends hends,
            QuotedMode.escapesBreak_cons hc hmore]
          rcases ih hmore with ⟨hescapes, hnew⟩ | ⟨hescapes, hnew⟩
          · exact .inl ⟨hescapes, by rw [hnew]⟩
          · exact .inr ⟨hescapes, hnew⟩

/-! ## Reading a lexeme -/

theorem crlf_ne_nil
    {cs : List Char}
    (h : cs ≠ []) :
    crlf cs ≠ [] := by
  cases cs with
  | nil => exact absurd rfl h
  | cons c cs => by_cases hc : c = '\n' <;> simp [crlf, hc]

/-- The lexeme with two characters in every line break. -/
def withReturns (lexeme : Lexeme) : Lexeme where
  kind := lexeme.kind
  text := crlf lexeme.text
  spelling := crlf lexeme.spelling
  spelling_ne_nil := crlf_ne_nil lexeme.spelling_ne_nil

/-- A quoted string with a backslash in front of a line feed. -/
def EscapesFeed (lexeme : Lexeme) : Prop :=
  (lexeme.kind = .string .single ∨ lexeme.kind = .string .double) ∧ EscapesBreak lexeme.text

/-- A lexeme that is no string has no line break if the new text begins with it too. -/
theorem withReturns_eq_self
    {lexeme : Lexeme}
    {cs : List Char}
    (hreturn : '\r' ∉ cs)
    (hfits : lexeme.Fits cs)
    (hkind : ∀ delimiter, lexeme.kind ≠ .string delimiter)
    (h : lexeme.spelling <+: crlf cs) :
    lexeme.withReturns = lexeme := by
  have htext : lexeme.text = lexeme.spelling := by
    have hspells := hfits.spells
    cases hlexeme : lexeme.kind with
    | string delimiter => exact absurd hlexeme (hkind delimiter)
    | _ =>
        rw [hlexeme] at hspells
        obtain ⟨htext, hspelling⟩ := hspells
        simp_all
  have hspelling : crlf lexeme.spelling = lexeme.spelling :=
    crlf_eq_self_of_prefix (fun hmem => hreturn (hfits.atFront.mem hmem)) h
  obtain ⟨kind, text, spelling, hnonempty⟩ := lexeme
  obtain rfl : text = spelling := htext
  simp only [withReturns, hspelling]

theorem readNumeral_crlf
    (first : Char)
    (cs : List Char) :
    readNumeral first (crlf cs) = readNumeral first cs := by
  simp only [readNumeral, numeralSpelling_crlf]

theorem readWord_crlf
    (first : Char)
    (cs : List Char) :
    readWord first (crlf cs) = readWord first cs := by
  have hword : (crlf cs).takeWhile CharClass.isWord = cs.takeWhile CharClass.isWord :=
    takeWhile_crlf (by decide) (by decide) cs
  simp only [readWord, hword]

theorem readSymbol_crlf
    {first : Char}
    (hfirst : first ≠ '\n')
    (cs : List Char) :
    readSymbol first (crlf cs) = readSymbol first cs := by
  have hprefix : ∀ symbol : Symbol, symbol.text.toList.isPrefixOf (first :: crlf cs) =
      symbol.text.toList.isPrefixOf (first :: cs) := by
    intro symbol
    rw [← crlf_cons_of_ne hfirst]
    exact isPrefixOf_crlf (by cases symbol <;> decide) (by cases symbol <;> decide) _
  have hlongest : Symbol.longest? (first :: crlf cs) = Symbol.longest? (first :: cs) := by
    simp only [Symbol.longest?, hprefix]
  simp only [readSymbol, hlongest]

/-- A long string is read with its line breaks replaced. -/
theorem readLong_crlf
    {cs : List Char}
    {level : Nat}
    (hlevel : LongBracket.level? cs = some level)
    (hreturn : '\r' ∉ cs)
    {lexeme : Lexeme}
    (h : readLong level cs = .ok lexeme) :
    readLong level (crlf cs) = .ok lexeme.withReturns := by
  unfold readLong at h
  split at h
  · rename_i bracket hbracket
    obtain rfl := Except.ok.inj h
    have hnew := LongBracket.read?_crlf hlevel hreturn
    rw [hbracket] at hnew
    simp only [readLong, hnew, Option.map_some, withReturns, LongBracket.spelling_withReturns]
    rfl
  · cases h

/-- A quoted string is read with its line breaks replaced unless a backslash stands in front of
one. -/
theorem readQuoted_crlf
    {quote : Char}
    {delimiter : Delimiter}
    (hdelimiter : quote = '\'' ∧ delimiter = .single ∨ quote = '"' ∧ delimiter = .double)
    {cs : List Char}
    {lexeme : Lexeme}
    (h : readQuoted quote delimiter cs = .ok lexeme) :
    ¬ lexeme.EscapesFeed ∧ readQuoted quote delimiter (crlf cs) = .ok lexeme.withReturns ∨
      lexeme.EscapesFeed ∧
        ∃ extent, readQuoted quote delimiter (crlf cs) = .error (.unclosedString, extent) := by
  have hquote : '\n' ≠ quote := by
    obtain ⟨rfl, -⟩ | ⟨rfl, -⟩ := hdelimiter <;> decide
  simp only [readQuoted] at h
  split at h
  · rename_i hclosed
    have htext : quotedText quote .plain cs = ((quotedText quote .plain cs).1, true) :=
      Prod.ext rfl hclosed
    have hescapes : lexeme.EscapesFeed ↔
        QuotedMode.EscapesBreak .plain (quotedText quote .plain cs).1 := by
      obtain rfl := Except.ok.inj h
      obtain ⟨-, rfl⟩ | ⟨-, rfl⟩ := hdelimiter <;>
        simp [EscapesFeed, QuotedMode.EscapesBreak]
    rw [hescapes]
    rcases quotedText_crlf hquote htext with ⟨hnot, hnew⟩ | ⟨hescapes, hnew⟩
    · refine .inl ⟨hnot, ?_⟩
      obtain rfl := Except.ok.inj h
      simp only [readQuoted, hnew, if_true, withReturns, List.cons_append, crlf_append,
        crlf_cons_of_ne hquote.symm, crlf_nil]
    · refine .inr ⟨hescapes, ?_⟩
      simp only [readQuoted, hnew, Bool.false_eq_true, if_false]
      exact ⟨_, rfl⟩
  · cases h

/-- The new text is read by the same rule as the old one. -/
theorem read_crlf_eq
    {first : Char}
    (hfirst : first ≠ '\n')
    (cs : List Char) :
    read first (crlf cs) =
      if first = '-' ∧ cs.head? = some '-' then .error (.unclosedComment, first :: crlf cs)
      else
        match LongBracket.level? (first :: cs) with
        | some level => readLong level (crlf (first :: cs))
        | none =>
            if startsNumeral first cs then readNumeral first cs
            else if first = '"' then readQuoted first .double (crlf cs)
            else if first = '\'' then readQuoted first .single (crlf cs)
            else if CharClass.isNameStart first then .ok (readWord first cs)
            else readSymbol first cs := by
  have hdash : (crlf cs).head? = some '-' ↔ cs.head? = some '-' :=
    head?_crlf (by decide) (by decide) cs
  have hdigit : (crlf cs).head?.any Char.isDigit = cs.head?.any Char.isDigit := by
    cases cs with
    | nil => rfl
    | cons c cs =>
        by_cases hc : c = '\n'
        · subst hc
          rfl
        · rw [crlf_cons_of_ne hc]
          rfl
  have hlevel := LongBracket.level?_crlf (first :: cs)
  rw [crlf_cons_of_ne hfirst] at hlevel ⊢
  simp only [read, hdash, hlevel, hdigit, readNumeral_crlf, readWord_crlf, readSymbol_crlf hfirst,
    startsNumeral]
  rfl

theorem ne_newline_of_read
    {first : Char}
    {cs : List Char}
    {lexeme : Lexeme}
    (h : read first cs = .ok lexeme) :
    first ≠ '\n' := by
  rintro rfl
  cases h

theorem kind_readNumeral
    {first : Char}
    {cs : List Char}
    {lexeme : Lexeme}
    (h : readNumeral first cs = .ok lexeme) :
    lexeme.kind = .number := by
  simp only [readNumeral] at h
  split at h
  · obtain rfl := Except.ok.inj h
    rfl
  · cases h

theorem kind_readLong
    {level : Nat}
    {cs : List Char}
    {lexeme : Lexeme}
    (h : readLong level cs = .ok lexeme) :
    lexeme.kind = .string .long := by
  unfold readLong at h
  split at h
  · obtain rfl := Except.ok.inj h
    rfl
  · cases h

theorem kind_readWord
    (first : Char)
    (cs : List Char)
    (delimiter : Delimiter) :
    (readWord first cs).kind ≠ .string delimiter := by
  simp only [readWord]
  split <;> rintro ⟨⟩

theorem kind_readSymbol
    {first : Char}
    {cs : List Char}
    {lexeme : Lexeme}
    (h : readSymbol first cs = .ok lexeme)
    (delimiter : Delimiter) :
    lexeme.kind ≠ .string delimiter := by
  unfold readSymbol at h
  split at h
  · obtain rfl := Except.ok.inj h
    exact nofun
  · cases h

/-- A lexeme that is no string has no line break in it, so it is the same in the new text. -/
theorem read_crlf_plain
    {first : Char}
    {cs : List Char}
    {lexeme : Lexeme}
    (hreturn : '\r' ∉ first :: cs)
    (h : read first cs = .ok lexeme)
    (hkind : ∀ delimiter, lexeme.kind ≠ .string delimiter)
    (hnew : read first (crlf cs) = .ok lexeme) :
    ¬ lexeme.EscapesFeed ∧ read first (crlf cs) = .ok lexeme.withReturns := by
  have hfront := (read_fits hnew).atFront
  rw [← crlf_cons_of_ne (ne_newline_of_read h)] at hfront
  rw [withReturns_eq_self hreturn (read_fits h) hkind hfront]
  exact ⟨fun hescapes => hescapes.1.elim (hkind _) (hkind _), hnew⟩

/-- A lexeme is read from the new text as it was read from the old one, unless it is a string with
an escaped line feed; then the new text has a string that is not closed. -/
theorem read_crlf
    {first : Char}
    {cs : List Char}
    {lexeme : Lexeme}
    (hreturn : '\r' ∉ first :: cs)
    (h : read first cs = .ok lexeme) :
    ¬ lexeme.EscapesFeed ∧ read first (crlf cs) = .ok lexeme.withReturns ∨
      lexeme.EscapesFeed ∧ ∃ extent, read first (crlf cs) = .error (.unclosedString, extent) := by
  have hfirst := ne_newline_of_read h
  have hplain := read_crlf_plain hreturn h
  have hnew := read_crlf_eq hfirst cs
  rw [read] at h
  split at h
  · cases h
  rename_i hdashes
  rw [if_neg hdashes] at hnew
  split at h
  · rename_i level hlevel
    simp only [hlevel] at hnew
    have hkind := kind_readLong h
    refine .inl ⟨fun hescapes => ?_, hnew.trans (readLong_crlf hlevel hreturn h)⟩
    rcases hescapes.1 with hstring | hstring <;> cases hkind.symm.trans hstring
  rename_i hlevel
  simp only [hlevel] at hnew
  split at h
  · rename_i hnumeral
    have hstart : startsNumeral first cs = true := hnumeral
    rw [if_pos hstart] at hnew
    have hkind := kind_readNumeral h
    refine .inl (hplain (fun delimiter hstring => ?_) (hnew.trans h))
    cases hkind.symm.trans hstring
  rename_i hnumeral
  have hstart : ¬ startsNumeral first cs = true := hnumeral
  rw [if_neg hstart] at hnew
  split at h
  · rename_i hquote
    rw [if_pos hquote] at hnew
    rw [hnew]
    exact readQuoted_crlf (.inr ⟨hquote, rfl⟩) h
  rename_i hdouble
  rw [if_neg hdouble] at hnew
  split at h
  · rename_i hquote
    rw [if_pos hquote] at hnew
    rw [hnew]
    exact readQuoted_crlf (.inl ⟨hquote, rfl⟩) h
  rename_i hsingle
  rw [if_neg hsingle] at hnew
  split at h
  · rename_i hname
    rw [if_pos hname] at hnew
    obtain rfl := Except.ok.inj h
    exact .inl (hplain (kind_readWord first cs) hnew)
  · rename_i hname
    rw [if_neg hname] at hnew
    exact .inl (hplain (kind_readSymbol h) (hnew.trans h))

end Lexeme

/-! ## Tokens -/

/-- A quoted string with a backslash in front of a line feed. -/
def Token.EscapesFeed (token : Token) : Prop :=
  (token.kind = .string .single ∨ token.kind = .string .double) ∧
    Lexeme.EscapesBreak token.text.toList

instance (token : Token) : Decidable token.EscapesFeed :=
  inferInstanceAs (Decidable (_ ∧ _))

/-- The same token in a text with two characters in every line break. -/
structure Token.SameUpToReturns (token other : Token) : Prop where
  kind : other.kind = token.kind
  text : other.text.toList = crlf token.text.toList
  line : other.span.start.line = token.span.start.line

namespace Cursor

/-- The tokens behind a blank are those behind the next character. -/
theorem tokens_blank
    {c : Char}
    (hc : isBlank c = true)
    (pos : Position)
    (cs : List Char) :
    tokens ⟨pos, c :: cs⟩ = tokens ⟨pos.after c, cs⟩ := by
  have hskip : skipGap ⟨pos, c :: cs⟩ = skipGap ⟨pos.after c, cs⟩ := by
    rw [skipGap, skipGap, Lexeme.gap_blank hc]
    rfl
  rw [tokens, tokens, hskip]

/-- Two cursors that stand on the same line, and then move over the same characters, stand on the
same line again. -/
theorem advanceBy_crlf
    {cursor : Cursor}
    {taken rest : List Char}
    (hrest : cursor.rest = taken ++ rest)
    {pos : Position}
    (hline : pos.line = cursor.pos.line) :
    ∃ pos', advanceBy (crlf taken).length ⟨pos, crlf cursor.rest⟩ = ⟨pos', crlf rest⟩ ∧
      pos'.line = (advanceBy taken.length cursor).pos.line := by
  have hnewRest : (advanceBy (crlf taken).length ⟨pos, crlf cursor.rest⟩).rest = crlf rest := by
    rw [rest_advanceBy, hrest, crlf_append, List.drop_left]
  refine ⟨_, congrArg (Cursor.mk _) hnewRest, ?_⟩
  rw [pos_advanceBy, pos_advanceBy, hrest, crlf_append, List.take_left, List.take_left]
  exact afterAll_crlf_line hline taken

/-- The gap in front of a token has the same number of lines in both texts. -/
theorem skipGap_crlf
    {cursor : Cursor}
    (hreturn : '\r' ∉ cursor.rest)
    {pos : Position}
    (hline : pos.line = cursor.pos.line) :
    ∃ pos', skipGap ⟨pos, crlf cursor.rest⟩ = ⟨pos', crlf cursor.skipGap.rest⟩ ∧
      pos'.line = cursor.skipGap.pos.line := by
  have happend := Lexeme.gap_append cursor.rest
  rw [← skipGap_rest] at happend
  rw [skipGap, Lexeme.gap_crlf hreturn]
  exact advanceBy_crlf happend.symm hline

/-- Two cursors that stand on the same line in front of one lexeme stand on the same line behind
it. -/
theorem advanceBy_spelling_crlf
    {cursor : Cursor}
    {lexeme : Lexeme}
    (hfront : lexeme.spelling <+: cursor.rest)
    {pos : Position}
    (hline : pos.line = cursor.pos.line) :
    ∃ pos', advanceBy lexeme.withReturns.spelling.length ⟨pos, crlf cursor.rest⟩ =
        ⟨pos', crlf (advanceBy lexeme.spelling.length cursor).rest⟩ ∧
      pos'.line = (advanceBy lexeme.spelling.length cursor).pos.line := by
  obtain ⟨behind, hbehind⟩ := hfront
  have hrest : (advanceBy lexeme.spelling.length cursor).rest = behind := by
    rw [rest_advanceBy, ← hbehind, List.drop_left]
  rw [hrest]
  exact advanceBy_crlf hbehind.symm hline

/-- What is left of a text without carriage returns has none. -/
theorem return_notMem_advanceBy
    {cursor : Cursor}
    (hreturn : '\r' ∉ cursor.rest)
    (n : Nat) :
    '\r' ∉ (advanceBy n cursor).rest := by
  rw [rest_advanceBy]
  exact fun hmem => hreturn (List.mem_of_mem_drop hmem)

/-- A backslash in front of a line feed is in the first token or in a later one. -/
theorem exists_escapesFeed_cons
    (lexeme : Lexeme)
    (start stop : Position)
    (words : List Token) :
    (∃ token ∈ (⟨lexeme.kind, String.ofList lexeme.text, start, stop⟩ : Token) :: words,
        token.EscapesFeed) ↔
      lexeme.EscapesFeed ∨ ∃ token ∈ words, token.EscapesFeed := by
  simp [Token.EscapesFeed, Lexeme.EscapesFeed]

/-- The tokens of the new text, from a place on the same line on: the same ones, unless one of them
is a string with an escaped line feed. -/
theorem tokens_crlf
    {cursor : Cursor}
    {words : List Token}
    (hreturn : '\r' ∉ cursor.rest)
    (h : cursor.tokens = .ok words)
    {pos : Position}
    (hline : pos.line = cursor.pos.line) :
    (¬ ∃ token ∈ words, token.EscapesFeed) ∧
        (∃ others, tokens ⟨pos, crlf cursor.rest⟩ = .ok others ∧
          List.Forall₂ Token.SameUpToReturns words others) ∨
      (∃ token ∈ words, token.EscapesFeed) ∧
        ∃ span, tokens ⟨pos, crlf cursor.rest⟩ = .error ⟨.unclosedString, span⟩ := by
  fun_induction Cursor.tokens cursor generalizing words pos with
  | case1 cursor hrest =>
      obtain rfl := Except.ok.inj h
      obtain ⟨pos', hskip, hline'⟩ := skipGap_crlf hreturn hline
      rw [hrest] at hskip
      have hnew := tokens_of_skipGap_nil (congrArg Cursor.rest hskip)
      rw [hskip] at hnew
      refine .inl ⟨?_, _, hnew, .cons ⟨rfl, rfl, hline'⟩ .nil⟩
      rintro ⟨token, htoken, hstring, -⟩
      obtain rfl := List.mem_singleton.mp htoken
      rcases hstring with hstring | hstring <;> cases hstring
  | case2 cursor first cs hrest cause extent hread => cases h
  | case3 cursor first cs hrest lexeme hread next =>
      rename_i ih
      obtain ⟨rest, hnext, htokens⟩ := Except.bind_eq_ok_iff.mp h
      obtain rfl := Except.ok.inj htokens
      obtain ⟨pos', hskip, hline'⟩ := skipGap_crlf hreturn hline
      have hfirst := Lexeme.ne_newline_of_read hread
      have hnewRest : (skipGap ⟨pos, crlf cursor.rest⟩).rest = first :: crlf cs := by
        rw [hskip, hrest, crlf_cons_of_ne hfirst]
      have hreturn' := return_notMem_advanceBy hreturn (Lexeme.gap cursor.rest).length
      rcases Lexeme.read_crlf (hrest ▸ hreturn') hread with ⟨hnot, hnew⟩ | ⟨hfeed, extent, hnew⟩
      · have hfront := (Lexeme.read_fits hread).atFront
        rw [← hrest] at hfront
        obtain ⟨pos'', hadvance, hline''⟩ := advanceBy_spelling_crlf hfront hline'
        have hnewTokens := tokens_of_lexeme hnewRest hnew
        rw [hskip, hadvance] at hnewTokens
        have hsame : Token.SameUpToReturns
            ⟨lexeme.kind, String.ofList lexeme.text, cursor.skipGap.pos, next.pos⟩
            ⟨lexeme.withReturns.kind, String.ofList lexeme.withReturns.text, pos', pos''⟩ :=
          ⟨rfl, by simp [Lexeme.withReturns], hline'⟩
        rcases ih (return_notMem_advanceBy hreturn' _) hnext hline'' with
          ⟨hnone, others, hothers, hall⟩ | ⟨hsome, span, herror⟩
        · refine .inl ⟨fun hexists => ?_, _, ?_, .cons hsame hall⟩
          · exact ((exists_escapesFeed_cons _ _ _ _).mp hexists).elim hnot hnone
          · rw [hnewTokens, hothers]
            rfl
        · refine .inr ⟨(exists_escapesFeed_cons _ _ _ _).mpr (.inr hsome), span, ?_⟩
          rw [hnewTokens, herror]
          rfl
      · refine .inr ⟨(exists_escapesFeed_cons _ _ _ _).mpr (.inl hfeed), ?_⟩
        exact tokens_of_error hnewRest hnew

/-- A first line with a shebang is skipped up to its line break. -/
theorem skipShebang_line
    {line rest : List Char}
    (hline : '\n' ∉ line)
    (hend : LineEnds rest)
    (pos : Position) :
    skipShebang ⟨pos, '#' :: '!' :: line ++ rest⟩ = ⟨pos.afterAll ('#' :: '!' :: line), rest⟩ := by
  have htake : ('#' :: '!' :: line ++ rest).takeWhile (· != '\n') = '#' :: '!' :: line := by
    have hall : ∀ c ∈ '#' :: '!' :: line, (c != '\n') = true := by
      intro c hc
      simp only [List.mem_cons] at hc
      rcases hc with rfl | rfl | hc
      · decide
      · decide
      · exact bne_iff_ne.mpr fun heq => hline (heq ▸ hc)
    rw [List.takeWhile_append_of_pos hall]
    rcases hend with rfl | hend
    · simp
    · obtain ⟨more, rfl⟩ : ∃ more, rest = '\n' :: more := List.head?_eq_some_iff.mp hend
      simp
  have hskip : skipShebang ⟨pos, '#' :: '!' :: line ++ rest⟩ =
      advanceBy ('#' :: '!' :: line).length ⟨pos, '#' :: '!' :: line ++ rest⟩ := by
    exact congrArg (fun taken => advanceBy (List.length taken) _) htake
  have hpos := pos_advanceBy ('#' :: '!' :: line).length ⟨pos, '#' :: '!' :: line ++ rest⟩
  have hrest := rest_advanceBy ('#' :: '!' :: line).length ⟨pos, '#' :: '!' :: line ++ rest⟩
  rw [List.take_left] at hpos
  rw [List.drop_left] at hrest
  exact hskip.trans (congrArg₂ Cursor.mk hpos hrest)

theorem skipShebang_of_not
    {pos : Position}
    {cs : List Char}
    (h : ∀ rest, cs ≠ '#' :: '!' :: rest) :
    skipShebang ⟨pos, cs⟩ = ⟨pos, cs⟩ := by
  unfold skipShebang
  split
  · rename_i rest hrest
    exact absurd hrest (h rest)
  · rfl

/-- A first line that is skipped takes a carriage return with it; behind the line it would be a
blank. -/
theorem tokens_skipShebang_crlf (source : List Char) :
    ∃ pos : Position, pos.line = (skipShebang ⟨{}, source⟩).pos.line ∧
      (skipShebang ⟨{}, crlf source⟩).tokens =
        tokens ⟨pos, crlf (skipShebang ⟨{}, source⟩).rest⟩ := by
  by_cases hshebang : ∃ cs, source = '#' :: '!' :: cs
  · obtain ⟨cs, rfl⟩ := hshebang
    have hline := newline_not_mem_takeWhile cs
    have hend := lineEnds_dropWhile cs
    have hsplit := List.takeWhile_append_dropWhile (p := (· != '\n')) (l := cs)
    generalize cs.takeWhile (· != '\n') = line at hline hsplit
    generalize cs.dropWhile (· != '\n') = rest at hend hsplit
    subst hsplit
    have hskip := skipShebang_line hline hend {}
    simp only [List.cons_append] at hskip
    refine ⟨_, rfl, ?_⟩
    rw [hskip]
    rcases hend with rfl | hend
    · have hsame : crlf ('#' :: '!' :: (line ++ [])) = '#' :: '!' :: (line ++ []) := by
        refine crlf_eq_self ?_
        simp [hline]
      rw [hsame, hskip, crlf_nil]
    · obtain ⟨more, rfl⟩ : ∃ more, rest = '\n' :: more := List.head?_eq_some_iff.mp hend
      have hnew : crlf ('#' :: '!' :: (line ++ '\n' :: more)) =
          '#' :: '!' :: (line ++ ['\r']) ++ '\n' :: crlf more := by
        have hfront : crlf ('#' :: '!' :: (line ++ '\n' :: more)) =
            '#' :: '!' :: crlf (line ++ '\n' :: more) := rfl
        rw [hfront, crlf_append, crlf_eq_self hline, crlf_newline]
        simp
      rw [hnew, skipShebang_line (by simp [hline]) (.inr rfl), crlf_newline,
        tokens_blank (c := '\r') (by decide)]
      simp [Position.afterAll]
  · have hold : ∀ rest, source ≠ '#' :: '!' :: rest := fun rest h => hshebang ⟨rest, h⟩
    have hnew : ∀ rest, crlf source ≠ '#' :: '!' :: rest := by
      intro rest h
      have hhash := (head?_crlf (c := '#') (by decide) (by decide) source).mp (by rw [h]; rfl)
      obtain ⟨cs, rfl⟩ := List.head?_eq_some_iff.mp hhash
      rw [crlf_cons_of_ne (by decide)] at h
      have hbang := (head?_crlf (c := '!') (by decide) (by decide) cs).mp
        (by rw [(List.cons.inj h).2]; rfl)
      obtain ⟨ds, rfl⟩ := List.head?_eq_some_iff.mp hbang
      exact hold ds rfl
    rw [skipShebang_of_not hold, skipShebang_of_not hnew]
    exact ⟨{}, rfl, rfl⟩

end Cursor

/-- In a source without carriage returns, every line feed is given one.  If no quoted string has a
backslash in front of a line feed, then the new source is cut into as many tokens of the same kinds
on the same lines, with the same texts but for the carriage returns.  Otherwise one of its strings
is never closed. -/
theorem tokenize_crlf
    {source : String}
    {tokens : List Token}
    (hreturn : '\r' ∉ source.toList)
    (h : tokenize source = .ok tokens) :
    ((¬ ∃ token ∈ tokens, token.EscapesFeed) →
      ∃ others, tokenize (String.ofList (crlf source.toList)) = .ok others ∧
        List.Forall₂ Token.SameUpToReturns tokens others) ∧
    ((∃ token ∈ tokens, token.EscapesFeed) →
      ∃ span, tokenize (String.ofList (crlf source.toList)) = .error ⟨.unclosedString, span⟩) := by
  obtain ⟨pos, hline, hnew⟩ := Cursor.tokens_skipShebang_crlf source.toList
  have hreturn' : '\r' ∉ (Cursor.skipShebang ⟨{}, source.toList⟩).rest := by
    rcases Cursor.skipShebang_cases (Cursor.ofText source) with hsame | ⟨line, -, hrest, -, -⟩
    · rw [Cursor.ofText] at hsame
      rw [hsame]
      exact hreturn
    · replace hrest : source.toList = '#' :: '!' :: line ++ _ := hrest
      rw [hrest] at hreturn
      exact fun hmem => hreturn (List.mem_append_right _ hmem)
  have hsource : tokenize (String.ofList (crlf source.toList)) =
      Cursor.tokens ⟨pos, crlf (Cursor.skipShebang ⟨{}, source.toList⟩).rest⟩ := by
    rw [tokenize, Cursor.ofText, String.toList_ofList, hnew]
  rw [hsource]
  rcases Cursor.tokens_crlf hreturn' h hline with ⟨hnone, hothers⟩ | ⟨hsome, herror⟩
  · exact ⟨fun _ => hothers, fun hsome => absurd hsome hnone⟩
  · exact ⟨fun hnone => absurd hsome hnone, fun _ => herror⟩

/-- A line for the system, a line comment, a long bracket that begins with a line break, and `\z` in
front of one. -/
def brokenLines : String :=
  "#!lua\nf[[\na\n]] -- b\ng'c\\z\n'"

/-- A source with line breaks in a string, in a comment and between its tokens. -/
theorem tokenize_crlf_brokenLines :
    '\r' ∉ brokenLines.toList ∧ ∃ tokens, tokenize brokenLines = .ok tokens ∧
      (¬ ∃ token ∈ tokens, token.EscapesFeed) ∧
      ∃ others, tokenize (String.ofList (crlf brokenLines.toList)) = .ok others ∧
        List.Forall₂ Token.SameUpToReturns tokens others := by
  have hreturn : '\r' ∉ brokenLines.toList := by decide
  have hnone : (tokenize brokenLines).map
      (fun tokens => decide (∃ token ∈ tokens, token.EscapesFeed)) = .ok false := by decide +kernel
  cases htokens : tokenize brokenLines with
  | error error =>
      rw [htokens] at hnone
      cases hnone
  | ok tokens =>
      rw [htokens] at hnone
      have hnot := of_decide_eq_false (Except.ok.inj hnone)
      exact ⟨hreturn, tokens, rfl, hnot, (tokenize_crlf hreturn htokens).1 hnot⟩

/-- The line feed behind a backslash is part of a string, but not if a carriage return stands
between them. -/
theorem escaped_return_unclosed :
    ∃ source, '\r' ∉ source.toList ∧ (tokenize source).isOk = true ∧
      ∀ others, tokenize (String.ofList (crlf source.toList)) ≠ .ok others := by
  refine ⟨"x = \"a\\\nb\"", by decide, by decide +kernel, fun others h => ?_⟩
  have hunclosed : (tokenize (String.ofList (crlf "x = \"a\\\nb\"".toList))).isOk = false := by
    decide +kernel
  rw [h] at hunclosed
  cases hunclosed

end LuaView
