import LuaView.Proofs.Lexing.Partition
import LuaView.Proofs.Number.Rereading
import LuaView.Proofs.Text.Quoting

/-!
# Marks

A mark is a token without its place: a kind and a text.  A mark is spelled in one way, and a text
that begins with that spelling is read as the mark, provided that the next character may stand
behind it.  `Lexed cs marks` says that a text is cut into the given marks.
-/

namespace LuaView

/-- A token without its place. -/
structure Mark where
  kind : Kind
  text : String
deriving DecidableEq, Repr

def Token.mark (token : Token) : Mark :=
  ⟨token.kind, token.text⟩

namespace Mark

/-- A reserved word. -/
def word (keyword : Keyword) : Mark :=
  ⟨.keyword keyword, keyword.text⟩

/-- An operator or a punctuation sign. -/
def sign (symbol : Symbol) : Mark :=
  ⟨.symbol symbol, symbol.text⟩

def name (id : String) : Mark :=
  ⟨.name, id⟩

/-- How a mark is written. -/
def spelling (mark : Mark) : List Char :=
  match mark.kind with
  | .string delimiter => (delimiter.quote mark.text).toList
  | _ => mark.text.toList

/-- The mark can be written. -/
def Valid (mark : Mark) : Prop :=
  match mark.kind with
  | .keyword keyword => mark.text = keyword.text
  | .symbol symbol => mark.text = symbol.text
  | .number => (Number.ofNumeral? mark.text.toList).isSome ∧
      ∀ c ∈ mark.text.toList.head?, c.isDigit = true
  | .string .single => Lexeme.IsQuotedText '\'' mark.text.toList
  | .string .double => Lexeme.IsQuotedText '"' mark.text.toList
  | .string .long => LongBracket.StartsPlain mark.text.toList
  | .name => IsName mark.text.toList
  | .eof => False

/-- The character right behind a symbol would not make it another lexeme. -/
def signAllows : Symbol → Char → Bool
  | .dot, c => c != '.' && !c.isDigit
  | .dotDot, c => c != '.'
  | .minus, c => c != '-'
  | .lt, c => c != '<' && c != '='
  | .gt, c => c != '>' && c != '='
  | .eq, c => c != '='
  | .tilde, c => c != '='
  | .slash, c => c != '/'
  | .colon, c => c != ':'
  | .lbracket, c => c != '[' && c != '='
  | _, _ => true

/-- The character may stand right behind a mark. -/
def allows (mark : Mark) (c : Char) : Bool :=
  match mark.kind with
  | .keyword _ | .name => !CharClass.isWord c
  | .number => endsNumeral c
  | .symbol symbol => signAllows symbol c
  | .string _ | .eof => true

/-- The text is read as the mark, and what remains is `rest`. -/
structure ReadsAs (mark : Mark) (rest : List Char) : Prop where
  gap : Lexeme.gap (mark.spelling ++ rest) = []
  read : ∃ first cs lexeme, mark.spelling ++ rest = first :: cs ∧
    Lexeme.read first cs = .ok lexeme ∧ lexeme.kind = mark.kind ∧
    lexeme.text = mark.text.toList ∧ lexeme.spelling = mark.spelling

end Mark

namespace Lexeme

/-- A token follows at once if its first character is neither a blank nor begins a comment. -/
theorem gap_eq_nil
    {first : Char}
    {cs : List Char}
    (hblank : isBlank first = false)
    (hdash : first = '-' → cs.head? ≠ some '-') :
    gap (first :: cs) = [] := by
  have hfiller : filler (first :: cs) = [] := by
    unfold filler
    split
    · rename_i heq
      obtain ⟨rfl, rfl⟩ := List.cons.inj heq
      exact absurd rfl (hdash rfl)
    · simp [hblank]
  rw [gap, if_pos hfiller]

/-- Only a bracket opens a long bracket. -/
theorem level?_eq_none
    {first : Char}
    {cs : List Char}
    (h : first ≠ '[') :
    LongBracket.level? (first :: cs) = none := by
  unfold LongBracket.level?
  split
  · rename_i heq
    exact absurd (List.cons.inj heq).1 h
  · rfl

/-- The characters of words have code points between those of `0` and `z`. -/
theorem toNat_of_isWord
    {c : Char}
    (h : CharClass.isWord c = true) :
    48 ≤ c.toNat ∧ c.toNat ≤ 122 := by
  have hle : ∀ {a b : Char}, a.val ≤ b.val → a.toNat ≤ b.toNat := UInt32.le_iff_toNat_le.mp
  simp only [CharClass.isWord, Char.isAlphanum, Char.isDigit] at h
  delta Char.isAlpha Char.isUpper Char.isLower at h
  simp only [Bool.or_eq_true, Bool.and_eq_true, decide_eq_true_eq, beq_iff_eq, ge_iff_le] at h
  have hA : 'A'.toNat = 65 := rfl
  have hZ : 'Z'.toNat = 90 := rfl
  have ha : 'a'.toNat = 97 := rfl
  have hz : 'z'.toNat = 122 := rfl
  have h0 : '0'.toNat = 48 := rfl
  have h9 : '9'.toNat = 57 := rfl
  rcases h with ((⟨hlow, hhigh⟩ | ⟨hlow, hhigh⟩) | ⟨hlow, hhigh⟩) | rfl
  · have := hle hlow
    have := hle hhigh
    omega
  · have := hle hlow
    have := hle hhigh
    omega
  · have := hle hlow
    have := hle hhigh
    omega
  · decide

theorem not_isBlank_of_isWord
    {c : Char}
    (h : CharClass.isWord c = true) :
    isBlank c = false := by
  refine Bool.eq_false_iff.mpr fun hblank => ?_
  have hrange := toNat_of_isWord h
  simp [isBlank, CharClass.inRanges, blankRanges] at hblank
  omega

/-- A character of a word is none of the given other characters. -/
theorem ne_of_isWord
    {c d : Char}
    (h : CharClass.isWord c = true)
    (hd : CharClass.isWord d = false) :
    c ≠ d := by
  rintro rfl
  rw [h] at hd
  cases hd

theorem isWord_of_isNameStart
    {c : Char}
    (h : CharClass.isNameStart c = true) :
    CharClass.isWord c = true := by
  simp only [CharClass.isNameStart, CharClass.isWord, Char.isAlphanum, Bool.or_eq_true] at h ⊢
  exact h.imp .inl id

theorem not_isDigit_of_isNameStart
    {c : Char}
    (h : CharClass.isNameStart c = true) :
    c.isDigit = false := by
  refine Bool.eq_false_iff.mpr fun hdigit => ?_
  have hle : ∀ {a b : Char}, a.val ≤ b.val → a.toNat ≤ b.toNat := UInt32.le_iff_toNat_le.mp
  simp only [CharClass.isNameStart, Char.isDigit] at h hdigit
  delta Char.isAlpha Char.isUpper Char.isLower at h
  simp only [Bool.or_eq_true, Bool.and_eq_true, decide_eq_true_eq, beq_iff_eq, ge_iff_le]
    at h hdigit
  have hA : 'A'.toNat = 65 := rfl
  have ha : 'a'.toNat = 97 := rfl
  have h9 : '9'.toNat = 57 := rfl
  have hhigh := hle hdigit.2
  rcases h with (⟨hlow, _⟩ | ⟨hlow, _⟩) | rfl
  · have := hle hlow
    omega
  · have := hle hlow
    omega
  · revert hhigh
    decide

/-- What starts like a name is a word. -/
theorem read_of_isNameStart
    {first : Char}
    (hfirst : CharClass.isNameStart first = true)
    (cs : List Char) :
    read first cs = .ok (readWord first cs) := by
  have hword := isWord_of_isNameStart hfirst
  have hdash : first ≠ '-' := ne_of_isWord hword (by decide)
  have hpoint : first ≠ '.' := ne_of_isWord hword (by decide)
  unfold read
  rw [if_neg (fun h => hdash h.1), level?_eq_none (ne_of_isWord hword (by decide))]
  simp only [not_isDigit_of_isNameStart hfirst, beq_false_of_ne hpoint, Bool.false_and,
    Bool.or_self, Bool.false_eq_true, if_false,
    if_neg (ne_of_isWord hword (d := '"') (by decide)),
    if_neg (ne_of_isWord hword (d := '\'') (by decide)), hfirst, if_true]

/-- A run of characters of words is a lexeme up to the first other character. -/
theorem read_word
    {first : Char}
    {cs rest : List Char}
    (hfirst : CharClass.isNameStart first = true)
    (hcs : cs.all CharClass.isWord = true)
    (hrest : ∀ c ∈ rest.head?, CharClass.isWord c = false) :
    ∃ lexeme, read first (cs ++ rest) = .ok lexeme ∧
      lexeme.text = first :: cs ∧ lexeme.spelling = first :: cs ∧
      lexeme.kind = (Keyword.ofText? (String.ofList (first :: cs))).elim .name .keyword := by
  have htake : (cs ++ rest).takeWhile CharClass.isWord = cs := by
    rw [List.takeWhile_append_of_pos (List.all_eq_true.mp hcs)]
    cases rest with
    | nil => simp
    | cons c rest => simp [hrest c rfl]
  refine ⟨_, read_of_isNameStart hfirst _, ?_, ?_, ?_⟩
  · simp [readWord, htake]
  · simp [readWord, htake]
  · simp only [readWord, htake]
    cases Keyword.ofText? (String.ofList (first :: cs)) <;> rfl

/-- A numeral is read up to the first character that can end it. -/
theorem read_numeral
    {first : Char}
    {cs rest : List Char}
    (hfirst : first.isDigit = true)
    (h : (Number.ofNumeral? (first :: cs)).isSome)
    (hrest : ∀ c ∈ rest.head?, endsNumeral c = true) :
    ∃ lexeme, read first (cs ++ rest) = .ok lexeme ∧
      lexeme.kind = .number ∧ lexeme.text = first :: cs ∧ lexeme.spelling = first :: cs := by
  have hword : CharClass.isWord first = true :=
    CharClass.isWord_of_isHexDigit (CharClass.isHexDigit_of_isDigit hfirst)
  have hdash : first ≠ '-' := ne_of_isWord hword (by decide)
  have hspelling := numeralSpelling_of_isSome hfirst h hrest
  unfold read
  rw [if_neg (fun h => hdash h.1), level?_eq_none (ne_of_isWord hword (by decide))]
  simp only [hfirst, Bool.true_or, if_true, readNumeral, hspelling, h]
  exact ⟨_, rfl, rfl, rfl, rfl⟩

/-- A quoted text is read up to its quotation mark. -/
theorem read_quoted
    {quote : Char}
    {delimiter : Delimiter}
    (hdelimiter : quote = '\'' ∧ delimiter = .single ∨ quote = '"' ∧ delimiter = .double)
    {text : List Char}
    (h : IsQuotedText quote text)
    (rest : List Char) :
    ∃ lexeme, read quote (text ++ quote :: rest) = .ok lexeme ∧
      lexeme.kind = .string delimiter ∧ lexeme.text = text ∧
      lexeme.spelling = quote :: text ++ [quote] := by
  have hquoted : readQuoted quote delimiter (text ++ quote :: rest) =
      .ok { kind := .string delimiter, text := text, spelling := quote :: text ++ [quote] } := by
    simp only [readQuoted, h rest, if_true]
  have hread : read quote (text ++ quote :: rest) =
      readQuoted quote delimiter (text ++ quote :: rest) := by
    obtain ⟨rfl, rfl⟩ | ⟨rfl, rfl⟩ := hdelimiter
    · simp [read, level?_eq_none]
    · simp [read, level?_eq_none]
  exact ⟨_, hread.trans hquoted, rfl, rfl, rfl⟩

/-- A text in long brackets is a lexeme, but for a line break at its front, which is in the spelling
of the lexeme only. -/
theorem read_long (text rest : List Char) :
    ∃ first cs lexeme, LongBracket.quote text ++ rest = first :: cs ∧
      read first cs = .ok lexeme ∧ lexeme.kind = .string .long ∧
      lexeme.text = text.drop (LongBracket.leadingBreak text).length ∧
      lexeme.spelling = LongBracket.quote text := by
  have hread := LongBracket.read?_quote text rest
  have hlevel := LongBracket.level?_quote text rest
  have hfront : ∃ cs, LongBracket.quote text ++ rest = '[' :: cs :=
    ⟨_, by simp only [LongBracket.quote, LongBracket.opening, List.cons_append]; rfl⟩
  obtain ⟨cs, hcs⟩ := hfront
  rw [hcs] at hread hlevel
  refine ⟨'[', cs, ?_⟩
  rw [read, if_neg (fun h => absurd h.1 (by decide)), hlevel]
  simp only [readLong, hread]
  refine ⟨_, hcs, rfl, rfl, rfl, ?_⟩
  simp only [LongBracket.spelling, LongBracket.quote, List.append_assoc]
  rw [← List.append_assoc (LongBracket.leadingBreak text), LongBracket.leadingBreak_append_drop]

/-- A long bracket is no comment without the dashes in front. -/
theorem gap_long (text rest : List Char) :
    gap (LongBracket.quote text ++ rest) = [] := by
  simp only [LongBracket.quote, LongBracket.opening, List.cons_append]
  exact gap_eq_nil (by decide) fun h => absurd h (by decide)

/-- A symbol is the longest one if no character follows that makes it longer. -/
theorem longest?_symbol
    {symbol : Symbol}
    {rest : List Char}
    (hrest : ∀ c ∈ rest.head?, Mark.signAllows symbol c = true) :
    Symbol.longest? (symbol.text.toList ++ rest) = some symbol := by
  cases rest with
  | nil => cases symbol <;> decide
  | cons c rest =>
      have hc := hrest c rfl
      cases symbol <;>
        simp_all [Symbol.longest?, Symbol.all, Symbol.text, List.isPrefixOf, Mark.signAllows] <;>
        grind

/-- The first character of a symbol starts no lexeme of another kind, but for three of them. -/
theorem head_symbol
    {symbol : Symbol}
    {c : Char}
    (hc : symbol.text.toList.head? = some c) :
    isBlank c = false ∧ c ≠ '"' ∧ c ≠ '\'' ∧ CharClass.isNameStart c = false ∧ c.isDigit = false ∧
      (c = '-' → symbol = .minus) ∧ (c = '[' → symbol = .lbracket) ∧
      (c = '.' → symbol = .dot ∨ symbol = .dotDot ∨ symbol = .ellipsis) := by
  have hhead : some (symbol.text.toList.headD ' ') = some c := by
    rw [← hc]
    cases symbol <;> decide
  obtain rfl := Option.some.inj hhead
  cases symbol <;> decide

/-- A bracket is no long one unless a sign follows that makes it one. -/
theorem level?_lbracket
    {rest : List Char}
    (hrest : ∀ c ∈ rest.head?, Mark.signAllows .lbracket c = true) :
    LongBracket.level? ('[' :: rest) = none := by
  cases rest with
  | nil => rfl
  | cons c rest =>
      have hc := hrest c rfl
      simp only [Mark.signAllows, Bool.and_eq_true, bne_iff_ne, ne_eq] at hc
      simp [LongBracket.level?, hc.1, hc.2]

/-- A symbol is read as such if the next character does not make it another lexeme. -/
theorem read_symbol
    {symbol : Symbol}
    {rest : List Char}
    (hrest : ∀ c ∈ rest.head?, Mark.signAllows symbol c = true) :
    gap (symbol.text.toList ++ rest) = [] ∧
      ∃ first cs lexeme, symbol.text.toList ++ rest = first :: cs ∧
        read first cs = .ok lexeme ∧ lexeme.kind = .symbol symbol ∧
        lexeme.text = symbol.text.toList ∧ lexeme.spelling = symbol.text.toList := by
  have hlongest := longest?_symbol hrest
  cases htext : symbol.text.toList with
  | nil =>
      cases symbol <;> simp [Symbol.text] at htext
  | cons first tail =>
      obtain ⟨hblank, hdouble, hsingle, hname, hdigit, hminus, hbracket, hpoint⟩ :=
        @head_symbol symbol first (by rw [htext]; rfl)
      have hdash : first = '-' → (tail ++ rest).head? ≠ some '-' := by
        intro hfirst hhead
        obtain rfl := hminus hfirst
        obtain rfl : tail = [] := (List.cons.inj (htext.symm.trans (by decide : _ = ['-']))).2
        exact absurd (hrest '-' hhead) (by decide)
      have hlevel : LongBracket.level? (first :: (tail ++ rest)) = none := by
        by_cases hfirst : first = '['
        · obtain rfl := hbracket hfirst
          obtain rfl : tail = [] := (List.cons.inj (htext.symm.trans (by decide : _ = ['[']))).2
          rw [hfirst]
          exact level?_lbracket hrest
        · exact level?_eq_none hfirst
      have hnumeral : (first.isDigit ||
          (first == '.' && (tail ++ rest).head?.any Char.isDigit)) = false := by
        by_cases hfirst : first = '.'
        · rcases hpoint hfirst with rfl | rfl | rfl
          · obtain rfl : tail = [] := (List.cons.inj (htext.symm.trans (by decide : _ = ['.']))).2
            cases rest with
            | nil => simp [hdigit]
            | cons c rest =>
                have hc := hrest c rfl
                simp only [Mark.signAllows, Bool.and_eq_true, Bool.not_eq_true'] at hc
                simp [hdigit, hc.2]
          · obtain rfl : tail = ['.'] :=
              (List.cons.inj (htext.symm.trans (by decide : _ = ['.', '.']))).2
            simp [hdigit]
          · obtain rfl : tail = ['.', '.'] :=
              (List.cons.inj (htext.symm.trans (by decide : _ = ['.', '.', '.']))).2
            simp [hdigit]
        · simp [hdigit, hfirst]
      have hread : read first (tail ++ rest) = readSymbol first (tail ++ rest) := by
        unfold read
        rw [if_neg (fun h => hdash h.1 h.2), hlevel]
        simp only [hnumeral, Bool.false_eq_true, if_false, if_neg hdouble, if_neg hsingle, hname]
      rw [htext] at hlongest
      refine ⟨gap_eq_nil hblank hdash, first, tail ++ rest, ?_⟩
      rw [hread, readSymbol, ← List.cons_append, hlongest]
      exact ⟨_, rfl, rfl, rfl, htext, htext⟩

end Lexeme

namespace Mark

theorem isIdentifier_keyword (keyword : Keyword) :
    isIdentifier keyword.text.toList = true := by
  cases keyword <;> decide

/-- Every keyword is found by its text. -/
theorem ofText?_keyword (keyword : Keyword) :
    Keyword.ofText? keyword.text = some keyword := by
  cases keyword <;> decide

/-- The text of a word is a lexeme in front of any character that is not of a word. -/
theorem readsAs_word
    {mark : Mark}
    (htext : isIdentifier mark.text.toList = true)
    (hkind : mark.kind = (Keyword.ofText? mark.text).elim .name .keyword)
    (hspelling : mark.spelling = mark.text.toList)
    {rest : List Char}
    (hrest : ∀ c ∈ rest.head?, CharClass.isWord c = false) :
    mark.ReadsAs rest := by
  cases hchars : mark.text.toList with
  | nil =>
      rw [hchars] at htext
      cases htext
  | cons first cs =>
      rw [hchars] at htext
      simp only [isIdentifier, Bool.and_eq_true] at htext
      have hword := Lexeme.isWord_of_isNameStart htext.1
      obtain ⟨lexeme, hread, hlexemeText, hlexemeSpelling, hlexemeKind⟩ :=
        Lexeme.read_word htext.1 htext.2 hrest
      have hofList : String.ofList (first :: cs) = mark.text := by
        rw [← hchars, String.ofList_toList]
      rw [hofList] at hlexemeKind
      rw [hchars] at hspelling
      refine ⟨?_, first, cs ++ rest, lexeme, ?_, hread, ?_, ?_, ?_⟩
      · rw [hspelling]
        exact Lexeme.gap_eq_nil (Lexeme.not_isBlank_of_isWord hword)
          fun h => absurd h (Lexeme.ne_of_isWord hword (by decide))
      · rw [hspelling, List.cons_append]
      · rw [hlexemeKind, hkind]
      · rw [hlexemeText, hchars]
      · rw [hlexemeSpelling, hspelling]

/-- A valid mark is read back in front of a character that may stand behind it. -/
theorem Valid.readsAs
    {mark : Mark}
    (h : mark.Valid)
    {rest : List Char}
    (hrest : ∀ c ∈ rest.head?, mark.allows c = true) :
    mark.ReadsAs rest := by
  obtain ⟨kind, text⟩ := mark
  cases kind with
  | keyword keyword =>
      obtain rfl : text = keyword.text := h
      refine readsAs_word (isIdentifier_keyword keyword) ?_ rfl fun c hc => ?_
      · rw [ofText?_keyword]
        rfl
      · simpa [allows] using hrest c hc
  | name =>
      obtain ⟨hidentifier, hreserved⟩ : IsName text.toList := h
      rw [String.ofList_toList] at hreserved
      refine readsAs_word hidentifier ?_ rfl fun c hc => ?_
      · rw [hreserved]
        rfl
      · simpa [allows] using hrest c hc
  | number =>
      obtain ⟨hsome, hdigit⟩ : (Number.ofNumeral? text.toList).isSome ∧
        ∀ c ∈ text.toList.head?, c.isDigit = true := h
      cases hchars : text.toList with
      | nil =>
          rw [hchars] at hsome
          cases hsome
      | cons first cs =>
          rw [hchars] at hsome hdigit
          have hfirst := hdigit first rfl
          have hword := CharClass.isWord_of_isHexDigit (CharClass.isHexDigit_of_isDigit hfirst)
          obtain ⟨lexeme, hread, hkind, htext, hspelling⟩ :=
            Lexeme.read_numeral hfirst hsome hrest
          have hself : spelling ⟨.number, text⟩ = first :: cs := hchars
          refine ⟨?_, first, cs ++ rest, lexeme, ?_, hread, hkind, htext.trans hchars.symm, ?_⟩
          · rw [hself]
            exact Lexeme.gap_eq_nil (Lexeme.not_isBlank_of_isWord hword)
              fun h => absurd h (Lexeme.ne_of_isWord hword (by decide))
          · rw [hself, List.cons_append]
          · rw [hspelling, hself]
  | symbol symbol =>
      obtain rfl : text = symbol.text := h
      obtain ⟨hgap, hread⟩ := Lexeme.read_symbol hrest
      exact ⟨hgap, hread⟩
  | string delimiter =>
      have hquoted : ∀ (quote : Char) (delimiter : Delimiter),
          quote = '\'' ∧ delimiter = .single ∨ quote = '"' ∧ delimiter = .double →
          Lexeme.IsQuotedText quote text.toList →
          spelling ⟨.string delimiter, text⟩ = quote :: text.toList ++ [quote] →
          ReadsAs ⟨.string delimiter, text⟩ rest := by
        intro quote delimiter hdelimiter htext hself
        obtain ⟨lexeme, hread, hkind, htext, hspelling⟩ :=
          Lexeme.read_quoted hdelimiter htext rest
        refine ⟨?_, quote, text.toList ++ quote :: rest, lexeme, ?_, hread, hkind, htext, ?_⟩
        · have hfirst : isBlank quote = false ∧ quote ≠ '-' := by
            obtain ⟨rfl, rfl⟩ | ⟨rfl, rfl⟩ := hdelimiter <;> decide
          rw [hself]
          exact Lexeme.gap_eq_nil hfirst.1 fun h => absurd h hfirst.2
        · rw [hself]
          simp
        · rw [hspelling, hself]
      cases delimiter with
      | single =>
          exact hquoted '\'' .single (.inl ⟨rfl, rfl⟩) h (by simp [spelling, Delimiter.quote])
      | double =>
          exact hquoted '"' .double (.inr ⟨rfl, rfl⟩) h (by simp [spelling, Delimiter.quote])
      | long =>
          have hself : spelling ⟨.string .long, text⟩ = LongBracket.quote text.toList := by
            simp [spelling, Delimiter.quote]
          obtain ⟨first, cs, lexeme, hfront, hread, hkind, htext, hspelling⟩ :=
            Lexeme.read_long text.toList rest
          rw [LongBracket.leadingBreak_eq_nil h] at htext
          refine ⟨?_, first, cs, lexeme, ?_, hread, hkind, htext, ?_⟩
          · rw [hself]
            exact Lexeme.gap_long text.toList rest
          · rw [hself, hfront]
          · rw [hspelling, hself]
  | eof => exact absurd h id

end Mark

/-- The text is cut into the marks. -/
inductive Lexed : List Char → List Mark → Prop
  | done
      {cs : List Char}
      (hgap : Lexeme.gap cs = cs) :
      Lexed cs []
  | next
      {cs rest : List Char} {first : Char} {lexeme : Lexeme} {marks : List Mark}
      (hrest : cs.drop (Lexeme.gap cs).length = first :: rest)
      (hread : Lexeme.read first rest = .ok lexeme)
      (hmarks : Lexed ((first :: rest).drop lexeme.spelling.length) marks) :
      Lexed cs (⟨lexeme.kind, String.ofList lexeme.text⟩ :: marks)

theorem Lexeme.gap_blank
    {c : Char}
    (hc : isBlank c = true)
    (cs : List Char) :
    gap (c :: cs) = c :: gap cs := by
  have hfiller : ∀ {d : Char} (ds : List Char), isBlank d = true →
      filler (d :: ds) = d :: ds.takeWhile isBlank := by
    intro d ds hd
    have hdash : d ≠ '-' := by
      rintro rfl
      exact absurd hd (by decide)
    simp [filler, hdash, hd]
  have hgap : gap (c :: cs) = c :: (cs.takeWhile isBlank ++
      gap (cs.drop (cs.takeWhile isBlank).length)) := by
    rw [gap, hfiller cs hc, if_neg (List.cons_ne_nil _ _)]
    rfl
  rw [hgap]
  congr 1
  cases cs with
  | nil => rfl
  | cons d ds =>
      cases hd : isBlank d with
      | false => simp [hd]
      | true =>
          rw [gap.eq_1 (d :: ds), hfiller ds hd, if_neg (List.cons_ne_nil _ _)]
          simp [hd]

namespace Lexed

theorem nil : Lexed [] [] :=
  .done (by rw [Lexeme.gap, if_pos Lexeme.filler_nil])

/-- A blank in front does not change the marks. -/
theorem blank
    {c : Char}
    (hc : isBlank c = true)
    {cs : List Char}
    {marks : List Mark}
    (h : Lexed cs marks) :
    Lexed (c :: cs) marks := by
  cases h with
  | done hgap => exact .done (by rw [Lexeme.gap_blank hc, hgap])
  | next hrest hread hmarks =>
      refine .next ?_ hread hmarks
      rw [Lexeme.gap_blank hc]
      exact hrest

/-- The marks are the same without the blank in front. -/
theorem of_blank
    {c : Char}
    (hc : isBlank c = true)
    {cs : List Char}
    {marks : List Mark}
    (h : Lexed (c :: cs) marks) :
    Lexed cs marks := by
  cases h with
  | done hgap =>
      rw [Lexeme.gap_blank hc] at hgap
      exact .done (List.cons.inj hgap).2
  | next hrest hread hmarks =>
      rw [Lexeme.gap_blank hc] at hrest
      exact .next hrest hread hmarks

theorem blanks
    {cs rest : List Char}
    (hcs : ∀ c ∈ cs, isBlank c = true)
    {marks : List Mark}
    (h : Lexed rest marks) :
    Lexed (cs ++ rest) marks := by
  induction cs with
  | nil => exact h
  | cons c cs ih =>
      exact blank (hcs c List.mem_cons_self) (ih fun d hd => hcs d (List.mem_cons_of_mem c hd))

/-- A valid mark is read back if the character behind it allows that. -/
theorem mark
    {mark : Mark}
    (hmark : mark.Valid)
    {rest : List Char}
    (hrest : ∀ c ∈ rest.head?, mark.allows c = true)
    {marks : List Mark}
    (h : Lexed rest marks) :
    Lexed (mark.spelling ++ rest) (mark :: marks) := by
  obtain ⟨hgap, first, cs, lexeme, hfront, hread, hkind, htext, hspelling⟩ := hmark.readsAs hrest
  have hself : mark = ⟨lexeme.kind, String.ofList lexeme.text⟩ := by
    rw [hkind, htext, String.ofList_toList]
  have hbehind : (first :: cs).drop lexeme.spelling.length = rest := by
    rw [hspelling, ← hfront, List.drop_left]
  rw [hself] at hgap hfront ⊢
  refine .next ?_ hread (hbehind.symm ▸ h)
  rw [hgap]
  exact hfront

/-- A text that is cut into marks is cut into tokens with those marks. -/
theorem tokens
    {cs : List Char}
    {marks : List Mark}
    (h : Lexed cs marks)
    (pos : Position) :
    ∃ words last, Cursor.tokens ⟨pos, cs⟩ = .ok (words ++ [Token.eof last]) ∧
      words.map Token.mark = marks := by
  induction h generalizing pos with
  | @done cs hgap =>
      have hrest : (Cursor.skipGap ⟨pos, cs⟩).rest = [] := by
        rw [Cursor.skipGap, Cursor.rest_advanceBy, hgap, List.drop_length]
      refine ⟨[], (Cursor.skipGap ⟨pos, cs⟩).pos, ?_, rfl⟩
      exact Cursor.tokens_of_skipGap_nil hrest
  | @next cs rest first lexeme marks hrest hread hmarks ih =>
      have hskip : (Cursor.skipGap ⟨pos, cs⟩).rest = first :: rest := by
        rw [Cursor.skipGap, Cursor.rest_advanceBy, hrest]
      have hnext : (Cursor.advanceBy lexeme.spelling.length (Cursor.skipGap ⟨pos, cs⟩)).rest =
          (first :: rest).drop lexeme.spelling.length := by
        rw [Cursor.rest_advanceBy, hskip]
      obtain ⟨words, last, htokens, hwords⟩ :=
        ih (Cursor.advanceBy lexeme.spelling.length (Cursor.skipGap ⟨pos, cs⟩)).pos
      rw [← hnext] at htokens
      refine ⟨⟨lexeme.kind, String.ofList lexeme.text, (Cursor.skipGap ⟨pos, cs⟩).pos,
        (Cursor.advanceBy lexeme.spelling.length (Cursor.skipGap ⟨pos, cs⟩)).pos⟩ :: words, last,
        ?_, congrArg _ hwords⟩
      rw [Cursor.tokens_of_lexeme hskip hread, htokens]
      rfl

/-- Every mark takes a character. -/
theorem length_le
    {cs : List Char}
    {marks : List Mark}
    (h : Lexed cs marks) :
    marks.length ≤ cs.length := by
  induction h with
  | done => exact Nat.zero_le _
  | @next cs rest first lexeme marks hrest hread hmarks ih =>
      have hspelling := List.length_pos_iff.mpr lexeme.spelling_ne_nil
      have hlength := congrArg List.length hrest
      simp only [List.length_drop, List.length_cons] at hlength ih ⊢
      omega

/-- A text that starts with the sign for lengths is cut in this sign and others. -/
theorem front_hash
    {cs : List Char}
    {marks : List Mark}
    (h : Lexed ('#' :: cs) marks) :
    ∃ mark more, marks = mark :: more ∧ mark.kind = .symbol .hash := by
  have hgap : Lexeme.gap ('#' :: cs) = [] :=
    Lexeme.gap_eq_nil (by decide) fun h => absurd h (by decide)
  cases h with
  | done hall =>
      rw [hgap] at hall
      cases hall
  | next hrest hread hmarks =>
      rw [hgap] at hrest
      obtain ⟨rfl, rfl⟩ := List.cons.inj hrest
      cases hread
      exact ⟨_, _, rfl, rfl⟩

end Lexed

/-- A source that is cut into marks, and that does not start with a line for the system, has tokens
with those marks. -/
theorem tokenize_of_lexed
    {cs : List Char}
    {marks : List Mark}
    (h : Lexed cs marks)
    (hhead : cs.head? ≠ some '#') :
    ∃ words last, tokenize (String.ofList cs) = .ok (words ++ [Token.eof last]) ∧
      words.map Token.mark = marks := by
  have hshebang : (Cursor.ofText (String.ofList cs)).skipShebang = ⟨{}, cs⟩ := by
    rw [Cursor.ofText, String.toList_ofList]
    unfold Cursor.skipShebang
    split
    · rename_i heq
      simp only at heq
      rw [heq] at hhead
      exact absurd rfl hhead
    · rfl
  rw [tokenize, hshebang]
  exact h.tokens {}

end LuaView
