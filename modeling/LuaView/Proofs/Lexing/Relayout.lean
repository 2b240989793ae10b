import LuaView.Proofs.Lexing.Marks

/-!
# Tokens in another layout

The tokens of a source are laid out anew: between the characters of two of them stands any sequence
of blanks and closed comments that begins with a blank.  The new text is cut into the same marks.

This needs one fact about lexemes and one about layouts.  A lexeme that was read is read again from
its own characters in front of any blank, whatever stood behind it before (`Lexeme.standsAlone`).  A
layout is skipped up to its end, whatever stands behind it (`IsLayout.gap_append`).
-/

namespace LuaView

namespace LongBracket

/-- A text is found in front of a mark that does not occur earlier. -/
theorem before?_of_first
    {mark : List Char}
    (hmark : mark ≠ [])
    {content : List Char}
    (hfirst : ∀ i < content.length, ¬ mark <+: (content ++ mark).drop i)
    (rest : List Char) :
    before? mark (content ++ (mark ++ rest)) = some content := by
  induction content with
  | nil =>
      have hprefix : mark.isPrefixOf (mark ++ rest) = true :=
        List.isPrefixOf_iff_prefix.mpr (List.prefix_append _ _)
      rw [List.nil_append]
      cases htext : mark ++ rest with
      | nil => exact absurd (List.append_eq_nil_iff.mp htext).1 hmark
      | cons c cs =>
          rw [htext] at hprefix
          simp [before?, hprefix]
  | cons c content ih =>
      have hhere : ¬ mark.isPrefixOf (c :: (content ++ (mark ++ rest))) = true := by
        intro hprefix
        refine hfirst 0 (Nat.succ_pos _) ?_
        have hlong : mark <+: (c :: content ++ mark) ++ rest := by
          simpa using List.isPrefixOf_iff_prefix.mp hprefix
        refine List.prefix_of_prefix_length_le hlong (List.prefix_append _ _) ?_
        rw [List.drop_zero, List.length_append]
        exact Nat.le_add_left _ _
      have hlater : ∀ i < content.length, ¬ mark <+: (content ++ mark).drop i := fun i hi =>
        hfirst (i + 1) (Nat.succ_lt_succ hi)
      rw [List.cons_append, before?, if_neg hhere, ih hlater]
      rfl

/-- A bracket whose whole line break is left out is read from its spelling. -/
theorem read?_spelling
    {bracket : LongBracket}
    (hbreak : leadingBreak (bracket.lineBreak ++ bracket.content) = bracket.lineBreak)
    (hfirst : ∀ i < bracket.content.length,
      ¬ closing bracket.level <+: (bracket.content ++ closing bracket.level).drop i)
    (rest : List Char) :
    read? bracket.level (bracket.spelling ++ rest) = some bracket := by
  have hinner : (bracket.spelling ++ rest).drop (bracket.level + 2) =
      bracket.lineBreak ++ (bracket.content ++ (closing bracket.level ++ rest)) := by
    have hlength : (opening bracket.level).length = bracket.level + 2 := by simp [opening]
    rw [← hlength]
    simp only [spelling, List.append_assoc, List.drop_left]
  have hlineBreak : leadingBreak (bracket.lineBreak ++
      (bracket.content ++ (closing bracket.level ++ rest))) = bracket.lineBreak := by
    rw [← List.append_assoc, closing, List.cons_append, List.cons_append, leadingBreak_append,
      hbreak]
  have hcontent : before? (closing bracket.level)
      (bracket.content ++ (closing bracket.level ++ rest)) = some bracket.content :=
    before?_of_first (by simp [closing]) hfirst rest
  simp only [read?, hinner, hlineBreak, List.drop_left, hcontent, Option.map_some]

/-- A bracket that was read is read again from its spelling. -/
theorem read?_again
    {cs : List Char}
    {level : Nat}
    {bracket : LongBracket}
    (hlevel : level? cs = some level)
    (h : read? level cs = some bracket)
    (rest : List Char) :
    bracket.level = level ∧ read? level (bracket.spelling ++ rest) = some bracket := by
  obtain ⟨hwell, -⟩ := read?_eq_some hlevel h
  simp only [read?] at h
  obtain ⟨content, hcontent, rfl⟩ := Option.map_eq_some_iff.mp h
  refine ⟨rfl, read?_spelling ?_ hwell.first_closing rest⟩
  obtain ⟨⟨behind, hbehind⟩, -⟩ := before?_eq_some hcontent
  have hinner := leadingBreak_append_drop (cs.drop (level + 2))
  rw [hbehind, closing, List.cons_append, List.append_assoc, List.cons_append,
    ← List.append_assoc] at hinner
  rw [← leadingBreak_append, hinner]

/-- A closed long bracket is read as a whole.  Its line break may be found to be longer than the
one it is given with, if its content begins with one. -/
theorem WellFormed.exists_read?
    {bracket : LongBracket}
    (h : bracket.WellFormed)
    (rest : List Char) :
    ∃ other, read? bracket.level (bracket.spelling ++ rest) = some other ∧
      other.spelling = bracket.spelling := by
  have hlonger : ∃ more content, leadingBreak (bracket.lineBreak ++ bracket.content) =
      bracket.lineBreak ++ more ∧ bracket.content = more ++ content := by
    obtain ⟨hmem, -⟩ := h
    have hsplit := leadingBreak_append_drop (bracket.lineBreak ++ bracket.content)
    generalize hlong : leadingBreak (bracket.lineBreak ++ bracket.content) = long at hsplit
    have hprefix : ∃ more, long = bracket.lineBreak ++ more := by
      simp only [List.mem_cons, List.not_mem_nil, or_false] at hmem
      rcases hmem with hbreak | hbreak | hbreak | hbreak
      · exact ⟨long, by rw [hbreak, List.nil_append]⟩
      · exact ⟨[], by rw [← hlong, hbreak]; rfl⟩
      · rw [hbreak, List.singleton_append] at hlong
        rw [hbreak, ← hlong]
        unfold leadingBreak
        split
        · exact ⟨['\n'], rfl⟩
        · exact ⟨[], rfl⟩
        · simp_all
        · simp_all
      · exact ⟨[], by rw [← hlong, hbreak]; rfl⟩
    obtain ⟨more, rfl⟩ := hprefix
    rw [List.append_assoc] at hsplit
    exact ⟨more, _, rfl, (List.append_cancel_left hsplit).symm⟩
  obtain ⟨more, content, hbreak, hcontent⟩ := hlonger
  have hread := @read?_spelling ⟨bracket.level, bracket.lineBreak ++ more, content⟩
    (by rw [List.append_assoc, ← hcontent, hbreak]) ?_ rest
  · have hspelling : spelling ⟨bracket.level, bracket.lineBreak ++ more, content⟩ =
        bracket.spelling := by
      simp only [spelling, hcontent, List.append_assoc]
    rw [hspelling] at hread
    exact ⟨_, hread, hspelling⟩
  · intro i hi hclosing
    refine h.first_closing (more.length + i) ?_ ?_
    · rw [hcontent, List.length_append]
      exact Nat.add_lt_add_left hi _
    · rw [hcontent, List.append_assoc, List.drop_length_add_append]
      exact hclosing

theorem not_mem_opening (level : Nat) :
    '\n' ∉ opening level := by
  simp [opening]

/-- A line break is no part of the opening of a long bracket. -/
theorem level?_append_newline
    {body : List Char}
    (h : level? body = none)
    (rest : List Char) :
    level? (body ++ '\n' :: rest) = none := by
  cases hlevel : level? (body ++ '\n' :: rest) with
  | none => rfl
  | some level =>
      exfalso
      have hopening := opening_prefix_of_level? hlevel
      rcases List.append_eq_append_iff.mp hopening with ⟨more, hmore, hbehind⟩ | ⟨more, hmore, -⟩
      · cases more with
        | nil =>
            rw [List.append_nil] at hmore
            rw [← hmore, ← List.append_nil (opening level), level?_opening] at h
            cases h
        | cons c more =>
            obtain ⟨rfl, -⟩ := List.cons.inj hbehind
            exact not_mem_opening level (by rw [hmore]; simp)
      · rw [hmore, level?_opening] at h
        cases h

end LongBracket

/-- Blanks and closed comments: a comment is a closed long bracket behind its two dashes, or ends
with its line and opens no long bracket. -/
inductive IsLayout : List Char → Prop
  | nil : IsLayout []
  | blank {c : Char} {layout : List Char}
      (hblank : isBlank c = true)
      (hlayout : IsLayout layout) :
      IsLayout (c :: layout)
  | lineComment {body layout : List Char}
      (hbody : '\n' ∉ body)
      (hshort : LongBracket.level? body = none)
      (hlayout : IsLayout layout) :
      IsLayout ('-' :: '-' :: body ++ '\n' :: layout)
  | longComment {bracket : LongBracket} {layout : List Char}
      (hbracket : bracket.WellFormed)
      (hlayout : IsLayout layout) :
      IsLayout ('-' :: '-' :: bracket.spelling ++ layout)

/-- A layout that begins with a blank.  It may end with a comment. -/
structure IsSeparator (gap : List Char) : Prop where
  layout : IsLayout gap
  blank : ∃ c cs, gap = c :: cs ∧ isBlank c = true

namespace Lexeme

theorem comment_line
    {body : List Char}
    (hbody : '\n' ∉ body)
    (hshort : LongBracket.level? body = none)
    (rest : List Char) :
    comment (body ++ '\n' :: rest) = some body := by
  have htake : (body ++ '\n' :: rest).takeWhile (· != '\n') = body := by
    rw [List.takeWhile_append_of_pos]
    · simp
    · intro c hc
      refine bne_iff_ne.mpr ?_
      rintro rfl
      exact hbody hc
  simp only [comment, LongBracket.level?_append_newline hshort, htake]

theorem comment_long
    {bracket : LongBracket}
    (h : bracket.WellFormed)
    (rest : List Char) :
    comment (bracket.spelling ++ rest) = some bracket.spelling := by
  have hlevel : LongBracket.level? (bracket.spelling ++ rest) = some bracket.level := by
    simp only [LongBracket.spelling, List.append_assoc]
    exact LongBracket.level?_opening _ _
  obtain ⟨other, hread, hspelling⟩ := h.exists_read? rest
  simp only [comment, hlevel, hread, Option.map_some, hspelling]

/-- A comment at the front of a text belongs to its gap. -/
theorem gap_comment
    {body rest : List Char}
    (h : comment (body ++ rest) = some body) :
    gap ('-' :: '-' :: body ++ rest) = '-' :: '-' :: body ++ gap rest := by
  have hfiller : filler ('-' :: '-' :: body ++ rest) = '-' :: '-' :: body := by
    simp only [List.cons_append, filler, h]
  rw [gap, hfiller, if_neg (List.cons_ne_nil _ _), List.drop_left]

end Lexeme

/-- A layout is skipped up to its end. -/
theorem IsLayout.gap_append
    {layout : List Char}
    (h : IsLayout layout)
    (rest : List Char) :
    Lexeme.gap (layout ++ rest) = layout ++ Lexeme.gap rest := by
  induction h with
  | nil => rfl
  | blank hblank _ ih => rw [List.cons_append, Lexeme.gap_blank hblank, ih, List.cons_append]
  | @lineComment body layout hbody hshort _ ih =>
      have hcomment := Lexeme.comment_line hbody hshort (layout ++ rest)
      have hnewline : isBlank '\n' = true := by decide
      calc Lexeme.gap ('-' :: '-' :: body ++ '\n' :: layout ++ rest)
          = Lexeme.gap ('-' :: '-' :: body ++ '\n' :: (layout ++ rest)) := by
            rw [List.append_assoc]
            rfl
        _ = '-' :: '-' :: body ++ '\n' :: (layout ++ Lexeme.gap rest) := by
            rw [Lexeme.gap_comment hcomment, Lexeme.gap_blank hnewline, ih]
        _ = _ := by simp
  | @longComment bracket layout hbracket _ ih =>
      have hcomment := Lexeme.comment_long hbracket (layout ++ rest)
      rw [List.append_assoc, Lexeme.gap_comment hcomment, ih, List.append_assoc]

/-! ## Lexemes in front of a blank -/

namespace Lexeme

def mark (lexeme : Lexeme) : Mark :=
  ⟨lexeme.kind, String.ofList lexeme.text⟩

/-- The lexeme is read from its own characters in front of any blank. -/
def StandsAlone (lexeme : Lexeme) : Prop :=
  ∀ c rest, isBlank c = true →
    gap (lexeme.spelling ++ c :: rest) = [] ∧
      ∃ first cs, lexeme.spelling ++ c :: rest = first :: cs ∧ read first cs = .ok lexeme

theorem ne_of_isBlank
    {c d : Char}
    (h : isBlank c = true)
    (hd : isBlank d = false) :
    c ≠ d := by
  rintro rfl
  rw [h] at hd
  cases hd

theorem not_isWord_of_isBlank
    {c : Char}
    (h : isBlank c = true) :
    CharClass.isWord c = false := by
  refine Bool.eq_false_iff.mpr fun hword => ?_
  rw [not_isBlank_of_isWord hword] at h
  cases h

theorem allows_blank
    (mark : Mark)
    {c : Char}
    (h : isBlank c = true) :
    mark.allows c = true := by
  have hword := not_isWord_of_isBlank h
  have hdigit : c.isDigit = false := by
    refine Bool.eq_false_iff.mpr fun hdigit => ?_
    rw [CharClass.isWord_of_isHexDigit (CharClass.isHexDigit_of_isDigit hdigit)] at hword
    cases hword
  have hother : ∀ {d : Char}, isBlank d = false → c ≠ d := ne_of_isBlank h
  obtain ⟨kind, text⟩ := mark
  cases kind with
  | keyword keyword => simp [Mark.allows, hword]
  | name => simp [Mark.allows, hword]
  | number => simp [Mark.allows, endsNumeral, hword, hother (d := '.') (by decide)]
  | symbol symbol =>
      cases symbol <;>
        simp [Mark.allows, Mark.signAllows, hdigit, hother (d := '.') (by decide),
          hother (d := '-') (by decide), hother (d := '<') (by decide),
          hother (d := '=') (by decide), hother (d := '>') (by decide),
          hother (d := '/') (by decide), hother (d := ':') (by decide),
          hother (d := '[') (by decide)]
  | string delimiter => rfl
  | eof => rfl

/-- Words, signs and quoted texts stand alone because they are written in one way only. -/
theorem standsAlone_of_fits
    {lexeme : Lexeme}
    {cs : List Char}
    (h : lexeme.Fits cs)
    (hnumber : lexeme.kind ≠ .number)
    (hlong : lexeme.kind ≠ .string .long) :
    lexeme.StandsAlone := by
  obtain ⟨kind, text, spelling, hnonempty⟩ := lexeme
  have hspells : kind.Spells text spelling := h.spells
  have hmark : (mark ⟨kind, text, spelling, hnonempty⟩).Valid ∧
      (mark ⟨kind, text, spelling, hnonempty⟩).spelling = spelling := by
    cases kind with
    | keyword keyword =>
        obtain ⟨rfl, rfl⟩ := hspells
        exact ⟨String.ofList_toList, String.toList_ofList⟩
    | symbol symbol =>
        obtain ⟨rfl, rfl⟩ := hspells
        exact ⟨String.ofList_toList, String.toList_ofList⟩
    | name =>
        obtain ⟨hname, rfl⟩ := hspells
        refine ⟨?_, String.toList_ofList⟩
        change IsName (String.ofList spelling).toList
        rwa [String.toList_ofList]
    | number => exact absurd rfl hnumber
    | string delimiter =>
        cases delimiter with
        | single =>
            obtain ⟨hquoted, rfl⟩ := hspells
            refine ⟨?_, by simp [mark, Mark.spelling, Delimiter.quote]⟩
            change IsQuotedText '\'' (String.ofList text).toList
            rwa [String.toList_ofList]
        | double =>
            obtain ⟨hquoted, rfl⟩ := hspells
            refine ⟨?_, by simp [mark, Mark.spelling, Delimiter.quote]⟩
            change IsQuotedText '"' (String.ofList text).toList
            rwa [String.toList_ofList]
        | long => exact absurd rfl hlong
    | eof => exact absurd hspells.2 hnonempty
  intro c rest hc
  have hallows : ∀ d ∈ (c :: rest).head?, (mark ⟨kind, text, spelling, hnonempty⟩).allows d := by
    intro d hd
    obtain rfl := Option.some.inj hd
    exact allows_blank _ hc
  obtain ⟨hgap, first, tail, other, hfront, hread, hkind, htext, hspelling⟩ :=
    hmark.1.readsAs hallows
  rw [hmark.2] at hgap hfront hspelling
  refine ⟨hgap, first, tail, hfront, ?_⟩
  obtain ⟨otherKind, otherText, otherSpelling, _⟩ := other
  obtain rfl : otherKind = kind := hkind
  obtain rfl : otherText = text := htext.trans String.toList_ofList
  obtain rfl : otherSpelling = spelling := hspelling
  exact hread

/-- A run of digits, points, marks and signs ends where it ended before. -/
theorem numeralTail_again
    {isDigit isMark : Char → Bool}
    (hbase : IsBase isDigit isMark)
    (afterMark : Bool)
    (cs : List Char)
    {c : Char}
    (hc : isBlank c = true)
    (rest : List Char) :
    numeralTail isMark afterMark (numeralTail isMark afterMark cs ++ c :: rest) =
      numeralTail isMark afterMark cs := by
  have hword := not_isWord_of_isBlank hc
  have hmark : isMark c = false := by
    refine Bool.eq_false_iff.mpr fun hmark => ?_
    rw [hbase.mark c hmark] at hword
    cases hword
  have hhex : CharClass.isHexDigit c = false := by
    refine Bool.eq_false_iff.mpr fun hhex => ?_
    rw [CharClass.isWord_of_isHexDigit hhex] at hword
    cases hword
  have hother : ∀ {d : Char}, isBlank d = false → c ≠ d := ne_of_isBlank hc
  have hend : ∀ afterMark, numeralTail isMark afterMark (c :: rest) = [] := by
    intro afterMark
    simp [numeralTail, hmark, hhex, hword, hother (d := '.') (by decide),
      hother (d := '+') (by decide), hother (d := '-') (by decide)]
  fun_induction numeralTail isMark afterMark cs with
  | case1 => exact hend _
  | case2 _ d ds hd ih => rw [List.cons_append, numeralTail, if_pos hd, ih]
  | case3 _ d ds hd hdigit ih =>
      rw [List.cons_append, numeralTail, if_neg hd, if_pos hdigit, ih]
  | case4 _ d ds hd hdigit hsign ih =>
      rw [List.cons_append, numeralTail, if_neg hd, if_neg hdigit, if_pos hsign, ih]
  | case5 afterMark d ds hd hdigit hsign =>
      by_cases hdword : CharClass.isWord d = true
      · have htake : (ds.takeWhile CharClass.isWord ++ c :: rest).takeWhile CharClass.isWord =
            ds.takeWhile CharClass.isWord := by
          rw [List.takeWhile_append_of_pos fun e he => List.mem_takeWhile_imp he]
          simp [hword]
        rw [List.takeWhile_cons_of_pos hdword, List.cons_append, numeralTail, if_neg hd,
          if_neg hdigit, if_neg hsign, List.takeWhile_cons_of_pos hdword, htake]
      · rw [List.takeWhile_cons_of_neg hdword]
        exact hend _

/-- A numeral ends in front of a blank where it ended before. -/
theorem numeralSpelling_again
    (first : Char)
    (cs : List Char)
    {c : Char}
    (hc : isBlank c = true)
    (rest : List Char) :
    ∃ tail, numeralSpelling first cs = first :: tail ∧
      numeralSpelling first (tail ++ c :: rest) = first :: tail := by
  unfold numeralSpelling
  split
  · exact ⟨_, rfl, by simp only [List.cons_append, numeralTail_again isBase_hex _ _ hc]⟩
  · exact ⟨_, rfl, by simp only [List.cons_append, numeralTail_again isBase_hex _ _ hc]⟩
  · rename_i hx hX
    -- the letter of base sixteen is not the first character taken, and a blank is no letter
    have hfront : ∀ letter more, isBlank letter = false →
        numeralTail (fun c => c == 'e' || c == 'E') false cs ++ c :: rest = letter :: more →
        ∃ behind, cs = letter :: behind := by
      intro letter more hletter hmore
      obtain ⟨behind, hbehind⟩ :=
        numeralTail_atFront (fun c => c == 'e' || c == 'E') false cs
      cases htail : numeralTail (fun c => c == 'e' || c == 'E') false cs with
      | nil =>
          rw [htail, List.nil_append] at hmore
          exact absurd (List.cons.inj hmore).1 (ne_of_isBlank hc hletter)
      | cons d ds =>
          rw [htail] at hmore hbehind
          obtain ⟨rfl, -⟩ := List.cons.inj hmore
          exact ⟨_, hbehind.symm⟩
    refine ⟨_, rfl, ?_⟩
    split
    · rename_i more hmore
      obtain ⟨behind, rfl⟩ := hfront 'x' more (by decide) hmore
      exact absurd rfl (hx behind rfl)
    · rename_i more hmore
      obtain ⟨behind, rfl⟩ := hfront 'X' more (by decide) hmore
      exact absurd rfl (hX behind rfl)
    · rw [numeralTail_again isBase_decimal _ _ hc]

/-- The front of a numeral: a digit, or a point and a digit. -/
def startsNumeral (first : Char) (cs : List Char) : Bool :=
  first.isDigit || (first == '.' && (cs.head?.any Char.isDigit))

/-- The digit behind a point is part of the numeral. -/
theorem startsNumeral_again
    {first : Char}
    {cs tail : List Char}
    (h : startsNumeral first cs = true)
    (htail : numeralSpelling first cs = first :: tail)
    (rest : List Char) :
    startsNumeral first (tail ++ rest) = true := by
  simp only [startsNumeral, Bool.or_eq_true, Bool.and_eq_true, beq_iff_eq] at h ⊢
  rcases h with hdigit | ⟨rfl, hdigit⟩
  · exact .inl hdigit
  · refine .inr ⟨rfl, ?_⟩
    cases cs with
    | nil => cases hdigit
    | cons d ds =>
        replace hdigit : d.isDigit = true := hdigit
        have hkept : (CharClass.isHexDigit d || d == '.') = true := by
          simp [CharClass.isHexDigit_of_isDigit hdigit]
        have hmore : numeralTail (fun c => c == 'e' || c == 'E') false (d :: ds) = tail :=
          (List.cons.inj htail).2
        rw [numeralTail, isBase_decimal.decimal d hdigit, hkept, if_neg Bool.false_ne_true,
          if_pos rfl] at hmore
        rw [← hmore]
        exact hdigit

/-- A lexeme is a long string, a numeral, or of another kind than these. -/
theorem read_cases
    {first : Char}
    {cs : List Char}
    {lexeme : Lexeme}
    (h : read first cs = .ok lexeme) :
    (∃ level, LongBracket.level? (first :: cs) = some level ∧
        readLong level (first :: cs) = .ok lexeme) ∨
      (startsNumeral first cs = true ∧ readNumeral first cs = .ok lexeme) ∨
      (lexeme.kind ≠ .number ∧ lexeme.kind ≠ .string .long) := by
  have hquoted : ∀ {quote : Char} {delimiter : Delimiter}, delimiter ≠ .long →
      readQuoted quote delimiter cs = .ok lexeme →
      lexeme.kind ≠ .number ∧ lexeme.kind ≠ .string .long := by
    intro quote delimiter hdelimiter hread
    simp only [readQuoted] at hread
    split at hread
    · obtain rfl := Except.ok.inj hread
      exact ⟨by rintro ⟨⟩, fun hkind => hdelimiter (Kind.string.inj hkind)⟩
    · cases hread
  unfold read at h
  split at h
  · cases h
  split at h
  · rename_i level hlevel
    exact .inl ⟨level, hlevel, h⟩
  split at h
  · rename_i hstart
    exact .inr (.inl ⟨hstart, h⟩)
  split at h
  · exact .inr (.inr (hquoted (by decide) h))
  split at h
  · exact .inr (.inr (hquoted (by decide) h))
  split at h
  · obtain rfl := Except.ok.inj h
    simp only [readWord]
    cases Keyword.ofText? (String.ofList (first :: cs.takeWhile CharClass.isWord)) <;>
      exact .inr (.inr ⟨by rintro ⟨⟩, by rintro ⟨⟩⟩)
  · unfold readSymbol at h
    split at h
    · obtain rfl := Except.ok.inj h
      exact .inr (.inr ⟨by rintro ⟨⟩, by rintro ⟨⟩⟩)
    · cases h

theorem standsAlone_long
    {level : Nat}
    {cs : List Char}
    {lexeme : Lexeme}
    (hlevel : LongBracket.level? cs = some level)
    (h : readLong level cs = .ok lexeme) :
    lexeme.StandsAlone := by
  unfold readLong at h
  split at h
  · rename_i bracket hbracket
    obtain rfl := Except.ok.inj h
    intro c rest _
    obtain ⟨rfl, hagain⟩ := LongBracket.read?_again hlevel hbracket (c :: rest)
    have hopen : LongBracket.level? (bracket.spelling ++ c :: rest) = some bracket.level := by
      simp only [LongBracket.spelling, List.append_assoc]
      exact LongBracket.level?_opening _ _
    obtain ⟨tail, htail⟩ : ∃ tail, bracket.spelling ++ c :: rest = '[' :: tail :=
      ⟨_, by simp only [LongBracket.spelling, LongBracket.opening, List.cons_append]; rfl⟩
    rw [htail] at hagain hopen
    refine ⟨?_, '[', tail, htail, ?_⟩
    · simp only
      rw [htail]
      exact gap_eq_nil (by decide) fun h => absurd h (by decide)
    · rw [read, if_neg fun h => absurd h.1 (by decide), hopen]
      simp only [readLong, hagain]
  · cases h

theorem standsAlone_numeral
    {first : Char}
    {cs : List Char}
    {lexeme : Lexeme}
    (hstart : startsNumeral first cs = true)
    (h : readNumeral first cs = .ok lexeme) :
    lexeme.StandsAlone := by
  simp only [readNumeral] at h
  split at h
  · rename_i hsome
    obtain rfl := Except.ok.inj h
    intro c rest hc
    obtain ⟨tail, htail, hagain⟩ := numeralSpelling_again first cs hc rest
    have hfirst : isBlank first = false ∧ first ≠ '-' ∧ first ≠ '[' := by
      simp only [startsNumeral, Bool.or_eq_true, Bool.and_eq_true, beq_iff_eq] at hstart
      rcases hstart with hdigit | ⟨rfl, -⟩
      · have hword := CharClass.isWord_of_isHexDigit (CharClass.isHexDigit_of_isDigit hdigit)
        exact ⟨not_isBlank_of_isWord hword, ne_of_isWord hword (by decide),
          ne_of_isWord hword (by decide)⟩
      · decide
    have hstart' : startsNumeral first (tail ++ c :: rest) = true :=
      startsNumeral_again hstart htail (c :: rest)
    unfold startsNumeral at hstart'
    refine ⟨?_, first, tail ++ c :: rest, ?_, ?_⟩
    · simp only [htail, List.cons_append]
      exact gap_eq_nil hfirst.1 fun hdash => absurd hdash hfirst.2.1
    · simp only [htail, List.cons_append]
    · rw [read, if_neg fun h => hfirst.2.1 h.1, level?_eq_none hfirst.2.2]
      simp only
      rw [if_pos hstart']
      simp only [readNumeral, hagain, ← htail, hsome, if_true]
  · cases h

/-- A lexeme that was read stands alone. -/
theorem standsAlone
    {first : Char}
    {cs : List Char}
    {lexeme : Lexeme}
    (h : read first cs = .ok lexeme) :
    lexeme.StandsAlone := by
  rcases read_cases h with ⟨level, hlevel, hlong⟩ | ⟨hstart, hnumeral⟩ | ⟨hnumber, hlong⟩
  · exact standsAlone_long hlevel hlong
  · exact standsAlone_numeral hstart hnumeral
  · exact standsAlone_of_fits (read_fits h) hnumber hlong

end Lexeme

/-! ## Laying out tokens -/

/-- The characters of a token in the text that it was read from. -/
def Token.slice (source : List Char) (token : Token) : List Char :=
  byteSlice token.span.start.byte token.span.stop.byte source

/-- The characters of a token can be read as this token anywhere in front of a blank. -/
def Token.StandsAlone (source : List Char) (token : Token) : Prop :=
  ∃ lexeme : Lexeme, lexeme.StandsAlone ∧ lexeme.mark = token.mark ∧
    lexeme.spelling = token.slice source

/-- All tokens from a cursor on stand alone, but for the end of the source. -/
theorem Cursor.standsAlone
    {cursor : Cursor}
    {tokens : List Token}
    (h : cursor.tokens = .ok tokens)
    {before : List Char}
    (hpos : cursor.pos.byte = byteLength before)
    {token : Token}
    (htoken : token ∈ tokens)
    (hkind : token.kind ≠ .eof) :
    token.StandsAlone (before ++ cursor.rest) := by
  fun_induction Cursor.tokens cursor generalizing tokens before with
  | case1 cursor hrest =>
      obtain rfl := Except.ok.inj h
      obtain rfl := List.mem_singleton.mp htoken
      exact absurd rfl hkind
  | case2 cursor first cs hrest cause extent hread => cases h
  | case3 cursor first cs hrest lexeme hread next =>
      rename_i ih
      obtain ⟨rest, hnext, htokens⟩ := Except.bind_eq_ok_iff.mp h
      obtain rfl := Except.ok.inj htokens
      obtain ⟨behind, hbehind⟩ := (Lexeme.read_fits hread).atFront
      rw [← hrest] at hbehind
      have hgap : cursor.skipGap.pos.byte = byteLength (before ++ Lexeme.gap cursor.rest) := by
        rw [skipGap_pos, Position.afterAll_byte, hpos, byteLength_append]
      have hstop : next.pos.byte =
          byteLength (before ++ Lexeme.gap cursor.rest ++ lexeme.spelling) := by
        rw [pos_advanceBy, Position.afterAll_byte, ← hbehind, List.take_left, hgap,
          byteLength_append _ lexeme.spelling]
      have hsource : before ++ Lexeme.gap cursor.rest ++ (lexeme.spelling ++ behind) =
          before ++ cursor.rest := by
        have happend := Lexeme.gap_append cursor.rest
        rw [← skipGap_rest, ← hbehind] at happend
        rw [List.append_assoc, happend]
      have hnextRest : next.rest = behind := by
        rw [rest_advanceBy, ← hbehind, List.drop_left]
      rcases List.mem_cons.mp htoken with rfl | htoken
      · refine ⟨lexeme, Lexeme.standsAlone hread, rfl, ?_⟩
        simp only [Token.slice]
        rw [hgap, hstop, byteLength_append _ lexeme.spelling, ← hsource, byteSlice_append]
      · have htail := ih hnext hstop htoken
        rwa [hnextRest, List.append_assoc _ lexeme.spelling, hsource] at htail

theorem tokenize_standsAlone
    {source : String}
    {tokens : List Token}
    (h : tokenize source = .ok tokens)
    {token : Token}
    (htoken : token ∈ tokens)
    (hkind : token.kind ≠ .eof) :
    token.StandsAlone source.toList := by
  rcases Cursor.skipShebang_cases (Cursor.ofText source) with hsame | ⟨line, -, hrest, -, hpos⟩
  · rw [tokenize, hsame] at h
    have hstart : (Cursor.ofText source).pos.byte = byteLength [] := rfl
    exact Cursor.standsAlone h hstart htoken hkind
  · have hbyte : (Cursor.ofText source).skipShebang.pos.byte = byteLength ('#' :: '!' :: line) := by
      rw [hpos, Position.afterAll_byte]
      exact Nat.zero_add _
    have hsource : source.toList = '#' :: '!' :: line ++ (Cursor.ofText source).skipShebang.rest :=
      hrest
    rw [hsource]
    exact Cursor.standsAlone h hbyte htoken hkind

namespace Lexed

/-- A layout in front of a text adds no marks. -/
theorem layout
    {gap : List Char}
    (hgap : IsLayout gap)
    {cs : List Char}
    {marks : List Mark}
    (h : Lexed cs marks) :
    Lexed (gap ++ cs) marks := by
  cases h with
  | done hall => exact .done (by rw [hgap.gap_append, hall])
  | next hrest hread hmarks =>
      refine .next ?_ hread hmarks
      rw [hgap.gap_append, List.length_append, List.drop_length_add_append]
      exact hrest

/-- A lexeme that stands alone adds its mark. -/
theorem lexeme
    {lexeme : Lexeme}
    (halone : lexeme.StandsAlone)
    {c : Char}
    (hc : isBlank c = true)
    {cs : List Char}
    {marks : List Mark}
    (h : Lexed (c :: cs) marks) :
    Lexed (lexeme.spelling ++ c :: cs) (lexeme.mark :: marks) := by
  obtain ⟨hgap, first, rest, hfront, hread⟩ := halone c cs hc
  refine .next ?_ hread ?_
  · rw [hgap]
    exact hfront
  · rw [← hfront, List.drop_left]
    exact h

end Lexed

/-- Pieces of text with a gap in front of all of them and a gap behind each. -/
def laidOut (pieces : List (List Char)) (gap : List Char) (gaps : List (List Char)) : List Char :=
  gap ++ (List.zipWith (· ++ ·) pieces gaps).flatten

/-- Tokens that stand alone are read back from any layout of them. -/
theorem lexed_laidOut
    {source : List Char}
    {tokens : List Token}
    (htokens : ∀ token ∈ tokens, token.StandsAlone source)
    {gap : List Char}
    (hgap : IsLayout gap)
    {gaps : List (List Char)}
    (hgaps : ∀ gap ∈ gaps, IsSeparator gap)
    (hlength : gaps.length = tokens.length) :
    Lexed (laidOut (tokens.map (Token.slice source)) gap gaps) (tokens.map Token.mark) := by
  refine .layout hgap ?_
  -- The gap behind a token is the one in front of those that follow.
  induction tokens generalizing gaps with
  | nil => exact .nil
  | cons token tokens ih =>
      cases gaps with
      | nil => cases hlength
      | cons next gaps =>
          obtain ⟨lexeme, halone, hmark, hspelling⟩ := htokens token List.mem_cons_self
          obtain ⟨hnext, c, cs, rfl, hc⟩ := hgaps next List.mem_cons_self
          have htail := ih (fun token htoken => htokens token (List.mem_cons_of_mem _ htoken))
            (fun gap hgap => hgaps gap (List.mem_cons_of_mem _ hgap)) (Nat.succ.inj hlength)
          have hlexed := (htail.layout hnext).lexeme halone hc
          rw [hmark, hspelling] at hlexed
          simpa using hlexed

/-- The tokens of a source in another layout are cut into the same marks. -/
theorem tokenize_laidOut
    {source : String}
    {words : List Token}
    {last : Position}
    (h : tokenize source = .ok (words ++ [Token.eof last]))
    (hwords : ∀ token ∈ words, token.kind ≠ .eof)
    {gap : List Char}
    {gaps : List (List Char)}
    (hgaps : ∀ separator ∈ gap :: gaps, IsSeparator separator)
    (hlength : gaps.length = words.length) :
    ∃ others last', tokenize (String.ofList (laidOut (words.map (Token.slice source.toList))
        gap gaps)) = .ok (others ++ [Token.eof last']) ∧
      others.map Token.mark = words.map Token.mark := by
  obtain ⟨hgap, c, cs, rfl, hc⟩ := hgaps gap List.mem_cons_self
  refine tokenize_of_lexed (lexed_laidOut (fun token htoken => ?_) hgap
    (fun gap hgap => hgaps gap (List.mem_cons_of_mem _ hgap)) hlength) ?_
  · exact tokenize_standsAlone h (List.mem_append_left _ htoken) (hwords token htoken)
  · intro hhash
    have hfirst : c = '#' := Option.some.inj hhash
    exact Lexeme.ne_of_isBlank hc (by decide) hfirst

end LuaView
