import LuaView.Token.Stream
import Mathlib.Data.List.TakeWhile

/-!
# The shape of gaps and lexemes

What `Lexeme.gap` and `Lexeme.read` take from the front of a text, said without them.

A gap is a sequence of blank characters and comments.  A comment is a long bracket behind its two
dashes, or runs to the end of its line; in the second case the text behind the dashes opens no long
bracket.  Whether a comment has reached the end of its line depends on what follows, so
`IsGap gap rest` speaks of a gap in front of a text.

`Kind.Spells` says how a token of a kind is written: what its text is, and what stands in the
source.  The main statements are `isGap_gap` and `read_fits`.
-/

namespace LuaView

namespace LongBracket

/-- The line break that is left out is at most one, and the bracket is closed by the first closing
bracket of its level. -/
structure WellFormed (bracket : LongBracket) : Prop where
  lineBreak_mem : bracket.lineBreak ∈ [[], ['\r', '\n'], ['\r'], ['\n']]
  first_closing : ∀ i < bracket.content.length,
    ¬ closing bracket.level <+: (bracket.content ++ closing bracket.level).drop i

/-- A leading line break is one of the three kinds, or there is none. -/
theorem leadingBreak_mem (cs : List Char) :
    leadingBreak cs ∈ [[], ['\r', '\n'], ['\r'], ['\n']] := by
  unfold leadingBreak
  split <;> simp

/-- A leading line break is cut off the front. -/
theorem leadingBreak_append_drop (cs : List Char) :
    leadingBreak cs ++ cs.drop (leadingBreak cs).length = cs := by
  unfold leadingBreak
  split <;> rfl

/-- What `before?` finds ends where its mark occurs for the first time. -/
theorem before?_eq_some
    {mark cs content : List Char}
    (h : before? mark cs = some content) :
    (∃ rest, cs = content ++ mark ++ rest) ∧
      ∀ i < content.length, ¬ mark <+: cs.drop i := by
  induction cs generalizing content with
  | nil =>
      simp only [before?] at h
      split at h
      · obtain rfl := Option.some.inj h
        simp_all
      · cases h
  | cons c cs ih =>
      simp only [before?] at h
      split at h
      · rename_i hprefix
        obtain rfl := Option.some.inj h
        obtain ⟨rest, hrest⟩ := List.isPrefixOf_iff_prefix.mp hprefix
        exact ⟨⟨rest, by simp [hrest]⟩, by simp⟩
      · rename_i hprefix
        obtain ⟨tail, htail, rfl⟩ := Option.map_eq_some_iff.mp h
        obtain ⟨⟨rest, hrest⟩, hfirst⟩ := ih htail
        refine ⟨⟨rest, by simp [hrest]⟩, ?_⟩
        intro i hi
        cases i with
        | zero =>
            rw [List.drop_zero]
            exact fun hp => hprefix (List.isPrefixOf_iff_prefix.mpr hp)
        | succ i =>
            rw [List.drop_succ_cons]
            exact hfirst i (by simpa using hi)

/-- Where a level is found an opening bracket of this level stands. -/
theorem opening_prefix_of_level?
    {cs : List Char} {level : Nat}
    (h : level? cs = some level) :
    cs = opening level ++ cs.drop (level + 2) := by
  unfold level? at h
  split at h
  · rename_i cs
    simp only at h
    split at h
    · rename_i hopen
      obtain rfl := Option.some.inj h
      have hequals : cs.takeWhile (· == '=') =
          List.replicate (cs.takeWhile (· == '=')).length '=' := by
        rw [List.eq_replicate_iff]
        refine ⟨rfl, fun c hc => ?_⟩
        have hall := List.all_takeWhile (p := (· == '=')) (l := cs)
        simpa using List.all_eq_true.mp hall c hc
      have htake : cs.take (cs.takeWhile (· == '=')).length = cs.takeWhile (· == '=') :=
        (List.prefix_iff_eq_take.mp (List.takeWhile_prefix _)).symm
      have hsplit := List.take_append_drop (cs.takeWhile (· == '=')).length cs
      rw [htake, List.drop_eq_getElem?_toList_append, hopen] at hsplit
      simp only [opening, List.drop_succ_cons, List.cons_append, List.append_assoc]
      rw [← hequals]
      simpa using hsplit.symm
    · cases h
  · cases h

/-- A long bracket that is read stands at the front of the text and is well formed. -/
theorem read?_eq_some
    {cs : List Char} {level : Nat} {bracket : LongBracket}
    (hlevel : level? cs = some level)
    (h : read? level cs = some bracket) :
    bracket.WellFormed ∧ ∃ rest, cs = bracket.spelling ++ rest := by
  simp only [read?] at h
  obtain ⟨content, hcontent, rfl⟩ := Option.map_eq_some_iff.mp h
  obtain ⟨⟨rest, hrest⟩, hfirst⟩ := before?_eq_some hcontent
  refine ⟨⟨leadingBreak_mem _, ?_⟩, rest, ?_⟩
  · intro i hi hclosing
    replace hi : i < content.length := hi
    apply hfirst i hi
    rw [hrest, List.drop_append_of_le_length (by simp; omega)]
    exact hclosing.trans (List.prefix_append _ _)
  · have hbreak := leadingBreak_append_drop (cs.drop (level + 2))
    rw [hrest] at hbreak
    calc cs
        = opening level ++ cs.drop (level + 2) := opening_prefix_of_level? hlevel
      _ = opening level ++ (leadingBreak (cs.drop (level + 2)) ++
            (content ++ closing level ++ rest)) := by rw [hbreak]
      _ = _ := by simp [spelling]

end LongBracket

/-- A line ends in front of a text that is empty or begins with a line feed. -/
def LineEnds (rest : List Char) : Prop :=
  rest = [] ∨ rest.head? = some '\n'

/-- Blanks and comments in front of a text. -/
inductive IsGap : List Char → List Char → Prop
  | nil (rest : List Char) : IsGap [] rest
  | blank {c : Char} {gap rest : List Char}
      (hblank : isBlank c = true)
      (hgap : IsGap gap rest) :
      IsGap (c :: gap) rest
  | lineComment {body gap rest : List Char}
      (hbody : '\n' ∉ body)
      (hshort : LongBracket.level? (body ++ (gap ++ rest)) = none)
      (hend : LineEnds (gap ++ rest))
      (hgap : IsGap gap rest) :
      IsGap ('-' :: '-' :: body ++ gap) rest
  | longComment {bracket : LongBracket} {gap rest : List Char}
      (hbracket : bracket.WellFormed)
      (hgap : IsGap gap rest) :
      IsGap ('-' :: '-' :: bracket.spelling ++ gap) rest

namespace IsGap

/-- Blanks may stand in front of a gap. -/
theorem blanks
    {cs gap rest : List Char}
    (hblank : ∀ c ∈ cs, isBlank c = true)
    (hgap : IsGap gap rest) :
    IsGap (cs ++ gap) rest := by
  induction cs with
  | nil => exact hgap
  | cons c cs ih =>
      exact .blank (hblank c (by simp)) (ih fun d hd => hblank d (by simp [hd]))

end IsGap

theorem lineEnds_dropWhile (cs : List Char) :
    LineEnds (cs.dropWhile (· != '\n')) := by
  cases h : cs.dropWhile (· != '\n') with
  | nil => exact .inl rfl
  | cons c rest =>
      have hc := List.head?_dropWhile_not (· != '\n') cs
      rw [h] at hc
      exact .inr (by simpa using hc)

theorem newline_not_mem_takeWhile (cs : List Char) :
    '\n' ∉ cs.takeWhile (· != '\n') := by
  intro h
  simpa using List.mem_takeWhile_imp h

theorem drop_length_takeWhile (cls : Char → Bool) (cs : List Char) :
    cs.drop (cs.takeWhile cls).length = cs.dropWhile cls := by
  induction cs with
  | nil => rfl
  | cons c cs ih =>
      by_cases hc : cls c
      · simp [hc, ih]
      · simp [hc]

namespace Lexeme

/-- A comment stands at the front of its text. -/
theorem comment_append
    {cs body : List Char}
    (h : comment cs = some body) :
    body ++ cs.drop body.length = cs := by
  unfold comment at h
  split at h
  · rename_i level hlevel
    obtain ⟨bracket, hbracket, rfl⟩ := Option.map_eq_some_iff.mp h
    obtain ⟨_, rest, hrest⟩ := LongBracket.read?_eq_some hlevel hbracket
    rw [hrest, List.drop_left]
  · obtain rfl := Option.some.inj h
    exact List.prefix_iff_eq_append.mp (List.takeWhile_prefix _)

/-- The blanks or the comment at the front are cut off it. -/
theorem filler_append (cs : List Char) :
    filler cs ++ cs.drop (filler cs).length = cs := by
  unfold filler
  split
  · split
    · rename_i body hbody
      simp [comment_append hbody]
    · rfl
  · exact List.prefix_iff_eq_append.mp (List.takeWhile_prefix _)

/-- A gap is cut off the front of the text. -/
theorem gap_append (cs : List Char) :
    gap cs ++ cs.drop (gap cs).length = cs := by
  fun_induction gap cs with
  | case1 cs h => rfl
  | case2 cs h ih =>
      rw [List.append_assoc, List.length_append, ← List.drop_drop, ih, filler_append]

/-- One filler in front of a gap makes a gap. -/
theorem isGap_filler
    {cs gap rest : List Char}
    (hdrop : cs.drop (filler cs).length = gap ++ rest)
    (hgap : IsGap gap rest) :
    IsGap (filler cs ++ gap) rest := by
  unfold filler at hdrop ⊢
  split
  · rename_i cs
    simp only at hdrop
    cases hcomment : comment cs with
    | none => exact hgap
    | some body =>
        have happend := comment_append hcomment
        rw [hcomment] at hdrop
        simp only [List.length_cons, List.drop_succ_cons] at hdrop
        rw [hdrop] at happend
        unfold comment at hcomment
        split at hcomment
        · rename_i level hlevel
          obtain ⟨bracket, hbracket, rfl⟩ := Option.map_eq_some_iff.mp hcomment
          exact .longComment (LongBracket.read?_eq_some hlevel hbracket).1 hgap
        · rename_i hshort
          obtain rfl := Option.some.inj hcomment
          refine .lineComment (newline_not_mem_takeWhile cs) ?_ ?_ hgap
          · rw [happend]
            exact hshort
          · rw [← hdrop, drop_length_takeWhile]
            exact lineEnds_dropWhile cs
  · exact .blanks (fun c hc => List.mem_takeWhile_imp hc) hgap

/-- `Lexeme.gap` takes a gap. -/
theorem isGap_gap (cs : List Char) :
    IsGap (gap cs) (cs.drop (gap cs).length) := by
  fun_induction gap cs with
  | case1 cs h => exact .nil _
  | case2 cs h ih =>
      rw [List.length_append, ← List.drop_drop]
      exact isGap_filler (gap_append _).symm ih

end Lexeme

/-- A letter or underscore, and then letters, digits and underscores. -/
def isIdentifier : List Char → Bool
  | [] => false
  | c :: cs => CharClass.isNameStart c && cs.all CharClass.isWord

/-- An identifier that is not reserved. -/
def IsName (cs : List Char) : Prop :=
  isIdentifier cs = true ∧ Keyword.ofText? (String.ofList cs) = none

instance (cs : List Char) : Decidable (IsName cs) :=
  inferInstanceAs (Decidable (_ ∧ _))

/-- A text between quotes ends in front of the quote behind it, and not earlier. -/
def Lexeme.IsQuotedText (quote : Char) (text : List Char) : Prop :=
  ∀ rest, quotedText quote .plain (text ++ quote :: rest) = (text, true)

/-- How a token of a kind is written: `text` is the token's text and `spelling` what stands in the
source.  Nothing stands there at the end of a source. -/
def Kind.Spells (text spelling : List Char) : Kind → Prop
  | .keyword word => text = (Kind.keyword word).display.toList ∧ spelling = text
  | .symbol mark => text = (Kind.symbol mark).display.toList ∧ spelling = text
  | .number => (Number.ofNumeral? spelling).isSome ∧ spelling = text
  | .name => IsName spelling ∧ spelling = text
  | .string .single => Lexeme.IsQuotedText '\'' text ∧ spelling = '\'' :: text ++ ['\'']
  | .string .double => Lexeme.IsQuotedText '"' text ∧ spelling = '"' :: text ++ ['"']
  | .string .long => ∃ bracket : LongBracket,
      bracket.WellFormed ∧ text = bracket.content ∧ spelling = bracket.spelling
  | .eof => text = [] ∧ spelling = []

namespace Lexeme

/-- A lexeme at the front of a text, written as its kind demands. -/
structure Fits (lexeme : Lexeme) (cs : List Char) : Prop where
  spells : lexeme.kind.Spells lexeme.text lexeme.spelling
  atFront : lexeme.spelling <+: cs

theorem numeralTail_atFront
    (isMark : Char → Bool) (afterMark : Bool) (cs : List Char) :
    numeralTail isMark afterMark cs <+: cs := by
  fun_induction numeralTail isMark afterMark cs with
  | case1 => exact List.nil_prefix
  | case2 _ c cs _ ih => exact List.cons_prefix_cons.mpr ⟨rfl, ih⟩
  | case3 _ c cs _ _ ih => exact List.cons_prefix_cons.mpr ⟨rfl, ih⟩
  | case4 _ c cs _ _ _ ih => exact List.cons_prefix_cons.mpr ⟨rfl, ih⟩
  | case5 _ c cs => exact List.takeWhile_prefix _

theorem numeralSpelling_atFront (first : Char) (cs : List Char) :
    numeralSpelling first cs <+: first :: cs := by
  unfold numeralSpelling
  split
  · simpa only [List.cons_prefix_cons, true_and] using numeralTail_atFront _ _ _
  · simpa only [List.cons_prefix_cons, true_and] using numeralTail_atFront _ _ _
  · simpa only [List.cons_prefix_cons, true_and] using numeralTail_atFront _ _ _

/-- A numeral that is read fits the text. -/
theorem readNumeral_fits
    {first : Char} {cs : List Char} {lexeme : Lexeme}
    (h : readNumeral first cs = .ok lexeme) :
    lexeme.Fits (first :: cs) := by
  simp only [readNumeral] at h
  split at h
  · rename_i hsome
    obtain rfl := Except.ok.inj h
    exact ⟨⟨hsome, rfl⟩, numeralSpelling_atFront first cs⟩
  · cases h

/-- A closed quoted text stands in front of its quotation mark. -/
theorem quotedText_append
    {quote : Char} {mode : QuotedMode} {cs text : List Char}
    (h : quotedText quote mode cs = (text, true)) :
    ∃ rest, cs = text ++ quote :: rest := by
  induction cs generalizing mode text with
  | nil => simp [quotedText] at h
  | cons c cs ih =>
      -- Every character but a closing quote is kept, whatever the mode behind it is.
      have hmore : ∀ next, ((c :: (quotedText quote next cs).1,
          (quotedText quote next cs).2) = (text, true)) →
          ∃ rest, c :: cs = text ++ quote :: rest := by
        intro next hnext
        obtain ⟨rfl, hclosed⟩ := Prod.mk.inj hnext
        obtain ⟨rest, hrest⟩ := ih (Prod.ext rfl hclosed)
        exact ⟨rest, by rw [List.cons_append, ← hrest]⟩
      simp only [quotedText] at h
      split at h
      · exact hmore _ h
      · split at h
        · exact hmore _ h
        · split at h
          · rename_i hquote
            obtain ⟨rfl, -⟩ := Prod.mk.inj h
            exact ⟨cs, by rw [hquote, List.nil_append]⟩
          · split at h
            · simp at h
            · split at h <;> exact hmore _ h

/-- A text that was read up to its quote is read so again, whatever stands behind. -/
theorem quotedText_again
    {quote : Char} {mode : QuotedMode} {cs text : List Char}
    (h : quotedText quote mode cs = (text, true))
    (rest : List Char) :
    quotedText quote mode (text ++ quote :: rest) = (text, true) := by
  induction cs generalizing mode text with
  | nil => simp [quotedText] at h
  | cons c cs ih =>
      have hmore : ∀ next, ((c :: (quotedText quote next cs).1,
          (quotedText quote next cs).2) = (text, true)) →
          ∃ more, text = c :: more ∧
            quotedText quote next (more ++ quote :: rest) = (more, true) := by
        intro next hnext
        obtain ⟨rfl, hclosed⟩ := Prod.mk.inj hnext
        exact ⟨_, rfl, ih (Prod.ext rfl hclosed)⟩
      simp only [quotedText] at h
      split at h
      · rename_i hmode
        obtain ⟨more, rfl, hagain⟩ := hmore _ h
        simp only [List.cons_append, quotedText, if_pos hmode, hagain]
      · rename_i hmode
        split at h
        · rename_i hblank
          obtain ⟨more, rfl, hagain⟩ := hmore _ h
          simp only [List.cons_append, quotedText, if_neg hmode, if_pos hblank, hagain]
        · rename_i hblank
          split at h
          · rename_i hquote
            obtain ⟨rfl, -⟩ := Prod.mk.inj h
            subst hquote
            simp only [List.nil_append, quotedText, if_neg hmode, if_neg hblank, if_true]
          · rename_i hquote
            split at h
            · simp at h
            · rename_i hbreak
              split at h
              · rename_i hslash
                obtain ⟨more, rfl, hagain⟩ := hmore _ h
                simp only [List.cons_append, quotedText, if_neg hmode, if_neg hblank,
                  if_neg hquote, if_neg hbreak, if_pos hslash, hagain]
              · rename_i hslash
                obtain ⟨more, rfl, hagain⟩ := hmore _ h
                simp only [List.cons_append, quotedText, if_neg hmode, if_neg hblank,
                  if_neg hquote, if_neg hbreak, if_neg hslash, hagain]

/-- A quoted string that is read fits the text. -/
theorem readQuoted_fits
    {quote : Char} {delimiter : Delimiter} {cs : List Char} {lexeme : Lexeme}
    (hdelimiter : quote = '\'' ∧ delimiter = .single ∨ quote = '"' ∧ delimiter = .double)
    (h : readQuoted quote delimiter cs = .ok lexeme) :
    lexeme.Fits (quote :: cs) := by
  simp only [readQuoted] at h
  split at h
  · rename_i hclosed
    obtain rfl := Except.ok.inj h
    obtain ⟨rest, hrest⟩ := quotedText_append (Prod.ext rfl hclosed)
    refine ⟨?_, rest, ?_⟩
    · have hagain := quotedText_again (Prod.ext rfl hclosed)
      obtain ⟨rfl, rfl⟩ | ⟨rfl, rfl⟩ := hdelimiter <;> exact ⟨hagain, rfl⟩
    · simp only [List.cons_append, List.append_assoc, List.nil_append]
      rw [← hrest]
  · cases h

/-- A word that is read fits the text. -/
theorem readWord_fits
    {first : Char} {cs : List Char}
    (hfirst : CharClass.isNameStart first = true) :
    (readWord first cs).Fits (first :: cs) := by
  refine ⟨?_, List.cons_prefix_cons.mpr ⟨rfl, List.takeWhile_prefix _⟩⟩
  simp only [readWord]
  cases hword : Keyword.ofText? (String.ofList (first :: cs.takeWhile CharClass.isWord)) with
  | none =>
      refine ⟨⟨?_, hword⟩, rfl⟩
      simp only [isIdentifier, hfirst, Bool.true_and, List.all_takeWhile]
  | some word =>
      have htext := List.find?_some hword
      simp only [beq_iff_eq] at htext
      refine ⟨?_, rfl⟩
      rw [Kind.display, htext, String.toList_ofList]

/-- A long string that is read fits the text. -/
theorem readLong_fits
    {level : Nat} {cs : List Char} {lexeme : Lexeme}
    (hlevel : LongBracket.level? cs = some level)
    (h : readLong level cs = .ok lexeme) :
    lexeme.Fits cs := by
  unfold readLong at h
  split at h
  · rename_i bracket hbracket
    obtain rfl := Except.ok.inj h
    obtain ⟨hwell, rest, hrest⟩ := LongBracket.read?_eq_some hlevel hbracket
    exact ⟨⟨bracket, hwell, rfl, rfl⟩, rest, hrest.symm⟩
  · cases h

/-- A symbol that is read fits the text. -/
theorem readSymbol_fits
    {first : Char} {cs : List Char} {lexeme : Lexeme}
    (h : readSymbol first cs = .ok lexeme) :
    lexeme.Fits (first :: cs) := by
  unfold readSymbol at h
  split at h
  · rename_i symbol hsymbol
    obtain rfl := Except.ok.inj h
    unfold Symbol.longest? at hsymbol
    have hfront := List.find?_some hsymbol
    exact ⟨⟨rfl, rfl⟩, List.isPrefixOf_iff_prefix.mp hfront⟩
  · cases h

/-- `Lexeme.read` takes a lexeme that is written as its kind demands. -/
theorem read_fits
    {first : Char} {cs : List Char} {lexeme : Lexeme}
    (h : read first cs = .ok lexeme) :
    lexeme.Fits (first :: cs) := by
  unfold read at h
  split at h
  · cases h
  · split at h
    · rename_i level hlevel
      exact readLong_fits hlevel h
    · split at h
      · exact readNumeral_fits h
      · split at h
        · rename_i hfirst
          exact readQuoted_fits (.inr ⟨hfirst, rfl⟩) h
        · split at h
          · rename_i hfirst
            exact readQuoted_fits (.inl ⟨hfirst, rfl⟩) h
          · split at h
            · rename_i hfirst
              obtain rfl := Except.ok.inj h
              exact readWord_fits hfirst
            · exact readSymbol_fits h

end Lexeme
end LuaView
