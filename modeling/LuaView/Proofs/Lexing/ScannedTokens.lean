import LuaView.Proofs.Lexing.CarriageReturns
import LuaView.Proofs.Lexing.Scanning

/-!
# Scanned tokens

A scanner that reads gaps and tokens stops where the lists of characters say, and gives the same
tokens and errors.  An error that a gap is never closed is found in the gap by the scanner, and
behind it by `Lexeme.read`.
-/

namespace LuaView
namespace Scan

open Scanner (between)

/-! ## Gaps -/

/-- A gap begins with all the blanks there are. -/
theorem gap_blanks (cs : List Char) :
    Lexeme.gap cs = cs.takeWhile isBlank ++ Lexeme.gap (cs.dropWhile isBlank) := by
  induction cs with
  | nil => rfl
  | cons c cs ih =>
      cases hc : isBlank c with
      | true =>
          rw [Lexeme.gap_blank hc, ih, List.takeWhile_cons_of_pos hc,
            List.dropWhile_cons_of_pos hc, List.cons_append]
      | false =>
          rw [List.takeWhile_cons_of_neg (by rw [hc]; decide),
            List.dropWhile_cons_of_neg (by rw [hc]; decide), List.nil_append]

/-- The text starts a comment. -/
def StartsComment (cs : List Char) : Prop :=
  cs.head? = some '-' ∧ cs[1]? = some '-'

instance (cs : List Char) : Decidable (StartsComment cs) :=
  inferInstanceAs (Decidable (_ ∧ _))

theorem startsComment_iff {cs : List Char} :
    StartsComment cs ↔ ∃ more, cs = '-' :: '-' :: more := by
  constructor
  · rintro ⟨hfirst, hsecond⟩
    obtain ⟨more, rfl⟩ := List.head?_eq_some_iff.mp hfirst
    rw [List.getElem?_cons_succ, ← List.head?_eq_getElem?] at hsecond
    obtain ⟨more, rfl⟩ := List.head?_eq_some_iff.mp hsecond
    exact ⟨more, rfl⟩
  · rintro ⟨more, rfl⟩
    exact ⟨rfl, rfl⟩

/-- Behind the blanks stands something else. -/
theorem gap_behind_blanks
    {cs : List Char}
    (h : ¬ StartsComment (cs.dropWhile isBlank)) :
    Lexeme.gap (cs.dropWhile isBlank) = [] := by
  cases hrest : cs.dropWhile isBlank with
  | nil => exact Lexeme.gap_nil
  | cons c rest =>
      have hblank : isBlank c = false := by
        have hhead := List.head?_dropWhile_not isBlank cs
        rw [hrest] at hhead
        simpa using hhead
      refine Lexeme.gap_eq_nil hblank ?_
      rintro rfl hdash
      rw [hrest] at h
      exact h ⟨rfl, by rw [List.getElem?_cons_succ, ← List.head?_eq_getElem?, hdash]⟩

/-- A comment is skipped up to its end, or it is an error if a long one has none. -/
theorem skipComment_between (before more : List Char) :
    skipComment (between before ('-' :: '-' :: more)) =
      match Lexeme.comment more with
      | some body =>
          .ok (.ok (), between (before ++ '-' :: '-' :: body) (more.drop body.length))
      | none =>
          .ok (.error ⟨.unclosedComment, Position.afterAll {} before,
              Position.afterAll {} (before ++ '-' :: '-' :: more)⟩,
            between (before ++ '-' :: '-' :: more) []) := by
  have hdashes : advanceTimes 2 (between before ('-' :: '-' :: more)) =
      .ok ((), between (before ++ ['-', '-']) more) :=
    advanceTimes_between before more ['-', '-']
  have happend : ∀ cs : List Char, before ++ ['-', '-'] ++ cs = before ++ '-' :: '-' :: cs :=
    fun cs => List.append_assoc before ['-', '-'] cs
  rw [skipComment, bind_ok (position_between _ _), bind_ok hdashes,
    bind_ok (longBracketLevel_between _ more), Lexeme.comment]
  cases hlevel : LongBracket.level? more with
  | none =>
      simp only
      rw [bind_ok (advanceWhile_between (· != '\n') _ more), drop_length_takeWhile, happend]
      rfl
  | some level =>
      have hread := readLongBracket_between hlevel (before ++ ['-', '-'])
      rw [happend] at hread
      cases hbracket : LongBracket.read? level more with
      | none =>
          rw [hbracket] at hread
          simp only [hbracket, Option.map_none]
          rw [bind_ok hread]
          rfl
      | some bracket =>
          rw [hbracket] at hread
          simp only [happend] at hread
          simp only [hbracket, Option.map_some]
          rw [bind_ok hread]
          rfl

variable (before after : List Char)

/-- What a round does behind its blanks. -/
theorem skipRound_between :
    skipRound (between before after) =
      (if StartsComment (after.dropWhile isBlank) then do
        match ← skipComment with
        | .ok () => return .again ()
        | .error error => return .done (.error error)
      else return .done (.ok ()) : Scan (Round Unit (Except ParseError Unit)))
        (between (before ++ after.takeWhile isBlank) (after.dropWhile isBlank)) := by
  rw [skipRound, bind_ok (advanceWhile_between isBlank before after), bind_ok (peek_between _ _),
    bind_ok (peekNth_between _ _ 1)]
  rfl

section Comments

variable {after more : List Char}

/-- A round goes past a comment that has an end. -/
theorem skipRound_comment
    (hmore : after.dropWhile isBlank = '-' :: '-' :: more)
    {body : List Char}
    (hbody : Lexeme.comment more = some body) :
    ∃ passed rest, passed ≠ [] ∧ after = passed ++ rest ∧
      Lexeme.gap after = passed ++ Lexeme.gap rest ∧
      skipRound (between before after) = .ok (.again (), between (before ++ passed) rest) := by
  have hround := skipRound_between before after
  have hskip := skipComment_between (before ++ after.takeWhile isBlank) more
  have hsplit := List.takeWhile_append_dropWhile (p := isBlank) (l := after)
  have hgap := gap_blanks after
  rw [hmore, if_pos ⟨rfl, rfl⟩] at hround
  rw [hmore] at hsplit hgap
  rw [hbody] at hskip
  simp only at hskip
  have hbehind := Lexeme.comment_append hbody
  generalize more.drop body.length = rest at hbehind hskip
  subst hbehind
  have hcut := Lexeme.gap_comment hbody
  simp only [List.cons_append] at hcut
  refine ⟨after.takeWhile isBlank ++ '-' :: '-' :: body, rest, by simp, ?_, ?_, ?_⟩
  · rw [← List.cons_append, ← List.cons_append, ← List.append_assoc] at hsplit
    exact hsplit.symm
  · rw [hgap, hcut, List.append_assoc]
    rfl
  · rw [← List.append_assoc]
    exact hround.trans (bind_ok hskip)

/-- A round ends with the source at a comment that has no end. -/
theorem skipRound_unclosed
    (hmore : after.dropWhile isBlank = '-' :: '-' :: more)
    (hbody : Lexeme.comment more = none) :
    Lexeme.gap after = after.takeWhile isBlank ∧
      skipRound (between before after) =
        .ok (.done (.error ⟨.unclosedComment,
          Position.afterAll {} (before ++ after.takeWhile isBlank),
          Position.afterAll {} (before ++ after)⟩), between (before ++ after) []) := by
  have hround := skipRound_between before after
  have hskip := skipComment_between (before ++ after.takeWhile isBlank) more
  have hsplit := List.takeWhile_append_dropWhile (p := isBlank) (l := after)
  rw [hmore, if_pos ⟨rfl, rfl⟩] at hround
  rw [hmore] at hsplit
  rw [hbody] at hskip
  simp only [List.append_assoc, hsplit] at hskip hround
  refine ⟨?_, hround.trans (bind_ok hskip)⟩
  rw [gap_blanks after, hmore, Lexeme.gap_eq_nil_of_comment hbody, List.append_nil]

end Comments

/-- A gap is passed, unless it ends with a comment that is never closed. -/
theorem skipGap_between :
    skipGap (between before after) =
      if StartsComment (after.drop (Lexeme.gap after).length) then
        .ok (.error ⟨.unclosedComment, Position.afterAll {} (before ++ Lexeme.gap after),
          Position.afterAll {} (before ++ after)⟩, between (before ++ after) [])
      else
        .ok (.ok (),
          between (before ++ Lexeme.gap after) (after.drop (Lexeme.gap after).length)) := by
  induction before, after using passing_induction with
  | step before after ih =>
      by_cases hcomment : StartsComment (after.dropWhile isBlank)
      · obtain ⟨more, hmore⟩ := startsComment_iff.mp hcomment
        cases hbody : Lexeme.comment more with
        | none =>
            obtain ⟨hgap, hround⟩ := skipRound_unclosed before hmore hbody
            rw [hgap, drop_length_takeWhile, if_pos hcomment]
            exact loop_done hround
        | some body =>
            obtain ⟨passed, rest, hne, rfl, hgap, hround⟩ := skipRound_comment before hmore hbody
            rw [hgap, drop_passed]
            simp only [← List.append_assoc]
            exact (loop_again hne hround).trans (ih passed rest hne rfl)
      · have hround := skipRound_between before after
        have hgap := gap_blanks after
        rw [gap_behind_blanks hcomment, List.append_nil] at hgap
        rw [if_neg hcomment] at hround
        rw [hgap, drop_length_takeWhile, if_neg hcomment]
        exact loop_done hround

/-! ## Lexemes -/

/-- The token of a lexeme that begins behind a part of the source. -/
def tokenOf (before : List Char) (lexeme : Lexeme) : Token :=
  ⟨lexeme.kind, String.ofList lexeme.text, Position.afterAll {} before,
    Position.afterAll {} (before ++ lexeme.spelling)⟩

/-- A scan of the part `all` of a source, which stands behind `before`, gives the lexeme that is
read at its front, and passes it, or the error. -/
def Gives
    (before all : List Char)
    (read : Except Lexeme.Fault Lexeme)
    (scanned : Except Scanner.Crash (Except ParseError Token × Scanner)) :
    Prop :=
  match read with
  | .ok lexeme => scanned = .ok (.ok (tokenOf before lexeme),
      between (before ++ lexeme.spelling) (all.drop lexeme.spelling.length))
  | .error (cause, extent) => extent <+: all ∧ ∃ final, scanned =
      .ok (.error ⟨cause, Position.afterAll {} before, Position.afterAll {} (before ++ extent)⟩,
        final)

section Pushes

variable (before spelling after : List Char)

theorem pushSlice_between (kind : Kind) :
    pushSlice kind (Position.afterAll {} before) (between (before ++ spelling) after) =
      .ok (⟨kind, String.ofList spelling, Position.afterAll {} before,
        Position.afterAll {} (before ++ spelling)⟩, between (before ++ spelling) after) := by
  have hslice := slice_between before after spelling
  rw [pushSlice, bind_ok (position_between _ _), byte_afterAll, byte_afterAll, bind_ok hslice]
  rfl

end Pushes

/-! ### Words -/

/-- A word is scanned as it is read from the characters that are left. -/
theorem scanWord_between
    (before : List Char)
    (first : Char)
    (cs : List Char) :
    scanWord (Position.afterAll {} before) (between (before ++ [first]) cs) =
      .ok (tokenOf before (Lexeme.readWord first cs),
        between (before ++ (Lexeme.readWord first cs).spelling)
          ((first :: cs).drop (Lexeme.readWord first cs).spelling.length)) := by
  have hword := advanceWhile_between CharClass.isWord (before ++ [first]) cs
  rw [List.append_assoc, List.singleton_append] at hword
  have hslice := slice_between before (cs.dropWhile CharClass.isWord)
    (first :: cs.takeWhile CharClass.isWord)
  have hdrop : (first :: cs).drop (first :: cs.takeWhile CharClass.isWord).length =
      cs.dropWhile CharClass.isWord :=
    drop_length_takeWhile CharClass.isWord cs
  rw [scanWord, bind_ok hword, bind_ok (position_between _ _), byte_afterAll, byte_afterAll,
    bind_ok hslice]
  simp only [Lexeme.readWord, hdrop]
  exact pushSlice_between before _ _ _

/-! ### Numerals -/

section Numerals

variable {isMark : Char → Bool}

/-- Behind a character that is no sign it does not matter that a mark stands in front of it. -/
theorem numeralTail_afterMark
    {cs : List Char}
    (h : ∀ c ∈ cs.head?, c ≠ '+' ∧ c ≠ '-') :
    Lexeme.numeralTail isMark true cs = Lexeme.numeralTail isMark false cs := by
  cases cs with
  | nil => rfl
  | cons c cs =>
      obtain ⟨hplus, hminus⟩ := h c rfl
      simp [Lexeme.numeralTail, hplus, hminus]

theorem numeralTail_sign
    (hmarks : ∀ c, isMark c = true → CharClass.isWord c = true)
    {sign : Char}
    (hsign : sign = '+' ∨ sign = '-')
    (cs : List Char) :
    Lexeme.numeralTail isMark true (sign :: cs) = sign :: Lexeme.numeralTail isMark false cs := by
  have hmark : isMark sign = false := by
    refine Bool.eq_false_iff.mpr fun hmark => ?_
    have hword := hmarks sign hmark
    rcases hsign with rfl | rfl <;> exact absurd hword (by decide)
  have hdigit : (CharClass.isHexDigit sign || sign == '.') = false := by
    rcases hsign with rfl | rfl <;> decide
  have htaken : (true && (sign == '+' || sign == '-')) = true := by
    rcases hsign with rfl | rfl <;> decide
  simp only [Lexeme.numeralTail, hmark, hdigit, htaken, Bool.false_eq_true, if_false, if_true]

/-- A round passes what makes a numeral longer, or finds that nothing does. -/
theorem numeralRound_between
    (hmarks : ∀ c, isMark c = true → CharClass.isWord c = true)
    (before cs : List Char) :
    (∃ passed rest, passed ≠ [] ∧ cs = passed ++ rest ∧
      Lexeme.numeralTail isMark false cs = passed ++ Lexeme.numeralTail isMark false rest ∧
      numeralRound isMark (between before cs) = .ok (.again (), between (before ++ passed) rest)) ∨
    (Lexeme.numeralTail isMark false cs = cs.takeWhile CharClass.isWord ∧
      numeralRound isMark (between before cs) = .ok (.done (), between before cs)) := by
  rw [numeralRound, bind_ok (peek_between before cs)]
  cases cs with
  | nil => exact .inr ⟨rfl, rfl⟩
  | cons c cs =>
      cases hmark : isMark c with
      | true =>
          left
          have hadvance := advance_cons before cs c
          simp only [List.head?_cons, hmark, if_true, Lexeme.numeralTail]
          rw [bind_ok hadvance, bind_ok (peek_between _ cs)]
          by_cases hsign : cs.head? = some '+' ∨ cs.head? = some '-'
          · obtain ⟨sign, rest, rfl, hsigns⟩ : ∃ sign rest, cs = sign :: rest ∧
                (sign = '+' ∨ sign = '-') := by
              rcases hsign with hsign | hsign <;>
                obtain ⟨rest, rfl⟩ := List.head?_eq_some_iff.mp hsign
              · exact ⟨'+', rest, rfl, .inl rfl⟩
              · exact ⟨'-', rest, rfl, .inr rfl⟩
            refine ⟨[c, sign], rest, List.cons_ne_nil _ _, rfl, ?_, ?_⟩
            · rw [numeralTail_sign hmarks hsigns]
              rfl
            · rw [if_pos hsign, bind_ok (advance_cons _ rest sign), List.append_assoc]
              rfl
          · refine ⟨[c], cs, List.cons_ne_nil _ _, rfl, ?_, ?_⟩
            · rw [numeralTail_afterMark]
              · rfl
              · intro d hd
                rw [not_or] at hsign
                exact ⟨fun h => hsign.1 (h ▸ hd), fun h => hsign.2 (h ▸ hd)⟩
            · rw [if_neg hsign]
              rfl
      | false =>
          cases hdigit : (CharClass.isHexDigit c || c == '.') with
          | true =>
              refine .inl ⟨[c], cs, List.cons_ne_nil _ _, rfl, ?_, ?_⟩
              · simp only [Lexeme.numeralTail, hmark, hdigit, Bool.false_eq_true, if_false, if_true,
                  List.singleton_append]
              · simp only [List.head?_cons, hmark, hdigit, Bool.false_eq_true, if_false, if_true]
                exact bind_ok (advance_cons before cs c)
          | false =>
              refine .inr ⟨?_, ?_⟩
              · simp [Lexeme.numeralTail, hmark, hdigit]
              · simp only [List.head?_cons, hmark, hdigit, Bool.false_eq_true, if_false]
                rfl

/-- The characters of a numeral are passed in two loops, the second one for characters of words. -/
theorem passNumeral_between
    (hmarks : ∀ c, isMark c = true → CharClass.isWord c = true)
    (before cs : List Char) :
    passNumeral isMark (between before cs) =
      .ok ((), between (before ++ Lexeme.numeralTail isMark false cs)
        (cs.drop (Lexeme.numeralTail isMark false cs).length)) := by
  induction before, cs using passing_induction with
  | step before cs ih =>
      rcases numeralRound_between hmarks before cs with
        ⟨passed, rest, hne, rfl, htail, hround⟩ | ⟨htail, hround⟩
      · rw [htail, drop_passed, ← List.append_assoc, ← ih passed rest hne rfl]
        exact bind_of_eq (loop_again hne hround)
      · rw [passNumeral, bind_ok (loop_done hround), advanceWhile_between, htail,
          drop_length_takeWhile]

end Numerals

/-- What stands in front of the tail of a numeral is passed with its marks. -/
theorem exponentMarks_between
    (before : List Char)
    (first : Char)
    (cs : List Char) :
    ∃ isMark front rest,
      exponentMarks first (between (before ++ [first]) cs) =
        .ok (isMark, between (before ++ front) rest) ∧
      (∀ c, isMark c = true → CharClass.isWord c = true) ∧
      first :: cs = front ++ rest ∧
      Lexeme.numeralSpelling first cs = front ++ Lexeme.numeralTail isMark false rest := by
  have hexponent : exponentMarks first (between (before ++ [first]) cs) =
      (if first = '0' ∧ (cs.head? = some 'x' ∨ cs.head? = some 'X') then do
        let _ ← advance
        return fun c => c == 'p' || c == 'P'
      else return fun c => c == 'e' || c == 'E' : Scan (Char → Bool))
        (between (before ++ [first]) cs) :=
    bind_ok (peek_between (before ++ [first]) cs)
  by_cases hletter : first = '0' ∧ (cs.head? = some 'x' ∨ cs.head? = some 'X')
  · obtain ⟨rfl, hletter⟩ := hletter
    obtain ⟨letter, rest, rfl, hletters⟩ : ∃ letter rest, cs = letter :: rest ∧
        (letter = 'x' ∨ letter = 'X') := by
      rcases hletter with hletter | hletter <;>
        obtain ⟨rest, rfl⟩ := List.head?_eq_some_iff.mp hletter
      · exact ⟨'x', rest, rfl, .inl rfl⟩
      · exact ⟨'X', rest, rfl, .inr rfl⟩
    rw [if_pos ⟨rfl, hletter⟩, bind_ok (advance_cons _ rest letter), List.append_assoc] at hexponent
    refine ⟨_, ['0', letter], rest, hexponent, Lexeme.isBase_hex.mark, rfl, ?_⟩
    rcases hletters with rfl | rfl <;> rfl
  · rw [if_neg hletter] at hexponent
    refine ⟨_, [first], cs, hexponent, Lexeme.isBase_decimal.mark, rfl, ?_⟩
    unfold Lexeme.numeralSpelling
    split
    · exact absurd ⟨rfl, .inl rfl⟩ hletter
    · exact absurd ⟨rfl, .inr rfl⟩ hletter
    · rfl

/-- A numeral is scanned as it is read from the characters that are left. -/
theorem scanNumber_between
    (before : List Char)
    (first : Char)
    (cs : List Char) :
    Gives before (first :: cs) (Lexeme.readNumeral first cs)
      (scanNumber (Position.afterAll {} before) first (between (before ++ [first]) cs)) := by
  obtain ⟨isMark, front, rest, hmark, hmarks, hcs, hspelling⟩ :=
    exponentMarks_between before first cs
  have htail := passNumeral_between hmarks (before ++ front) rest
  have hdrop : (first :: cs).drop (Lexeme.numeralSpelling first cs).length =
      rest.drop (Lexeme.numeralTail isMark false rest).length := by
    rw [hspelling, hcs, List.length_append, ← List.drop_drop, List.drop_left]
  rw [List.append_assoc, ← hspelling, ← hdrop] at htail
  have hslice := slice_between before
    ((first :: cs).drop (Lexeme.numeralSpelling first cs).length) (Lexeme.numeralSpelling first cs)
  have hpush := pushSlice_between before (Lexeme.numeralSpelling first cs)
    ((first :: cs).drop (Lexeme.numeralSpelling first cs).length) .number
  rw [scanNumber, bind_ok hmark, bind_ok htail, bind_ok (position_between _ _), byte_afterAll,
    byte_afterAll, bind_ok hslice, Lexeme.readNumeral]
  split
  · exact bind_ok hpush
  · exact ⟨Lexeme.numeralSpelling_atFront first cs, _, rfl⟩

/-! ### Quoted strings -/

theorem quotedText_blanks (quote : Char) (cs : List Char) :
    Lexeme.quotedText quote .blanks cs =
      (cs.takeWhile isBlank ++ (Lexeme.quotedText quote .plain (cs.dropWhile isBlank)).1,
        (Lexeme.quotedText quote .plain (cs.dropWhile isBlank)).2) := by
  induction cs with
  | nil => rfl
  | cons c cs ih =>
      cases hc : isBlank c with
      | true => simp [Lexeme.quotedText, hc, ih]
      | false => simp [Lexeme.quotedText, hc]

theorem quotedText_atFront
    (quote : Char)
    (mode : Lexeme.QuotedMode)
    (cs : List Char) :
    (Lexeme.quotedText quote mode cs).1 <+: cs := by
  induction cs generalizing mode with
  | nil => exact List.nil_prefix
  | cons c cs ih =>
      simp only [Lexeme.quotedText]
      split_ifs <;> first
        | exact List.nil_prefix
        | exact List.cons_prefix_cons.mpr ⟨rfl, ih _⟩

/-- A quote that is no line break and no backslash. -/
structure IsQuote (quote : Char) : Prop where
  feed : quote ≠ '\n'
  carriage : quote ≠ '\r'
  backslash : quote ≠ '\\'

section Quoted

variable {quote : Char}

/-- What a round does in front of a text: it passes what makes the quoted text longer, or finds that
it ends. -/
inductive QuotedStep (quote : Char) (before cs : List Char) : Prop
  | again
      {passed rest : List Char}
      (hpassed : passed ≠ [])
      (hcs : cs = passed ++ rest)
      (htext : Lexeme.quotedText quote .plain cs =
        (passed ++ (Lexeme.quotedText quote .plain rest).1,
          (Lexeme.quotedText quote .plain rest).2))
      (hround : quotedRound quote (between before cs) =
        .ok (.again (), between (before ++ passed) rest))
  | done
      {text rest : List Char} {closed : Bool}
      (hcs : cs = text ++ rest)
      (htext : Lexeme.quotedText quote .plain cs = (text, closed))
      (hround : quotedRound quote (between before cs) =
        .ok (.done closed, between (before ++ text) rest))

/-- A backslash takes along what stands behind it. -/
theorem quotedStep_escape
    (hquote : IsQuote quote)
    (before cs : List Char) :
    QuotedStep quote before ('\\' :: cs) := by
  have hend : '\\' ≠ quote := hquote.backslash.symm
  have htext : Lexeme.quotedText quote .plain ('\\' :: cs) =
      ('\\' :: (Lexeme.quotedText quote .escaped cs).1,
        (Lexeme.quotedText quote .escaped cs).2) := by
    simp [Lexeme.quotedText, hend]
  have hround : quotedRound quote (between before ('\\' :: cs)) =
      escapeRound (between (before ++ ['\\']) cs) := by
    rw [quotedRound, bind_ok (peek_between before _)]
    simp only [List.head?_cons]
    rw [if_neg (by decide), if_neg hend, if_pos trivial]
    exact bind_ok (advance_cons before cs '\\')
  cases cs with
  | nil => exact .done (List.append_nil _).symm htext (hround.trans (bind_ok (advance_nil _)))
  | cons escaped cs =>
      rw [escapeRound, bind_ok (advance_cons _ cs escaped)] at hround
      by_cases hz : escaped = 'z'
      · subst hz
        have hblanks := advanceWhile_between isBlank (before ++ ['\\'] ++ ['z']) cs
        have hskip : Lexeme.quotedText quote .escaped ('z' :: cs) =
            ('z' :: (Lexeme.quotedText quote .blanks cs).1,
              (Lexeme.quotedText quote .blanks cs).2) := by
          simp [Lexeme.quotedText]
        rw [hskip, quotedText_blanks] at htext
        simp only [if_true] at hround
        rw [bind_ok hblanks] at hround
        simp only [List.append_assoc] at hround
        have hcs : '\\' :: 'z' :: cs =
            '\\' :: 'z' :: cs.takeWhile isBlank ++ cs.dropWhile isBlank := by simp
        exact .again (List.cons_ne_nil _ _) hcs htext hround
      · refine .again (List.cons_ne_nil '\\' [escaped]) rfl ?_ ?_
        · rw [htext]
          simp [Lexeme.quotedText, hz]
        · rw [hround]
          simp only [hz, if_false]
          rw [List.append_assoc]
          rfl

/-- Each round of a quoted string takes what the rule for its first character says. -/
theorem quotedStep_between
    (hquote : IsQuote quote)
    (before cs : List Char) :
    QuotedStep quote before cs := by
  have hpeek := peek_between before cs
  cases cs with
  | nil =>
      refine .done rfl rfl ?_
      rw [quotedRound, bind_ok hpeek, List.append_nil]
      rfl
  | cons c cs =>
      by_cases hbreak : c = '\n' ∨ c = '\r'
      · have hother : c ≠ quote := by
          rintro rfl
          exact hbreak.elim hquote.feed hquote.carriage
        have htext : Lexeme.quotedText quote .plain (c :: cs) = ([], false) := by
          simp [Lexeme.quotedText, hother, hbreak]
        refine .done (List.nil_append _).symm htext ?_
        rw [quotedRound, bind_ok hpeek, List.append_nil]
        simp only [List.head?_cons, hbreak, if_true]
        rfl
      by_cases hend : c = quote
      · have htext : Lexeme.quotedText quote .plain (c :: cs) = ([], true) := by
          simp [Lexeme.quotedText, hend]
        refine .done (List.nil_append _).symm htext ?_
        rw [quotedRound, bind_ok hpeek, List.append_nil]
        simp only [List.head?_cons]
        rw [if_neg hbreak, if_pos hend]
        rfl
      by_cases hescape : c = '\\'
      · subst hescape
        exact quotedStep_escape hquote before cs
      · have hplain := not_or.mp hbreak
        refine .again (List.cons_ne_nil c []) rfl ?_ ?_
        · simp [Lexeme.quotedText, hend, hplain, hescape]
        · rw [quotedRound, bind_ok hpeek]
          simp only [List.head?_cons, hbreak, hend, hescape, if_false]
          exact bind_ok (advance_cons before cs c)

/-- A quoted text is passed up to where it ends. -/
theorem quotedText_between
    (hquote : IsQuote quote)
    (before cs : List Char) :
    loop (fun () => quotedRound quote) () (between before cs) =
      .ok ((Lexeme.quotedText quote .plain cs).2,
        between (before ++ (Lexeme.quotedText quote .plain cs).1)
          (cs.drop (Lexeme.quotedText quote .plain cs).1.length)) := by
  induction before, cs using passing_induction with
  | step before cs ih =>
      rcases quotedStep_between hquote before cs with
        @⟨passed, rest, hne, rfl, htext, hround⟩ | @⟨text, rest, closed, rfl, htext, hround⟩
      · rw [htext, drop_passed, ← List.append_assoc, loop_again hne hround,
          ih passed rest hne rfl]
      · rw [htext, List.drop_left]
        exact loop_done hround

/-- A quoted string is scanned as it is read from the characters that are left. -/
theorem scanString_between
    (hquote : IsQuote quote)
    (delimiter : Delimiter)
    (before cs : List Char) :
    Gives before (quote :: cs) (Lexeme.readQuoted quote delimiter cs)
      (scanString (Position.afterAll {} before) quote delimiter
        (between (before ++ [quote]) cs)) := by
  have hloop := quotedText_between hquote (before ++ [quote]) cs
  have hfront := quotedText_atFront quote .plain cs
  have hclosed := @Lexeme.quotedText_append quote .plain cs
  rw [scanString, bind_ok (position_between _ _), bind_ok hloop, Lexeme.readQuoted]
  generalize Lexeme.quotedText quote .plain cs = quoted at *
  obtain ⟨text, closed⟩ := quoted
  cases closed with
  | true =>
      obtain ⟨rest, rfl⟩ := hclosed rfl
      have hslice := slice_between (before ++ [quote]) (quote :: rest) text
      simp only [if_true, List.drop_left]
      rw [bind_ok (position_between _ _), byte_afterAll, byte_afterAll, bind_ok hslice,
        bind_ok (advance_cons _ rest quote)]
      have hsplit : quote :: (text ++ quote :: rest) = (quote :: text ++ [quote]) ++ rest := by
        simp
      have hdrop :
          (quote :: (text ++ quote :: rest)).drop (quote :: text ++ [quote]).length = rest := by
        rw [hsplit, List.drop_left]
      have hwhole :
          before ++ [quote] ++ text ++ [quote] = before ++ (quote :: text ++ [quote]) := by
        simp
      simp only [Gives, hdrop, hwhole]
      rfl
  | false =>
      simp only [Bool.false_eq_true, if_false]
      rw [List.append_assoc]
      exact ⟨List.cons_prefix_cons.mpr ⟨rfl, hfront⟩, _, rfl⟩

end Quoted

/-! ### Symbols -/

theorem text_pairs
    {first : Char}
    {pair : Char × Symbol}
    (h : pair ∈ pairs first) :
    pair.2.text.toList = [first, pair.1] := by
  unfold pairs at h
  split at h <;> simp at h <;> rcases h with rfl | rfl <;> rfl

theorem text_single?
    {first : Char}
    {symbol : Symbol}
    (h : single? first = some symbol) :
    symbol.text.toList = [first] := by
  unfold single? at h
  split at h <;> cases h <;> rfl

theorem eq_of_pairs
    {first second : Char}
    {symbol other : Symbol}
    (h : (second, symbol) ∈ pairs first)
    (h' : (second, other) ∈ pairs first) :
    symbol = other := by
  unfold pairs at h h'
  split at h <;> simp at h h' <;> grind

/-- Every symbol but those that start with a point is found by its characters. -/
theorem text_cases (symbol : Symbol) :
    match symbol.text.toList with
    | [] => False
    | [c] => c = '.' ∨ single? c = some symbol
    | [c, d] => c = '.' ∨ (d, symbol) ∈ pairs c
    | c :: _ => c = '.' := by
  cases symbol <;> simp [Symbol.text, single?, pairs]

/-- A symbol at the front of a text that starts with no point. -/
theorem symbol_atFront
    {first : Char}
    (hpoint : first ≠ '.')
    {cs : List Char}
    {symbol : Symbol}
    (hfront : symbol.text.toList <+: first :: cs) :
    (symbol.text.toList = [first] ∧ single? first = some symbol) ∨
      ∃ second, cs.head? = some second ∧ symbol.text.toList = [first, second] ∧
        (second, symbol) ∈ pairs first := by
  have hcases := text_cases symbol
  generalize symbol.text.toList = text at hcases hfront ⊢
  match text, hcases with
  | [c], hcases =>
      obtain ⟨rfl, -⟩ := List.cons_prefix_cons.mp hfront
      exact .inl ⟨rfl, hcases.resolve_left hpoint⟩
  | [c, d], hcases =>
      obtain ⟨rfl, more, rfl⟩ := List.cons_prefix_cons.mp hfront
      exact .inr ⟨d, rfl, rfl, hcases.resolve_left hpoint⟩
  | c :: _ :: _ :: _, hcases =>
      obtain ⟨rfl, -⟩ := List.cons_prefix_cons.mp hfront
      exact absurd hcases hpoint

/-- The longest symbol is at least as long as any other. -/
theorem length_le_longest?
    {cs : List Char}
    {symbol longest : Symbol}
    (hfront : symbol.text.toList <+: cs)
    (h : Symbol.longest? cs = some longest) :
    symbol.text.toList.length ≤ longest.text.toList.length := by
  obtain ⟨-, longer, shorter, hall, hbefore⟩ := List.find?_eq_some_iff_append.mp h
  have hordered : (Symbol.all.map fun symbol => symbol.text.toList.length).Pairwise (· ≥ ·) := by
    decide
  have hmem : symbol ∈ Symbol.all := by cases symbol <;> decide
  rw [hall] at hordered hmem
  rcases List.mem_append.mp hmem with hlonger | hshorter
  · have hnot := hbefore symbol hlonger
    rw [List.isPrefixOf_iff_prefix.mpr hfront] at hnot
    cases hnot
  · rcases List.mem_cons.mp hshorter with rfl | hshorter
    · exact Nat.le_refl _
    · rw [List.map_append, List.map_cons, List.pairwise_append] at hordered
      exact (List.pairwise_cons.mp hordered.2.1).1 _ (List.mem_map_of_mem hshorter)

theorem longest?_atFront
    {cs : List Char}
    {symbol : Symbol}
    (h : Symbol.longest? cs = some symbol) :
    symbol.text.toList <+: cs := by
  have hfound := List.find?_some h
  exact List.isPrefixOf_iff_prefix.mp hfound

theorem longest?_isSome
    {cs : List Char}
    {symbol : Symbol}
    (hfront : symbol.text.toList <+: cs) :
    (Symbol.longest? cs).isSome = true := by
  have hmem : symbol ∈ Symbol.all := by cases symbol <;> decide
  exact List.find?_isSome.mpr ⟨symbol, hmem, List.isPrefixOf_iff_prefix.mpr hfront⟩

/-- The second character decides, if it makes a pair, and otherwise the first one alone. -/
theorem longest?_of_ne
    {first : Char}
    (hpoint : first ≠ '.')
    (cs : List Char) :
    Symbol.longest? (first :: cs) =
      (((pairs first).find? fun pair => cs.head? == some pair.1).map Prod.snd).or
        (single? first) := by
  cases hfind : (pairs first).find? fun pair => cs.head? == some pair.1 with
  | some pair =>
      have htext := text_pairs (List.mem_of_find?_eq_some hfind)
      have hhead : cs.head? = some pair.1 := by simpa using List.find?_some hfind
      obtain ⟨more, rfl⟩ := List.head?_eq_some_iff.mp hhead
      have hfront : pair.2.text.toList <+: first :: pair.1 :: more := htext ▸ ⟨more, rfl⟩
      obtain ⟨longest, hlongest⟩ := Option.isSome_iff_exists.mp (longest?_isSome hfront)
      have hlength := length_le_longest? hfront hlongest
      rw [hlongest]
      rcases symbol_atFront hpoint (longest?_atFront hlongest) with
        ⟨hone, -⟩ | ⟨second, hsecond, -, hmem⟩
      · rw [htext, hone] at hlength
        exact absurd hlength (Nat.not_succ_le_self 1)
      · obtain rfl := Option.some.inj hsecond
        exact congrArg some (eq_of_pairs hmem (List.mem_of_find?_eq_some hfind))
  | none =>
      rw [Option.map_none, Option.none_or]
      cases hlongest : Symbol.longest? (first :: cs) with
      | some longest =>
          rcases symbol_atFront hpoint (longest?_atFront hlongest) with
            ⟨-, hsingle⟩ | ⟨second, hsecond, -, hmem⟩
          · exact hsingle.symm
          · have hnot := List.find?_eq_none.mp hfind _ hmem
            exact absurd (by simp [hsecond]) hnot
      | none =>
          refine (Option.eq_none_iff_forall_ne_some.mpr fun symbol hsingle => ?_).symm
          have hfront : symbol.text.toList <+: first :: cs := text_single? hsingle ▸ ⟨cs, rfl⟩
          have hsome := longest?_isSome hfront
          rw [hlongest] at hsome
          cases hsome

/-- The symbols that begin with a point are found by counting points. -/
theorem longest?_point (cs : List Char) :
    ∃ symbol more, Symbol.longest? ('.' :: cs) = some symbol ∧
      symbol.text.toList = '.' :: more ∧
      ∀ before, points (between before cs) =
        .ok (symbol, between (before ++ more) (cs.drop more.length)) := by
  by_cases hfirst : cs.head? = some '.'
  · obtain ⟨cs, rfl⟩ := List.head?_eq_some_iff.mp hfirst
    by_cases hsecond : cs.head? = some '.'
    · obtain ⟨cs, rfl⟩ := List.head?_eq_some_iff.mp hsecond
      refine ⟨.ellipsis, ['.', '.'], by simp [Symbol.longest?, Symbol.all, Symbol.text], rfl,
        fun before => ?_⟩
      rw [points, bind_ok (eat_cons before _ '.'), if_pos rfl, bind_ok (eat_cons _ cs '.'),
        List.append_assoc]
      rfl
    · refine ⟨.dotDot, ['.'], ?_, rfl, fun before => ?_⟩
      · cases cs <;>
          simp_all [Symbol.longest?, Symbol.all, Symbol.text, List.isPrefixOf, List.find?_cons]
        grind
      · rw [points, bind_ok (eat_cons before cs '.'), if_pos rfl, bind_ok (eat_of_ne _ cs hsecond)]
        rfl
  · refine ⟨.dot, [], ?_, rfl, fun before => ?_⟩
    · cases cs <;>
        simp_all [Symbol.longest?, Symbol.all, Symbol.text, List.isPrefixOf, List.find?_cons]
      grind
    · rw [points, bind_ok (eat_of_ne before cs hfirst), List.append_nil]
      rfl

/-- The second character of a symbol is passed if it is one of the choices. -/
theorem eatPair_between
    (choices : List (Char × Symbol))
    (before cs : List Char) :
    eatPair choices (between before cs) =
      match choices.find? fun pair => cs.head? == some pair.1 with
      | some pair => .ok (some pair.2, between (before ++ [pair.1]) (cs.drop 1))
      | none => .ok (none, between before cs) := by
  induction choices with
  | nil => rfl
  | cons pair choices ih =>
      by_cases hhead : cs.head? = some pair.1
      · obtain ⟨cs, rfl⟩ := List.head?_eq_some_iff.mp hhead
        rw [List.find?_cons_of_pos (by simp), eatPair, bind_ok (eat_cons before cs pair.1)]
        rfl
      · rw [List.find?_cons_of_neg (by simpa using hhead), eatPair,
          bind_ok (eat_of_ne before cs hhead), if_neg (by decide), ih]

/-- The characters behind the first one of a symbol are passed. -/
theorem symbol?_between
    (before : List Char)
    (first : Char)
    (cs : List Char) :
    symbol? first (between (before ++ [first]) cs) =
      match Symbol.longest? (first :: cs) with
      | some symbol => .ok (some symbol, between (before ++ symbol.text.toList)
          ((first :: cs).drop symbol.text.toList.length))
      | none => .ok (none, between (before ++ [first]) cs) := by
  rw [symbol?]
  by_cases hpoint : first = '.'
  · subst hpoint
    obtain ⟨symbol, more, hlongest, htext, hpoints⟩ := longest?_point cs
    rw [if_pos rfl, bind_ok (hpoints _), hlongest]
    simp only [htext, List.append_assoc, List.singleton_append]
    rfl
  · have hpairs := eatPair_between (pairs first) (before ++ [first]) cs
    rw [if_neg hpoint, longest?_of_ne hpoint]
    cases hfind : (pairs first).find? fun pair => cs.head? == some pair.1 with
    | some pair =>
        rw [hfind] at hpairs
        have htext := text_pairs (List.mem_of_find?_eq_some hfind)
        rw [bind_ok hpairs]
        simp only [Option.map_some, Option.some_or, htext, List.append_assoc,
          List.singleton_append]
        rfl
    | none =>
        rw [hfind] at hpairs
        rw [bind_ok hpairs]
        cases hsingle : single? first with
        | none => rfl
        | some symbol =>
            have htext := text_single? hsingle
            simp only [Option.map_none, Option.none_or, htext]
            rfl

end Scan
end LuaView
