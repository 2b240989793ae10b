import LuaView.Proofs.Lexing.ScannedTokens

/-!
# Scanned sources

A scan of a source never breaks down.  It gives the tokens of `tokenize`, or the same error.
-/

namespace LuaView
namespace Scan

open Scanner (between)

variable (before : List Char)

/-! ## One token -/

/-- A symbol is scanned as it is read from the characters that are left. -/
theorem scanSymbol_between
    (first : Char)
    (cs : List Char) :
    Gives before (first :: cs) (Lexeme.readSymbol first cs)
      ((do
        match ← symbol? first with
        | some symbol => return .ok (← pushSlice (.symbol symbol) (Position.afterAll {} before))
        | none => errorFrom (Position.afterAll {} before) (.unexpectedCharacter first) :
          Scan (Except ParseError Token)) (between (before ++ [first]) cs)) := by
  have hsymbol := symbol?_between before first cs
  rw [Lexeme.readSymbol]
  cases hlongest : Symbol.longest? (first :: cs) with
  | some symbol =>
      rw [hlongest] at hsymbol
      rw [bind_ok hsymbol]
      have hpush := pushSlice_between before symbol.text.toList
        ((first :: cs).drop symbol.text.toList.length) (.symbol symbol)
      exact bind_ok hpush
  | none =>
      rw [hlongest] at hsymbol
      rw [bind_ok hsymbol]
      exact ⟨List.cons_prefix_cons.mpr ⟨rfl, List.nil_prefix⟩, _, rfl⟩

theorem isQuote_double : IsQuote '"' :=
  ⟨by decide, by decide, by decide⟩

theorem isQuote_single : IsQuote '\'' :=
  ⟨by decide, by decide, by decide⟩

/-- Behind its first character a token is scanned as it is read. -/
theorem scanFrom_between
    {first : Char}
    {cs : List Char}
    (hcomment : ¬ StartsComment (first :: cs))
    (hlevel : LongBracket.level? (first :: cs) = none) :
    Gives before (first :: cs) (Lexeme.read first cs)
      (scanFrom (Position.afterAll {} before) first (between (before ++ [first]) cs)) := by
  have hdashes : ¬ (first = '-' ∧ cs.head? = some '-') := by
    rintro ⟨rfl, hsecond⟩
    rw [List.head?_eq_getElem?] at hsecond
    exact hcomment ⟨rfl, hsecond⟩
  have hnumeral : (first.isDigit || (first == '.' && cs.head?.any Char.isDigit)) = true ↔
      first.isDigit ∨ (first = '.' ∧ cs.head?.any Char.isDigit) := by simp
  rw [Lexeme.read, if_neg hdashes, hlevel, scanFrom, bind_ok (peek_between _ cs)]
  simp only [hnumeral]
  split_ifs with _ hdouble hsingle
  · exact scanNumber_between before first cs
  · subst hdouble
    exact scanString_between isQuote_double .double before cs
  · subst hsingle
    exact scanString_between isQuote_single .single before cs
  · exact bind_ok (scanWord_between before first cs)
  · exact scanSymbol_between before first cs

/-- A scan of a token gives what is read, as the one token found. -/
theorem scanToken_between
    {first : Char}
    {cs : List Char}
    (hcomment : ¬ StartsComment (first :: cs)) :
    ∃ scanned, Gives before (first :: cs) (Lexeme.read first cs) scanned ∧
      scanToken (between before (first :: cs)) =
        scanned.map fun given => (given.1.map some, given.2) := by
  rw [scanToken, bind_ok (position_between before _), bind_ok (longBracketLevel_between before _)]
  cases hlevel : LongBracket.level? (first :: cs) with
  | some level =>
      have hdashes : ¬ (first = '-' ∧ cs.head? = some '-') := by
        rintro ⟨rfl, -⟩
        cases hlevel
      have hbracket := readLongBracket_between hlevel before
      rw [Lexeme.read, if_neg hdashes, hlevel]
      simp only [Lexeme.readLong]
      cases hread : LongBracket.read? level (first :: cs) with
      | some bracket =>
          rw [hread] at hbracket
          refine ⟨.ok (.ok _, _), rfl, ?_⟩
          rw [bind_ok hbracket]
          rfl
      | none =>
          rw [hread] at hbracket
          refine ⟨.ok (.error _, between (before ++ first :: cs) []), ⟨List.prefix_rfl, _, rfl⟩, ?_⟩
          rw [bind_ok hbracket]
          rfl
  | none =>
      refine ⟨_, scanFrom_between before hcomment hlevel, ?_⟩
      simp only
      rw [bind_ok (advance_cons before cs first)]
      rfl

/-! ## All tokens -/

section Tokens

variable (after : List Char)

/-- The cursor between two parts of its source. -/
def cursorBetween (before after : List Char) : Cursor :=
  ⟨Position.afterAll {} before, after⟩

theorem advanceBy_between (n : Nat) :
    Cursor.advanceBy n (cursorBetween before after) =
      cursorBetween (before ++ after.take n) (after.drop n) := by
  have hpos := Cursor.pos_advanceBy n (cursorBetween before after)
  have hrest := Cursor.rest_advanceBy n (cursorBetween before after)
  generalize Cursor.advanceBy n (cursorBetween before after) = cursor at *
  obtain ⟨pos, rest⟩ := cursor
  simp only [cursorBetween, Position.afterAll_append] at *
  rw [hpos, hrest]

/-- A cursor passes the characters of a class. -/
theorem advanceWhile_cursorBetween (cls : Char → Bool) :
    (cursorBetween before after).advanceWhile cls =
      cursorBetween (before ++ after.takeWhile cls) (after.dropWhile cls) := by
  have htake : after.take (after.takeWhile cls).length = after.takeWhile cls :=
    (List.prefix_iff_eq_take.mp (List.takeWhile_prefix cls)).symm
  have hadvance := advanceBy_between before after (after.takeWhile cls).length
  rw [htake, drop_length_takeWhile] at hadvance
  exact hadvance

/-- The gap is cut off, and then the first token is read. -/
theorem tokens_between :
    (cursorBetween before after).tokens =
      match after.drop (Lexeme.gap after).length with
      | [] => .ok [Token.eof (Position.afterAll {} (before ++ Lexeme.gap after))]
      | first :: cs =>
          match Lexeme.read first cs with
          | .error (cause, extent) =>
              .error ⟨cause, Position.afterAll {} (before ++ Lexeme.gap after),
                Position.afterAll {}
                  (before ++ Lexeme.gap after ++ (first :: cs).take extent.length)⟩
          | .ok lexeme =>
              (cursorBetween (before ++ Lexeme.gap after ++ lexeme.spelling)
                ((first :: cs).drop lexeme.spelling.length)).tokens.map
                  fun tokens => tokenOf (before ++ Lexeme.gap after) lexeme :: tokens := by
  have hskip : (cursorBetween before after).skipGap =
      cursorBetween (before ++ Lexeme.gap after) (after.drop (Lexeme.gap after).length) := by
    have htake : after.take (Lexeme.gap after).length = Lexeme.gap after :=
      (List.prefix_iff_eq_take.mp ⟨_, Lexeme.gap_append after⟩).symm
    rw [Cursor.skipGap, advanceBy_between]
    simp only [cursorBetween, htake]
  generalize before ++ Lexeme.gap after = passed at *
  generalize after.drop (Lexeme.gap after).length = rest at *
  rw [Cursor.tokens]
  split
  · rename_i hrest
    rw [hskip] at hrest ⊢
    obtain rfl : rest = [] := hrest
    rfl
  · rename_i first cs hrest
    rw [hskip] at hrest
    obtain rfl : rest = first :: cs := hrest
    simp only [hskip, advanceBy_between]
    cases hread : Lexeme.read first cs with
    | error fault => rfl
    | ok lexeme =>
        have htake : (first :: cs).take lexeme.spelling.length = lexeme.spelling :=
          (List.prefix_iff_eq_take.mp (Lexeme.read_fits hread).atFront).symm
        simp only [htake]
        cases (cursorBetween (passed ++ lexeme.spelling)
          ((first :: cs).drop lexeme.spelling.length)).tokens <;> rfl

/-- A round that ends the scan, or finds one more token. -/
theorem tokenRound_between (tokens : List Token) :
    (∃ final, tokenRound tokens (between before after) =
      .ok (.done ((cursorBetween before after).tokens.map (tokens ++ ·)), final)) ∨
    ∃ passed rest token, passed ≠ [] ∧ after = passed ++ rest ∧
      (cursorBetween before after).tokens =
        (cursorBetween (before ++ passed) rest).tokens.map (token :: ·) ∧
      tokenRound tokens (between before after) =
        .ok (.again (tokens ++ [token]), between (before ++ passed) rest) := by
  have hgap := Lexeme.gap_append after
  have hskip := skipGap_between before after
  rw [tokens_between, tokenRound]
  generalize Lexeme.gap after = gap at *
  generalize after.drop gap.length = rest at *
  subst hgap
  by_cases hcomment : StartsComment rest
  · rw [if_pos hcomment] at hskip
    obtain ⟨more, rfl⟩ := startsComment_iff.mp hcomment
    refine .inl ⟨between (before ++ (gap ++ '-' :: '-' :: more)) [], ?_⟩
    have hread : Lexeme.read '-' ('-' :: more) =
        .error (.unclosedComment, '-' :: '-' :: more) := rfl
    rw [bind_ok hskip]
    simp only [hread, List.take_length, List.append_assoc]
    rfl
  rw [if_neg hcomment] at hskip
  cases rest with
  | nil =>
      refine .inl ⟨between (before ++ gap) [], ?_⟩
      rw [bind_ok hskip]
      exact bind_ok (isEof_between _ [])
  | cons first cs =>
      obtain ⟨scanned, hgives, hscan⟩ := scanToken_between (before ++ gap) hcomment
      have heof := isEof_between (before ++ gap) (first :: cs)
      rw [bind_ok hskip]
      simp only
      rw [bind_ok heof, if_neg (by simp)]
      cases hread : Lexeme.read first cs with
      | error fault =>
          rw [hread] at hgives
          obtain ⟨hextent, final, rfl⟩ := hgives
          refine .inl ⟨final, ?_⟩
          simp only
          rw [bind_ok hscan, ← List.prefix_iff_eq_take.mp hextent]
          rfl
      | ok lexeme =>
          rw [hread] at hgives
          obtain ⟨rest, hrest⟩ := (Lexeme.read_fits hread).atFront
          simp only [Gives, ← hrest, List.drop_left] at hgives
          subst hgives
          rw [← hrest] at hscan ⊢
          refine .inr ⟨gap ++ lexeme.spelling, rest, tokenOf (before ++ gap) lexeme, ?_, ?_, ?_, ?_⟩
          · exact List.append_ne_nil_of_right_ne_nil _ lexeme.spelling_ne_nil
          · rw [List.append_assoc]
          · simp only [List.drop_left, List.append_assoc]
          · rw [bind_ok hscan]
            simp only [List.append_assoc]
            rfl

/-- The rounds of the scanner give the tokens of the cursor, behind those already found. -/
theorem loop_tokenRound_between (tokens : List Token) :
    ∃ final, loop tokenRound tokens (between before after) =
      .ok ((cursorBetween before after).tokens.map (tokens ++ ·), final) := by
  induction before, after using passing_induction generalizing tokens with
  | step before after ih =>
      rcases tokenRound_between before after tokens with
        ⟨final, hround⟩ | ⟨passed, rest, token, hne, rfl, htokens, hround⟩
      · exact ⟨final, loop_done hround⟩
      · obtain ⟨final, hnext⟩ := ih passed rest hne rfl (tokens ++ [token])
        refine ⟨final, ?_⟩
        rw [loop_again hne hround, hnext, htokens]
        cases (cursorBetween (before ++ passed) rest).tokens with
        | error error => rfl
        | ok more =>
            simp only [Except.map, List.append_assoc, List.singleton_append]

end Tokens

/-- The first line is skipped by the scanner and by the cursor alike. -/
theorem skipShebang_between (after : List Char) :
    ∃ passed rest, after = passed ++ rest ∧
      (cursorBetween before after).skipShebang = cursorBetween (before ++ passed) rest ∧
      skipShebang (between before after) = .ok ((), between (before ++ passed) rest) := by
  rw [skipShebang, bind_ok (peek_between before after), bind_ok (peekNth_between before after 1)]
  by_cases hmarks : after.head? = some '#' ∧ after[1]? = some '!'
  · obtain ⟨hfirst, hsecond⟩ := hmarks
    obtain ⟨cs, rfl⟩ := List.head?_eq_some_iff.mp hfirst
    rw [List.getElem?_cons_succ, ← List.head?_eq_getElem?] at hsecond
    obtain ⟨cs, rfl⟩ := List.head?_eq_some_iff.mp hsecond
    refine ⟨_, _, (List.takeWhile_append_dropWhile (p := (· != '\n'))).symm, ?_, ?_⟩
    · exact advanceWhile_cursorBetween before ('#' :: '!' :: cs) (· != '\n')
    · exact advanceWhile_between (· != '\n') before ('#' :: '!' :: cs)
  · refine ⟨[], after, rfl, ?_, ?_⟩
    · rw [List.append_nil]
      unfold Cursor.skipShebang
      split
      · rename_i hrest
        obtain rfl : after = _ := hrest
        exact absurd ⟨rfl, rfl⟩ hmarks
      · rfl
    · rw [if_neg hmarks, List.append_nil]
      rfl

end Scan

/-- A scan never breaks down, and gives what the source is cut into. -/
theorem scan_eq_tokenize (source : String) :
    scan source = .ok (tokenize source) := by
  obtain ⟨passed, rest, hsource, hcursor, hshebang⟩ := Scan.skipShebang_between [] source.toList
  obtain ⟨final, hloop⟩ := Scan.loop_tokenRound_between passed rest []
  have htokens : Scan.tokens ⟨source.toList, {}⟩ =
      .ok ((Scan.cursorBetween passed rest).tokens, final) := by
    have hmap : (Scan.cursorBetween passed rest).tokens.map ([] ++ ·) =
        (Scan.cursorBetween passed rest).tokens := by
      cases (Scan.cursorBetween passed rest).tokens <;> rfl
    rw [hmap] at hloop
    exact (Scan.bind_ok hshebang).trans hloop
  have htokenize : tokenize source = (Scan.cursorBetween passed rest).tokens :=
    congrArg Cursor.tokens hcursor
  rw [scan, htokens, htokenize]
  rfl

end LuaView
