import LuaView.Proofs.Lexing.Relayout
import LuaView.Proofs.Parsing.Acceptance
import LuaView.Proofs.Parsing.Comparison

/-!
# Layout and comments do not matter

Two lists of tokens with the same marks are parsed to the same program, or end in errors with the
same cause; only the places of the errors differ.  So a source and any other layout of its tokens
hold the same program.
-/

namespace LuaView

/-- Tokens with the same mark, and errors with the same cause, wherever they are. -/
def Comparison.marks : Comparison where
  same token other := token.mark = other.mark
  sameError error other := error.cause = other.cause
  cutOff _ := False
  kind_eq h := congrArg Mark.kind h
  text_eq h := congrArg Mark.text h
  error_of_same _ _ := rfl

/-- A phrase does not depend on the places of its tokens. -/
theorem Grammar.agree_phrase_marks
    (limit budget n : Nat) :
    Descent.Agree .marks n (phrase limit budget) (phrase limit budget) := by
  induction budget generalizing n with
  | zero =>
      intro asked tokens others _ _
      exact .inl rfl
  | succ budget ih =>
      cases n with
      | zero =>
          intro asked tokens others hcorresponds _
          exact absurd hcorresponds.length_pos (Nat.lt_irrefl 0)
      | succ n => exact agree_phrase_succ (ih n)

/-- Tokens with the same marks have the same program, or errors with the same cause. -/
theorem Session.mapError_parse_of_marks
    {words others : List Token}
    (h : others.map Token.mark = words.map Token.mark)
    (last last' : Position)
    (limit : Nat) :
    (ofTokens (others ++ [Token.eof last']) limit).parse.1.mapError ParseError.cause =
      (ofTokens (words ++ [Token.eof last]) limit).parse.1.mapError ParseError.cause := by
  have heach : List.Forall₂ Comparison.marks.same (others ++ [Token.eof last'])
      (words ++ [Token.eof last]) := by
    have hmarks : (others ++ [Token.eof last']).map Token.mark =
        (words ++ [Token.eof last]).map Token.mark := by
      rw [List.map_append, List.map_append, h]
      rfl
    rw [← List.forall₂_eq_eq_eq, List.forall₂_map_left_iff, List.forall₂_map_right_iff] at hmarks
    exact hmarks
  have hsame : Comparison.marks.SameResult (ofTokens (others ++ [Token.eof last']) limit).parse.1
      (ofTokens (words ++ [Token.eof last]) limit).parse.1 := by
    rw [ofTokens_closed, ofTokens_closed]
    refine sameResult_of_agree ⟨heach, ?_, Nat.le_refl _⟩ (Grammar.agree_phrase_marks limit limit _)
    exact ⟨Token.eof last', List.getLast?_concat .., rfl⟩
  revert hsame
  cases (ofTokens (others ++ [Token.eof last']) limit).parse.1 with
  | ok program =>
      cases (ofTokens (words ++ [Token.eof last]) limit).parse.1 with
      | ok other => exact fun hsame => congrArg Except.ok hsame
      | error other => exact False.elim
  | error error =>
      cases (ofTokens (words ++ [Token.eof last]) limit).parse.1 with
      | ok other => exact False.elim
      | error other => exact fun hsame => congrArg Except.error (hsame.resolve_right id)

/-- The tokens of a source in another layout.  The last token is the end of the source, and there
is nothing of it to lay out. -/
def relaid (source : String) (tokens : List Token) (gap : List Char) (gaps : List (List Char)) :
    String :=
  String.ofList (laidOut (tokens.dropLast.map (Token.slice source.toList)) gap gaps)

/-- Layout and comments never matter: with any separators before, between and behind its tokens, a
source is cut into tokens of the same kinds and texts, and under every limit it holds the same
program or has an error with the same cause. -/
theorem tokenize_parse_relaid
    {source : String}
    {tokens : List Token}
    (h : tokenize source = .ok tokens)
    {gap : List Char}
    {gaps : List (List Char)}
    (hgaps : ∀ separator ∈ gap :: gaps, IsSeparator separator)
    (hlength : (gap :: gaps).length = tokens.length) :
    (∃ others, tokenize (relaid source tokens gap gaps) = .ok others ∧
        others.map Token.mark = tokens.map Token.mark) ∧
      ∀ limit, (parse (relaid source tokens gap gaps) limit).mapError ParseError.cause =
        (parse source limit).mapError ParseError.cause := by
  obtain ⟨words, last, rfl, hwords⟩ := tokenize_ends h
  have hcount : gaps.length = words.length := by simpa using hlength
  obtain ⟨others, last', hothers, hmarks⟩ := tokenize_laidOut h hwords hgaps hcount
  have hrelaid : tokenize (relaid source (words ++ [Token.eof last]) gap gaps) =
      .ok (others ++ [Token.eof last']) := by
    rw [relaid, List.dropLast_concat]
    exact hothers
  refine ⟨⟨_, hrelaid, ?_⟩, fun limit => ?_⟩
  · rw [List.map_append, List.map_append, hmarks]
    rfl
  · rw [parse, parse, hrelaid, h]
    exact Session.mapError_parse_of_marks hmarks last last' limit

/-- The tokens of `x=-.5e-3 ..[=[`, a line break and `]]]=]`. -/
def denseTokens : List Token :=
  [⟨.name, "x", ⟨0, 0, 0⟩, ⟨1, 0, 1⟩⟩, ⟨.symbol .eq, "=", ⟨1, 0, 1⟩, ⟨2, 0, 2⟩⟩,
    ⟨.symbol .minus, "-", ⟨2, 0, 2⟩, ⟨3, 0, 3⟩⟩, ⟨.number, ".5e-3", ⟨3, 0, 3⟩, ⟨8, 0, 8⟩⟩,
    ⟨.symbol .dotDot, "..", ⟨9, 0, 9⟩, ⟨11, 0, 11⟩⟩,
    ⟨.string .long, "]]", ⟨11, 0, 11⟩, ⟨20, 1, 5⟩⟩, ⟨.eof, "", ⟨20, 1, 5⟩, ⟨20, 1, 5⟩⟩]

/-- Gaps for these tokens.  A comment of one line stands in front of the numeral, and a long one in
front of the long string. -/
def wideGaps : List (List Char) :=
  [[' '], [' '], '\n' :: '-' :: '-' :: ['['] ++ '\n' :: [], [' '],
    ' ' :: '-' :: '-' :: LongBracket.spelling ⟨1, [], [']', ']']⟩ ++ [], [' ']]

theorem tokenize_parse_relaid_wideGaps :
    relaid "x=-.5e-3 ..[=[\n]]]=]" denseTokens [' '] wideGaps =
        " x = -\n--[\n.5e-3 .. --[=[]]]=][=[\n]]]=] " ∧
      (∃ others, tokenize (relaid "x=-.5e-3 ..[=[\n]]]=]" denseTokens [' '] wideGaps) =
          .ok others ∧ others.map Token.mark = denseTokens.map Token.mark) ∧
      ∀ limit, (parse (relaid "x=-.5e-3 ..[=[\n]]]=]" denseTokens [' '] wideGaps) limit).mapError
          ParseError.cause =
        (parse "x=-.5e-3 ..[=[\n]]]=]" limit).mapError ParseError.cause := by
  have hspace : IsSeparator [' '] := ⟨.blank (by decide) .nil, ' ', [], rfl, by decide⟩
  have hline : IsSeparator ('\n' :: '-' :: '-' :: ['['] ++ '\n' :: []) :=
    ⟨.blank (by decide) (.lineComment (by decide) (by decide) .nil), '\n', _, rfl, by decide⟩
  have hlong : IsSeparator (' ' :: '-' :: '-' :: LongBracket.spelling ⟨1, [], [']', ']']⟩ ++ []) :=
    ⟨.blank (by decide) (.longComment ⟨by decide, by decide⟩ .nil), ' ', _, rfl, by decide⟩
  have hgaps : ∀ separator ∈ [' '] :: wideGaps, IsSeparator separator := by
    intro separator hseparator
    simp only [wideGaps, List.mem_cons, List.not_mem_nil, or_false] at hseparator
    rcases hseparator with rfl | rfl | rfl | rfl | rfl | rfl | rfl
    · exact hspace
    · exact hspace
    · exact hspace
    · exact hline
    · exact hspace
    · exact hlong
    · exact hspace
  exact ⟨by decide +kernel, tokenize_parse_relaid (by decide +kernel) hgaps rfl⟩

end LuaView
