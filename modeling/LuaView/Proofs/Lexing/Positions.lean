import LuaView.Proofs.Lexing.ScannedSources
import LuaView.Proofs.Parsing.Acceptance
import Mathlib.Data.List.Induction

/-!
# Exact positions

A position is exact if its three counts are those of the characters in front of it: their bytes,
their line feeds, and how many of them stand behind the last line feed.  Whatever operations move a
scanner, it is at an exact position, and so are both ends of every token and of every error.
-/

namespace LuaView

/-- The position behind the front part `passed` of a source. -/
structure Position.IsBehind (pos : Position) (source : String) (passed : List Char) : Prop where
  front : passed <+: source.toList
  byte : pos.byte = (String.ofList passed).utf8ByteSize
  boundary : String.Pos.Raw.IsValid source ⟨pos.byte⟩
  bounded : pos.byte ≤ source.utf8ByteSize
  line : pos.line = passed.count '\n'
  column : pos.column = (passed.reverse.takeWhile (· != '\n')).length

/-- Both ends of the span stand behind parts of the source, in this order. -/
structure Span.IsExact (span : Span) (source : String) : Prop where
  start : ∃ passed, span.start.IsBehind source passed
  stop : ∃ passed, span.stop.IsBehind source passed
  ordered : span.start.byte ≤ span.stop.byte

/-! ## Counting -/

/-- The line is the number of line feeds in front. -/
theorem Position.afterAll_line (passed : List Char) :
    (Position.afterAll {} passed).line = passed.count '\n' := by
  induction passed using List.reverseRecOn with
  | nil => rfl
  | append_singleton passed c ih =>
      rw [Position.afterAll_append, List.count_append, ← ih]
      change (if c = '\n' then _ else _) = _
      split_ifs with hc
      · rw [hc, List.count_singleton_self]
      · rw [List.count_eq_zero_of_not_mem (by simpa using Ne.symm hc), Nat.add_zero]

/-- The column is the number of characters behind the last line feed. -/
theorem Position.afterAll_column (passed : List Char) :
    (Position.afterAll {} passed).column = (passed.reverse.takeWhile (· != '\n')).length := by
  induction passed using List.reverseRecOn with
  | nil => rfl
  | append_singleton passed c ih =>
      rw [Position.afterAll_append, List.reverse_append, List.reverse_singleton,
        List.singleton_append]
      change (if c = '\n' then _ else _) = _
      split_ifs with hc
      · rw [List.takeWhile_cons_of_neg (by simpa using hc)]
        rfl
      · rw [List.takeWhile_cons_of_pos (by simpa using hc), List.length_cons, ← ih]

/-- The position behind a part of a source is exact. -/
theorem Position.isBehind_afterAll
    {source : String}
    {passed rest : List Char}
    (hsource : source.toList = passed ++ rest) :
    (Position.afterAll {} passed).IsBehind source passed where
  front := ⟨rest, hsource.symm⟩
  byte := by rw [Scan.byte_afterAll, utf8ByteSize_ofList]
  boundary := by
    have hstrings : source = String.ofList passed ++ String.ofList rest := by
      rw [← String.ofList_append, ← hsource, String.ofList_toList]
    refine String.Pos.Raw.isValid_iff_exists_append.mpr ⟨_, _, hstrings, ?_⟩
    rw [Scan.byte_afterAll, ← utf8ByteSize_ofList]
    rfl
  bounded := by
    rw [Scan.byte_afterAll, utf8ByteSize_eq_byteLength, hsource, byteLength_append]
    exact Nat.le_add_right _ _
  line := Position.afterAll_line passed
  column := Position.afterAll_column passed

/-- A span from behind one part of a source to behind another one is exact. -/
theorem Span.isExact_afterAll
    {source : String}
    {before middle after : List Char}
    (hsource : source.toList = before ++ (middle ++ after)) :
    Span.IsExact ⟨Position.afterAll {} before, Position.afterAll {} (before ++ middle)⟩ source where
  start := ⟨before, Position.isBehind_afterAll hsource⟩
  stop := ⟨before ++ middle, Position.isBehind_afterAll (by rw [hsource, List.append_assoc])⟩
  ordered := by
    rw [Scan.byte_afterAll, Scan.byte_afterAll, byteLength_append]
    exact Nat.le_add_right _ _

/-! ## Operations -/

namespace Scan

open Scanner (between)

/-- What an operation passes of the characters behind a scanner. -/
def Move.passes : Move → List Char → List Char
  | .advance, cs => cs.take 1
  | .eat expected, cs => if cs.head? = some expected then cs.take 1 else []
  | .advanceWhile cls, cs => cs.takeWhile cls
  | .peekNth _, _ => []

/-- What operations pass one after the other. -/
def passed : List Move → List Char → List Char
  | [], _ => []
  | first :: more, cs => first.passes cs ++ passed more (cs.drop (first.passes cs).length)

/-- The operation on a cursor that keeps what stands behind it. -/
def Move.apply (cursor : Cursor) : Move → Cursor
  | .advance => cursor.advance
  | .eat expected => (cursor.eat? expected).getD cursor
  | .advanceWhile cls => cursor.advanceWhile cls
  | .peekNth _ => cursor

theorem drop_length_take_one (cs : List Char) :
    cs.drop (cs.take 1).length = cs.drop 1 := by
  cases cs <;> rfl

/-- One step moves one character from what is left to what is passed. -/
theorem advance_between (before after : List Char) :
    advance (between before after) =
      .ok (after.head?, between (before ++ after.take 1) (after.drop 1)) := by
  cases after with
  | nil => rw [advance_nil, List.take_nil, List.append_nil]; rfl
  | cons c after => exact advance_cons before after c

/-- Every operation moves the characters that it passes. -/
theorem move_between
    (next : Move)
    (before after : List Char) :
    move next (between before after) =
      .ok ((), between (before ++ next.passes after) (after.drop (next.passes after).length)) := by
  cases next with
  | advance =>
      rw [move, bind_ok (advance_between before after), Move.passes, drop_length_take_one]
      rfl
  | eat expected =>
      rw [move, Move.passes]
      split_ifs with hhead
      · obtain ⟨after, rfl⟩ := List.head?_eq_some_iff.mp hhead
        exact bind_ok (eat_cons before after expected)
      · rw [bind_ok (eat_of_ne before after hhead), List.append_nil]
        rfl
  | advanceWhile cls =>
      rw [Move.passes, drop_length_takeWhile]
      exact advanceWhile_between cls before after
  | peekNth n =>
      rw [move, bind_ok (peekNth_between before after n), Move.passes, List.append_nil]
      rfl

theorem passes_atFront
    (next : Move)
    (cs : List Char) :
    next.passes cs <+: cs := by
  cases next with
  | advance => exact List.take_prefix 1 cs
  | eat expected =>
      rw [Move.passes]
      split_ifs
      · exact List.take_prefix 1 cs
      · exact List.nil_prefix
  | advanceWhile cls => exact List.takeWhile_prefix cls
  | peekNth n => exact List.nil_prefix

/-- An operation on a cursor moves its position behind the characters that it passes. -/
theorem apply_between
    (next : Move)
    (before after : List Char) :
    next.apply (cursorBetween before after) =
      cursorBetween (before ++ next.passes after) (after.drop (next.passes after).length) := by
  have hone : (cursorBetween before after).advance =
      cursorBetween (before ++ after.take 1) (after.drop (after.take 1).length) := by
    rw [drop_length_take_one]
    exact advanceBy_between before after 1
  cases next with
  | advance => exact hone
  | eat expected =>
      change ((if after.head? = some expected then some (cursorBetween before after).advance
        else none).getD (cursorBetween before after)) = _
      rw [Move.passes]
      split_ifs
      · exact hone
      · rw [List.append_nil]
        rfl
  | advanceWhile cls =>
      rw [Move.passes, drop_length_takeWhile]
      exact advanceWhile_cursorBetween before after cls
  | peekNth n =>
      rw [Move.passes, List.append_nil]
      rfl

/-- However it is moved, a scanner stays between two parts of its source, and so does a cursor. -/
theorem moves_between
    (next : List Move)
    (before after : List Char) :
    ∃ rest, after = passed next after ++ rest ∧
      moves next (between before after) = .ok ((), between (before ++ passed next after) rest) ∧
      next.foldl Move.apply (cursorBetween before after) =
        cursorBetween (before ++ passed next after) rest := by
  induction next generalizing before after with
  | nil =>
      rw [passed, List.append_nil]
      exact ⟨after, rfl, rfl, rfl⟩
  | cons first more ih =>
      obtain ⟨behind, hbehind⟩ := passes_atFront first after
      have hmove := move_between first before after
      have happly := apply_between first before after
      have hdrop : after.drop (first.passes after).length = behind :=
        (congrArg _ hbehind.symm).trans List.drop_left
      obtain ⟨rest, hrest, hmoves, hcursor⟩ := ih (before ++ first.passes after) behind
      rw [hdrop] at hmove happly
      rw [passed, hdrop]
      refine ⟨rest, ?_, ?_, ?_⟩
      · rw [List.append_assoc, ← hrest, hbehind]
      · rw [moves, bind_ok hmove, hmoves, List.append_assoc]
      · rw [List.foldl_cons, happly, hcursor, List.append_assoc]

/-! ## Tokens -/

/-- How the part of a source behind `before` is cut into tokens, up to its end or an error. -/
inductive Reading : List Char → List Char → Except ParseError (List Token) → Prop
  | eof (before gap : List Char) :
      Reading before gap (.ok [Token.eof (Position.afterAll {} (before ++ gap))])
  | fault (before gap extent rest : List Char) (cause : ParseError.Cause) :
      Reading before (gap ++ (extent ++ rest)) (.error ⟨cause, Position.afterAll {} (before ++ gap),
        Position.afterAll {} (before ++ gap ++ extent)⟩)
  | token {before gap rest cs : List Char} {first : Char} {lexeme : Lexeme}
      {result : Except ParseError (List Token)}
      (hread : Lexeme.read first cs = .ok lexeme)
      (hcs : first :: cs = lexeme.spelling ++ rest)
      (hrest : Reading (before ++ gap ++ lexeme.spelling) rest result) :
      Reading before (gap ++ first :: cs)
        (result.map fun tokens => tokenOf (before ++ gap) lexeme :: tokens)

/-- Wherever a cursor stands, what is left is cut into tokens, up to its end or to an error. -/
theorem reading (before after : List Char) :
    Reading before after (cursorBetween before after).tokens := by
  induction hlength : after.length using Nat.strongRecOn generalizing before after with
  | _ length ih =>
      have hgap := Lexeme.gap_append after
      rw [tokens_between]
      generalize Lexeme.gap after = gap at *
      generalize after.drop gap.length = behind at *
      subst hgap
      cases behind with
      | nil =>
          rw [List.append_nil]
          exact .eof before gap
      | cons first cs =>
          cases hread : Lexeme.read first cs with
          | error fault =>
              have hsplit := List.take_append_drop fault.2.length (first :: cs)
              have hfault := Reading.fault before gap ((first :: cs).take fault.2.length)
                ((first :: cs).drop fault.2.length) fault.1
              rw [hsplit] at hfault
              simpa only [hread] using hfault
          | ok lexeme =>
              obtain ⟨rest, hrest⟩ := (Lexeme.read_fits hread).atFront
              have hspelling := List.length_pos_iff.mpr lexeme.spelling_ne_nil
              have hdrop : (first :: cs).drop lexeme.spelling.length = rest := by
                rw [← hrest, List.drop_left]
              simp only [hread, hdrop]
              refine .token hread hrest.symm (ih rest.length ?_ _ rest rfl)
              rw [← hlength, ← hrest, List.length_append, List.length_append]
              omega

/-- A source is read from its beginning or from behind a first line that is skipped. -/
theorem reading_tokenize (source : String) :
    ∃ before after, source.toList = before ++ after ∧ Reading before after (tokenize source) := by
  obtain ⟨before, after, hsource, hcursor, -⟩ := skipShebang_between [] source.toList
  have htokenize : tokenize source = (cursorBetween before after).tokens :=
    congrArg Cursor.tokens hcursor
  exact ⟨before, after, hsource, htokenize ▸ reading before after⟩

/-- A token that is not the end of the source is read somewhere in it. -/
theorem Reading.token_cases
    {before after : List Char}
    {result : Except ParseError (List Token)}
    (h : Reading before after result)
    {tokens : List Token}
    (htokens : result = .ok tokens)
    {token : Token}
    (htoken : token ∈ tokens) :
    token = Token.eof (Position.afterAll {} (before ++ after)) ∨
      ∃ front first cs lexeme, before ++ after = front ++ first :: cs ∧
        Lexeme.read first cs = .ok lexeme ∧ token = tokenOf front lexeme := by
  induction h generalizing tokens with
  | eof before gap =>
      obtain rfl := Except.ok.inj htokens
      exact .inl (List.mem_singleton.mp htoken)
  | fault => cases htokens
  | @token before gap rest cs first lexeme result hread hcs _ ih =>
      obtain ⟨more, rfl, rfl⟩ : ∃ more, result = .ok more ∧
          tokenOf (before ++ gap) lexeme :: more = tokens := by
        cases result with
        | error error => cases htokens
        | ok more => exact ⟨more, rfl, Except.ok.inj htokens⟩
      rcases List.mem_cons.mp htoken with rfl | hmore
      · exact .inr ⟨before ++ gap, first, cs, lexeme, (List.append_assoc _ _ _).symm, hread, rfl⟩
      · have hsource : before ++ (gap ++ first :: cs) =
            before ++ gap ++ lexeme.spelling ++ rest := by
          rw [hcs]
          simp only [List.append_assoc]
        rw [hsource]
        exact ih rfl hmore

/-- An error concerns a part of the source. -/
theorem Reading.error_cases
    {before after : List Char}
    {result : Except ParseError (List Token)}
    (h : Reading before after result)
    {error : ParseError}
    (herror : result = .error error) :
    ∃ front extent rest, before ++ after = front ++ (extent ++ rest) ∧
      error.span = ⟨Position.afterAll {} front, Position.afterAll {} (front ++ extent)⟩ := by
  induction h with
  | eof => cases herror
  | fault before gap extent rest cause =>
      obtain rfl := Except.error.inj herror
      exact ⟨before ++ gap, extent, rest, (List.append_assoc _ _ _).symm, rfl⟩
  | @token before gap rest cs first lexeme result hread hcs _ ih =>
      have hresult : result = .error error := by
        cases result with
        | error other => exact congrArg _ (Except.error.inj herror)
        | ok more => cases herror
      have hsource : before ++ (gap ++ first :: cs) =
          before ++ gap ++ lexeme.spelling ++ rest := by
        rw [hcs]
        simp only [List.append_assoc]
      rw [hsource]
      exact ih hresult

end Scan

/-- Every token of a source has an exact span. -/
theorem span_isExact_of_tokenize
    {source : String}
    {tokens : List Token}
    (h : tokenize source = .ok tokens)
    {token : Token}
    (htoken : token ∈ tokens) :
    token.span.IsExact source := by
  obtain ⟨before, after, hsource, hreading⟩ := Scan.reading_tokenize source
  rcases hreading.token_cases h htoken with rfl | ⟨front, first, cs, lexeme, hsplit, hread, rfl⟩
  · have hexact := @Span.isExact_afterAll source (before ++ after) [] []
    rw [List.append_nil, List.append_nil] at hexact
    exact hexact hsource
  · obtain ⟨rest, hrest⟩ := (Lexeme.read_fits hread).atFront
    have hparts : source.toList = front ++ (lexeme.spelling ++ rest) := by
      rw [hrest, ← hsplit, hsource]
    exact Span.isExact_afterAll hparts

/-- An error of the lexer concerns a part of the source, and one of the parser a token. -/
theorem span_isExact_of_parse
    {source : String}
    {limit : Nat}
    {error : ParseError}
    (h : parse source limit = .error error) :
    error.span.IsExact source := by
  unfold parse at h
  cases htokens : tokenize source with
  | error other =>
      rw [htokens] at h
      obtain rfl : other = error := Except.error.inj h
      obtain ⟨before, after, hsource, hreading⟩ := Scan.reading_tokenize source
      obtain ⟨front, extent, rest, hsplit, hspan⟩ := hreading.error_cases htokens
      rw [hspan]
      exact Span.isExact_afterAll (hsource.trans hsplit)
  | ok tokens =>
      rw [htokens] at h
      obtain ⟨words, pos, rfl, -⟩ := tokenize_ends htokens
      have hparse : (Session.ofTokens (words ++ [Token.eof pos]) limit).parse.1 = .error error := h
      rw [Session.ofTokens_closed, Session.parse] at hparse
      have hmeets :=
        Grammar.meets_chunk limit (words ++ [Token.eof pos]) (List.suffix_refl _) trivial
      cases hchunk : Grammar.chunk limit (words ++ [Token.eof pos]) with
      | ok result rest =>
          simp only [hchunk] at hparse
          cases hparse
      | fail other rest =>
          simp only [hchunk] at hparse hmeets
          obtain rfl : other = error := Except.error.inj hparse
          obtain ⟨_, token, hamong, hspan, -⟩ := hmeets
          rw [hspan]
          rcases hamong with hmem | rfl
          · exact span_isExact_of_tokenize htokens hmem
          · have hexact := @Span.isExact_afterAll source [] [] source.toList
            exact hexact rfl

/-- Positions are exact, and no slice of a source is taken anywhere else. -/
theorem positions_exact
    (source : String)
    (limit : Nat) :
    (∀ moves : List Scan.Move, ∃ pos rest,
      Scan.moves moves ⟨source.toList, {}⟩ = .ok ((), ⟨source.toList, pos⟩) ∧
      moves.foldl Scan.Move.apply (Cursor.ofText source) = ⟨pos, rest⟩ ∧
      source.toList = Scan.passed moves source.toList ++ rest ∧
      pos.IsBehind source (Scan.passed moves source.toList)) ∧
    scan source = .ok (tokenize source) ∧
    (∀ tokens, tokenize source = .ok tokens → ∀ token ∈ tokens, token.span.IsExact source) ∧
    (∀ error, parse source limit = .error error → error.span.IsExact source) := by
  refine ⟨fun moves => ?_, scan_eq_tokenize source, fun tokens htokens token htoken => ?_,
    fun error herror => span_isExact_of_parse herror⟩
  · obtain ⟨rest, hsource, hmoves, hcursor⟩ := Scan.moves_between moves [] source.toList
    refine ⟨Position.afterAll {} (Scan.passed moves source.toList), rest, ?_, hcursor, hsource,
      Position.isBehind_afterAll hsource⟩
    have hbetween : Scanner.between (Scan.passed moves source.toList) rest =
        ⟨source.toList, Position.afterAll {} (Scan.passed moves source.toList)⟩ := by
      rw [Scanner.between, ← hsource]
    rw [← hbetween]
    exact hmoves
  · exact span_isExact_of_tokenize htokens htoken

/-- The name in the second line stands behind an accent in the first one. -/
theorem positions_exact_accent :
    tokenize "--é\n x" = .ok [⟨.name, "x", ⟨6, 1, 1⟩, ⟨7, 1, 2⟩⟩, Token.eof ⟨7, 1, 2⟩] ∧
      Span.IsExact ⟨⟨6, 1, 1⟩, ⟨7, 1, 2⟩⟩ "--é\n x" ∧
      ∃ cause, parse "--é\n x" 1 = .error ⟨cause, ⟨7, 1, 2⟩, ⟨7, 1, 2⟩⟩ ∧
        Span.IsExact ⟨⟨7, 1, 2⟩, ⟨7, 1, 2⟩⟩ "--é\n x" := by
  have htokens : tokenize "--é\n x" =
      .ok [⟨.name, "x", ⟨6, 1, 1⟩, ⟨7, 1, 2⟩⟩, Token.eof ⟨7, 1, 2⟩] := by decide +kernel
  have hsession : (Session.mk
      [⟨.name, "x", ⟨6, 1, 1⟩, ⟨7, 1, 2⟩⟩, Token.eof ⟨7, 1, 2⟩] 1).parse.1 =
        .error ⟨.unexpectedEnd "'='", ⟨7, 1, 2⟩, ⟨7, 1, 2⟩⟩ := by cbv
  have hparse : parse "--é\n x" 1 = .error ⟨.unexpectedEnd "'='", ⟨7, 1, 2⟩, ⟨7, 1, 2⟩⟩ := by
    rw [parse, htokens]
    exact hsession
  obtain ⟨-, -, hspans, herrors⟩ := positions_exact "--é\n x" 1
  exact ⟨htokens, hspans _ htokens _ List.mem_cons_self, _, hparse, herrors _ hparse⟩

end LuaView
