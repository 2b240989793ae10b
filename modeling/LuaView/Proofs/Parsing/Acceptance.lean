import LuaView.Proofs.Lexing.Partition
import LuaView.Proofs.Parsing.Soundness

/-!
# Accepted sources

What `parse` says about a whole source.  The tokens of a source end with its only end mark, so a
program that is accepted derives all the other tokens.  An error that a parser reports is placed at
a token; since no token of a source is a numeral without value, the parser never reports one.
-/

namespace LuaView

open Grammar (Derives)

theorem Session.ofTokens_closed
    (words : List Token)
    (pos : Position)
    (limit : Nat) :
    Session.ofTokens (words ++ [Token.eof pos]) limit = ⟨words ++ [Token.eof pos], limit⟩ := by
  simp [Session.ofTokens, Token.isEof, Token.eof]

/-- The tokens of a source, without their end. -/
theorem tokenize_ends
    {source : String}
    {tokens : List Token}
    (h : tokenize source = .ok tokens) :
    ∃ words pos, tokens = words ++ [Token.eof pos] ∧ ∀ token ∈ words, token.kind ≠ .eof := by
  obtain ⟨words, pos, htokens, _, hwords⟩ := (partition_of_tokenize h).ends
  exact ⟨words, pos, htokens, fun token htoken => (hwords token htoken).1⟩

theorem chunk_rest
    {limit : Nat}
    {tokens rest : List Token}
    {program : Chunk}
    (h : Grammar.chunk limit tokens = .ok program rest) :
    (nextToken rest).kind = .eof := by
  change Parser.bind (Descent.block (m := Parser) (Grammar.phrase limit limit)) _ tokens = _ at h
  unfold Parser.bind at h
  split at h
  · rename_i body behind _
    change (if (nextToken behind).kind = .eof then Pure.pure ⟨body⟩
      else Parser.unexpected "end of file") behind = .ok program rest at h
    split at h
    · rename_i heof
      cases h
      exact heof
    · cases h
  · cases h

/-- The tokens in front of the first end mark. -/
def Token.untilEnd (tokens : List Token) : List Token :=
  tokens.takeWhile fun token => !token.isEof

theorem Token.untilEnd_append
    {words rest : List Token}
    (hwords : ∀ token ∈ words, token.kind ≠ .eof)
    (hrest : (nextToken rest).kind = .eof) :
    Token.untilEnd (words ++ rest) = words := by
  have hkept : ∀ token ∈ words, (!token.isEof) = true := fun token htoken => by
    rw [Token.isEof, beq_eq_false_iff_ne.mpr (hwords token htoken)]
    rfl
  have hstop : Token.untilEnd rest = [] := by
    cases rest with
    | nil => rfl
    | cons token rest =>
        have htoken : token.isEof = true := beq_iff_eq.mpr hrest
        simp [Token.untilEnd, htoken]
  rw [Token.untilEnd, List.takeWhile_append_of_pos hkept]
  exact (congrArg (words ++ ·) hstop).trans (List.append_nil words)

/-- A session has a program only if its tokens up to the first end mark are read as it. -/
theorem Session.derives_untilEnd
    {session : Session}
    {program : Chunk}
    (h : session.parse.1 = .ok program) :
    Derives anyStep (.block program.body) (Token.untilEnd session.tokens) := by
  unfold Session.parse at h
  have hmeets := Grammar.meets_chunk session.limit session.tokens (List.suffix_refl _) trivial
  cases hchunk : Grammar.chunk session.limit session.tokens with
  | fail error rest =>
      simp only [hchunk] at h
      cases h
  | ok result rest =>
      simp only [hchunk] at h hmeets
      cases h
      obtain ⟨used, hsplit, hkinds, hused⟩ := hmeets
      rwa [hsplit, Token.untilEnd_append hkinds (chunk_rest hchunk)]

/-- A session that is closed where its words end has a program only if the words are read as it. -/
theorem derives_of_closed
    {words : List Token}
    (hwords : ∀ token ∈ words, token.kind ≠ .eof)
    {pos : Position}
    {limit : Nat}
    {program : Chunk}
    (h : (Session.mk (words ++ [Token.eof pos]) limit).parse.1 = .ok program) :
    Derives anyStep (.block program.body) words := by
  have hderives := Session.derives_untilEnd h
  rwa [Token.untilEnd_append hwords rfl] at hderives

/-- A session on a list of tokens sees no more of them than stands in front of the first end
mark. -/
theorem Session.untilEnd_ofTokens
    (tokens : List Token)
    (limit : Nat) :
    Token.untilEnd (Session.ofTokens tokens limit).tokens = Token.untilEnd tokens := by
  unfold Session.ofTokens
  split
  · rename_i hlast
    obtain rfl := List.getLast?_eq_none_iff.mp hlast
    rfl
  · rename_i last hlast
    split
    · rfl
    · rw [Token.untilEnd, List.takeWhile_append]
      split
      · rename_i hall
        have hkept := (List.takeWhile_prefix fun token : Token => !token.isEof).eq_of_length hall
        rw [Token.untilEnd, hkept]
        exact List.append_nil tokens
      · rfl

/-- An accepted program derives all tokens of its source. -/
theorem derives_of_parse
    {source : String}
    {limit : Nat}
    {program : Chunk}
    (h : parse source limit = .ok program) :
    ∃ words pos, tokenize source = .ok (words ++ [Token.eof pos]) ∧
      Derives anyStep (.block program.body) words := by
  obtain ⟨tokens, htokens, hparse⟩ := Except.bind_eq_ok_iff.mp h
  obtain ⟨words, pos, rfl, hwords⟩ := tokenize_ends htokens
  rw [Session.ofTokens_closed] at hparse
  exact ⟨words, pos, htokens, derives_of_closed hwords hparse⟩

/-- A list of tokens is closed by a session if it does not have an end mark already. -/
theorem Session.ofTokens_open
    {words : List Token}
    (hwords : ∀ token ∈ words, token.kind ≠ .eof)
    (limit : Nat) :
    ∃ pos, Session.ofTokens words limit = ⟨words ++ [Token.eof pos], limit⟩ := by
  unfold Session.ofTokens
  split
  · rename_i hlast
    obtain rfl := List.getLast?_eq_none_iff.mp hlast
    exact ⟨{}, rfl⟩
  · rename_i last hlast
    have heof : last.isEof = false :=
      beq_eq_false_iff_ne.mpr (hwords last (List.mem_of_getLast? hlast))
    exact ⟨last.span.stop, by rw [heof]; rfl⟩

/-- If the parser returns a program for a list of tokens, the grammar derives the tokens from the
program: it accounts for each of them, in their order, and for nothing else. -/
theorem derives_of_session
    {tokens : List Token}
    (htokens : ∀ token ∈ tokens, token.kind ≠ .eof)
    {limit : Nat}
    {program : Chunk}
    (h : (Session.ofTokens tokens limit).parse.1 = .ok program) :
    Derives (fun _ => True) (.block program.body) tokens := by
  obtain ⟨pos, hclosed⟩ := Session.ofTokens_open htokens limit
  rw [hclosed] at h
  exact derives_of_closed htokens h

/-- The tokens of `for i = 0x1, n do (f)"s" end return (a);`. -/
def looseTokens : List Token :=
  [⟨.keyword .for_, "for", {}⟩, ⟨.name, "i", {}⟩, ⟨.symbol .eq, "=", {}⟩, ⟨.number, "0x1", {}⟩,
    ⟨.symbol .comma, ",", {}⟩, ⟨.name, "n", {}⟩, ⟨.keyword .do_, "do", {}⟩,
    ⟨.symbol .lparen, "(", {}⟩, ⟨.name, "f", {}⟩, ⟨.symbol .rparen, ")", {}⟩,
    ⟨.string .double, "s", {}⟩, ⟨.keyword .end_, "end", {}⟩, ⟨.keyword .return_, "return", {}⟩,
    ⟨.symbol .lparen, "(", {}⟩, ⟨.name, "a", {}⟩, ⟨.symbol .rparen, ")", {}⟩,
    ⟨.symbol .semicolon, ";", {}⟩]

theorem derives_of_session_looseTokens :
    (∀ token ∈ looseTokens, token.kind ≠ .eof) ∧
      ∃ program, (Session.ofTokens looseTokens 3).parse.1 = .ok program ∧
        program.body.length = 2 ∧ Derives (fun _ => True) (.block program.body) looseTokens := by
  have hkinds : ∀ token ∈ looseTokens, token.kind ≠ .eof := by decide
  have hlength : (Session.ofTokens looseTokens 3).parse.1.map (fun program => program.body.length) =
      .ok 2 := by decide +kernel
  cases hparse : (Session.ofTokens looseTokens 3).parse.1 with
  | error error =>
      rw [hparse] at hlength
      cases hlength
  | ok program =>
      rw [hparse] at hlength
      exact ⟨hkinds, program, rfl, Except.ok.inj hlength, derives_of_session hkinds hparse⟩

theorem parse_ne_malformedNumber
    {source : String}
    {tokens : List Token}
    (h : tokenize source = .ok tokens)
    (limit : Nat)
    (text : String)
    (span : Span) :
    parse source limit ≠ .error ⟨.malformedNumber text, span⟩ := by
  intro hparse
  have hparse' : (Session.ofTokens tokens limit).parse.1 =
      .error ⟨.malformedNumber text, span⟩ := by
    rw [← hparse, parse, h]
    rfl
  obtain ⟨words, pos, rfl, hwords⟩ := tokenize_ends h
  rw [Session.ofTokens_closed] at hparse'
  unfold Session.parse at hparse'
  have hmeets := Grammar.meets_chunk limit (words ++ [Token.eof pos]) (List.suffix_refl _) trivial
  cases hchunk : Grammar.chunk limit (words ++ [Token.eof pos]) with
  | ok result rest =>
      simp only [hchunk] at hparse'
      cases hparse'
  | fail error rest =>
      simp only [hchunk] at hparse' hmeets
      cases hparse'
      obtain ⟨_, token, hamong, _, hnumber⟩ := hmeets
      obtain ⟨hkind, rfl, hnone⟩ := hnumber text rfl
      rcases hamong with hmem | rfl
      · have hspelled := (partition_of_tokenize h).spelled token hmem
        rw [hkind] at hspelled
        obtain ⟨hsome, hslice⟩ := hspelled
        rw [hslice, hnone] at hsome
        cases hsome
      · cases hkind

/-- The tokens of a source partition it, and none of them makes the parser doubt a numeral. -/
theorem tokenize_partitions
    {source : String}
    {tokens : List Token}
    (h : tokenize source = .ok tokens) :
    Partition source tokens ∧
      ∀ limit text span, parse source limit ≠ .error ⟨.malformedNumber text, span⟩ :=
  ⟨partition_of_tokenize h, parse_ne_malformedNumber h⟩

theorem tokenize_partitions_long_string :
    Partition "#!lua\nx = [==[\n]]]==] -- é\n"
        [⟨.name, "x", ⟨6, 1, 0⟩, ⟨7, 1, 1⟩⟩, ⟨.symbol .eq, "=", ⟨8, 1, 2⟩, ⟨9, 1, 3⟩⟩,
          ⟨.string .long, "]]", ⟨10, 1, 4⟩, ⟨21, 2, 6⟩⟩, ⟨.eof, "", ⟨28, 3, 0⟩, ⟨28, 3, 0⟩⟩] ∧
      ∀ limit text span, parse "#!lua\nx = [==[\n]]]==] -- é\n" limit ≠
        .error ⟨.malformedNumber text, span⟩ :=
  tokenize_partitions (by decide +kernel)

end LuaView
