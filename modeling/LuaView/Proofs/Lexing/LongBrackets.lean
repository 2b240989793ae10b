import LuaView.Proofs.Lexing.LineBreaks
import LuaView.Proofs.Lexing.Literals
import LuaView.Proofs.Lexing.Positions

/-!
# Long brackets that close at their end

The search for the level of a long bracket has no bound of its own.  It ends because a closing
bracket that occurs in a content, or across its end, is at most one character longer than the
content: one of the levels up to the length of the content is free.  The level that is found is the
least free one, since the search leaves out none.

In a content between brackets of a free level the closing bracket stands at the end and nowhere
else: it does not begin in the opening bracket, which has no `]`, nor in the content, where it would
have to overlap the bracket behind it, nor in this bracket itself, which is too short.  So the lexer
reads the whole text as one token.
-/

namespace LuaView
namespace LongBracket

/-! ## The search -/

/-- The search that starts at a level ends at another one.  It goes up one level after the other,
and nothing ends it but a level whose closing bracket does not occur in the content or across its
end. -/
inductive SearchEnds (content : List Char) : Nat → Nat → Prop
  | found
      {level : Nat}
      (hfree : closesWithin content level = false) :
      SearchEnds content level level
  | next
      {level last : Nat}
      (htaken : closesWithin content level = true)
      (hnext : SearchEnds content (level + 1) last) :
      SearchEnds content level last

theorem before?_isSome_iff {mark cs : List Char} :
    (before? mark cs).isSome = true ↔ mark <:+: cs := by
  induction cs with
  | nil => cases mark <;> simp [before?]
  | cons c cs ih =>
      rw [List.infix_cons_iff, ← ih, ← List.isPrefixOf_iff_prefix, before?]
      cases mark.isPrefixOf (c :: cs) <;> simp

theorem closesWithin_iff
    {content : List Char}
    {level : Nat} :
    closesWithin content level = true ↔ closing level <:+: content ++ [']'] :=
  before?_isSome_iff

/-- What bounds the search: a closing bracket does not fit into a content that is as short as its
level. -/
theorem lt_length_of_closesWithin
    {content : List Char}
    {level : Nat}
    (h : closesWithin content level = true) :
    level < content.length := by
  have hfits := (closesWithin_iff.mp h).length_le
  rw [length_closing, List.length_append, List.length_singleton] at hfits
  omega

theorem closesWithin_of_lt_levelFor
    {content : List Char}
    {level : Nat}
    (h : level < levelFor content) :
    closesWithin content level = true := by
  unfold levelFor at h
  cases hfind : (List.range content.length).find? fun level => !closesWithin content level with
  | some found =>
      rw [hfind, Option.getD_some] at h
      have hbefore := (List.find?_range_eq_some.mp hfind).2.2 level h
      simpa using hbefore
  | none =>
      rw [hfind, Option.getD_none] at h
      have hnone := List.find?_eq_none.mp hfind level (List.mem_range.mpr h)
      simpa using hnone

theorem levelFor_le_length (content : List Char) :
    levelFor content ≤ content.length := by
  by_contra hlong
  have hcloses := closesWithin_of_lt_levelFor (Nat.lt_of_not_le hlong)
  exact absurd (lt_length_of_closesWithin hcloses) (Nat.lt_irrefl _)

/-- The search comes to the level from every level below it: each one in between is taken, so that
the next is tried. -/
theorem searchEnds_levelFor
    {content : List Char}
    {level : Nat}
    (h : level ≤ levelFor content) :
    SearchEnds content level (levelFor content) := by
  obtain ⟨ahead, hahead⟩ := Nat.exists_eq_add_of_le h
  induction ahead generalizing level with
  | zero =>
      obtain rfl : level = levelFor content := hahead.symm
      exact .found (closesWithin_levelFor content)
  | succ ahead ih =>
      exact .next (closesWithin_of_lt_levelFor (by omega)) (ih (by omega) (by omega))

/-- Where the search ends is free, and every level that it has passed is taken. -/
theorem SearchEnds.least
    {content : List Char}
    {level last : Nat}
    (h : SearchEnds content level last) :
    closesWithin content last = false ∧
      ∀ passed, level ≤ passed → passed < last → closesWithin content passed = true := by
  induction h with
  | found hfree => exact ⟨hfree, fun passed hle hlt => absurd hle (Nat.not_le_of_lt hlt)⟩
  | @next level last htaken _ ih =>
      refine ⟨ih.1, fun passed hle hlt => ?_⟩
      rcases Nat.eq_or_lt_of_le hle with rfl | hlevel
      · exact htaken
      · exact ih.2 passed hlevel hlt

theorem searchEnds_iff
    {content : List Char}
    {last : Nat} :
    SearchEnds content 0 last ↔ last = levelFor content := by
  constructor
  · intro h
    obtain ⟨hfree, hpassed⟩ := h.least
    rcases Nat.lt_trichotomy last (levelFor content) with hlt | heq | hgt
    · rw [closesWithin_of_lt_levelFor hlt] at hfree
      cases hfree
    · exact heq
    · have htaken := hpassed _ (Nat.zero_le _) hgt
      rw [closesWithin_levelFor] at htaken
      cases htaken
  · rintro rfl
    exact searchEnds_levelFor (Nat.zero_le _)

/-! ## The closing bracket -/

section Closing

variable {content : List Char} {level : Nat}

/-- Behind the opening bracket: a closing bracket that begins in the content would occur in it or
across its end, and one that begins behind the content takes all that is left. -/
theorem behind_eq_nil_of_content
    (hfree : closesWithin content level = false)
    {front behind : List Char}
    (h : content ++ closing level = front ++ (closing level ++ behind)) :
    behind = [] := by
  have hatEnd : ∀ more, closing level = more ++ (closing level ++ behind) → behind = [] := by
    intro more hmore
    have hlength := congrArg List.length hmore
    simp only [List.length_append] at hlength
    exact List.length_eq_zero_iff.mp (by omega)
  rcases List.append_eq_append_iff.mp h with ⟨more, -, hmore⟩ | ⟨rest, rfl, hrest⟩
  · exact hatEnd more hmore
  · by_cases hnil : rest = []
    · subst hnil
      exact hatEnd [] hrest.symm
    · exfalso
      have hprefix : closing level <+: rest ++ closing level ++ [] :=
        ⟨behind, by rw [List.append_nil, hrest]⟩
      have hoverlap := (closing_prefix_of_overlap hnil hprefix).isInfix
      have hinfix : closing level <:+: front ++ rest ++ [']'] := by
        rw [List.append_assoc]
        exact hoverlap.trans (List.suffix_append front _).isInfix
      rw [closesWithin_iff.mpr hinfix] at hfree
      cases hfree

/-- The closing bracket occurs at the end and nowhere else. -/
theorem behind_eq_nil_of_brackets
    (hfree : closesWithin content level = false)
    {before behind : List Char}
    (h : opening level ++ content ++ closing level = before ++ closing level ++ behind) :
    behind = [] := by
  simp only [List.append_assoc] at h
  rcases List.append_eq_append_iff.mp h with ⟨front, -, hfront⟩ | ⟨back, hopening, hback⟩
  · exact behind_eq_nil_of_content hfree hfront
  · cases back with
    | nil =>
        have hfront : content ++ closing level = [] ++ (closing level ++ behind) := hback.symm
        exact behind_eq_nil_of_content hfree hfront
    | cons c back =>
        -- the opening bracket has no character that a closing one begins with
        obtain rfl : ']' = c := (List.cons.inj hback).1
        have hmem : ']' ∈ opening level := by
          rw [hopening]
          simp
        simp [opening] at hmem

end Closing
end LongBracket

/-! ## The token -/

/-- A text that is one lexeme has one token, which stands between its ends. -/
theorem Cursor.tokens_of_whole
    {first : Char}
    {cs : List Char}
    {lexeme : Lexeme}
    (hgap : Lexeme.gap (first :: cs) = [])
    (hread : Lexeme.read first cs = .ok lexeme)
    (hspelling : lexeme.spelling = first :: cs)
    (pos : Position) :
    tokens ⟨pos, first :: cs⟩ = .ok [⟨lexeme.kind, String.ofList lexeme.text,
      pos, pos.afterAll (first :: cs)⟩, Token.eof (pos.afterAll (first :: cs))] := by
  have hskip : skipGap ⟨pos, first :: cs⟩ = ⟨pos, first :: cs⟩ := by
    rw [skipGap, hgap]
    rfl
  have hnext : advanceBy lexeme.spelling.length ⟨pos, first :: cs⟩ =
      ⟨pos.afterAll (first :: cs), []⟩ := by
    have hpos := pos_advanceBy lexeme.spelling.length ⟨pos, first :: cs⟩
    have hrest := rest_advanceBy lexeme.spelling.length ⟨pos, first :: cs⟩
    rw [hspelling, List.take_length] at hpos
    rw [hspelling, List.drop_length] at hrest
    rw [hspelling]
    exact congrArg₂ Cursor.mk hpos hrest
  have hend : tokens ⟨pos.afterAll (first :: cs), []⟩ =
      .ok [Token.eof (pos.afterAll (first :: cs))] := by
    have hstill : skipGap ⟨pos.afterAll (first :: cs), []⟩ = ⟨pos.afterAll (first :: cs), []⟩ := by
      rw [skipGap, Lexeme.gap_nil]
      rfl
    rw [tokens_of_skipGap_nil (by rw [hstill]), hstill]
  rw [tokens_of_lexeme (by rw [hskip]) hread, hskip, hnext, hend]
  rfl

/-- A text in long brackets is one token, from the first character to the last. -/
theorem tokenize_quote_long (text : String) :
    ∃ token, tokenize (Delimiter.long.quote text) = .ok [token, Token.eof token.span.stop] ∧
      token.kind = .string .long ∧
      text.toList = LongBracket.leadingBreak text.toList ++ token.text.toList ∧
      token.span.start = {} ∧
      token.span.stop.IsBehind (Delimiter.long.quote text) (Delimiter.long.quote text).toList := by
  obtain ⟨first, cs, lexeme, hfront, hread, hkind, htext, hspelling⟩ :=
    Lexeme.read_long text.toList []
  have hgap := Lexeme.gap_long text.toList []
  rw [List.append_nil] at hfront hgap
  have hquote : (Delimiter.long.quote text).toList = first :: cs := by
    rw [Delimiter.quote, String.toList_ofList, hfront]
  have hshebang : (Cursor.ofText (Delimiter.long.quote text)).skipShebang = ⟨{}, first :: cs⟩ := by
    rw [Cursor.ofText, hquote]
    refine Cursor.skipShebang_of_not fun rest hrest => ?_
    have hhead := Delimiter.head_quote .long text
    rw [hquote, hrest] at hhead
    exact hhead rfl
  have htokens := Cursor.tokens_of_whole (hfront ▸ hgap) hread (hspelling.trans hfront) {}
  refine ⟨⟨lexeme.kind, String.ofList lexeme.text, {}, Position.afterAll {} (first :: cs)⟩, ?_,
    hkind, ?_, rfl, ?_⟩
  · rw [tokenize, hshebang]
    exact htokens
  · rw [String.toList_ofList, htext]
    exact (LongBracket.leadingBreak_append_drop text.toList).symm
  · have hsource : (Delimiter.long.quote text).toList = first :: cs ++ [] := by
      rw [hquote, List.append_nil]
    rw [hquote]
    exact Position.isBehind_afterAll hsource

/-- The search for the level of a long bracket ends, at the least level whose closing bracket does
not occur in the text or across its end, and no further than at the length of the text.  In the
brackets of this level the text is one token, which is closed at its end and nowhere before. -/
theorem quote_long_closes_at_end (text : String) :
    ∃ level, (∀ last, LongBracket.SearchEnds text.toList 0 last ↔ last = level) ∧
      level ≤ text.length ∧
      ¬ LongBracket.closing level <:+: text.toList ++ [']'] ∧
      (∀ lower < level, LongBracket.closing lower <:+: text.toList ++ [']']) ∧
      (Delimiter.long.quote text).toList =
        LongBracket.opening level ++ text.toList ++ LongBracket.closing level ∧
      (∀ before behind, (Delimiter.long.quote text).toList =
        before ++ LongBracket.closing level ++ behind → behind = []) ∧
      ∃ token, tokenize (Delimiter.long.quote text) = .ok [token, Token.eof token.span.stop] ∧
        token.kind = .string .long ∧
        text.toList = LongBracket.leadingBreak text.toList ++ token.text.toList ∧
        token.span.start = {} ∧
        token.span.stop.IsBehind (Delimiter.long.quote text)
          (Delimiter.long.quote text).toList := by
  have hfree := LongBracket.closesWithin_levelFor text.toList
  have hquote : (Delimiter.long.quote text).toList =
      LongBracket.opening (LongBracket.levelFor text.toList) ++ text.toList ++
        LongBracket.closing (LongBracket.levelFor text.toList) := by
    rw [Delimiter.quote, String.toList_ofList, LongBracket.quote]
  refine ⟨LongBracket.levelFor text.toList, fun _ => LongBracket.searchEnds_iff, ?_, ?_, ?_,
    hquote, ?_, tokenize_quote_long text⟩
  · exact LongBracket.levelFor_le_length text.toList
  · rw [← LongBracket.closesWithin_iff, hfree]
    decide
  · intro lower hlower
    exact LongBracket.closesWithin_iff.mp (LongBracket.closesWithin_of_lt_levelFor hlower)
  · intro before behind h
    exact LongBracket.behind_eq_nil_of_brackets hfree (hquote.symm.trans h)

/-- The brackets of level zero occur in the text, and those of level one across its end. -/
example : Delimiter.long.quote "]]a]=" = "[==[]]a]=]==]" := by
  decide +kernel

end LuaView
