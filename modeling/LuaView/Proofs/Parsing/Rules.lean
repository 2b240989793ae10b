import LuaView.Grammar.Session

/-!
# Rules for parsers

What a parser does is stated as a contract: on tokens whose next kind is in `front`, it either
consumes a run of tokens that is in `post` together with its result, and in which the end of the
source does not occur, or it fails with an error that
is placed at one of the tokens.  The rules below give a contract to every combinator, so that a
contract of a phrase is put together along its definition.

All tokens that are left are an end of the list `whole`.  An error may be placed at a token that is
consumed already, therefore it is related to `whole` and not to what is left.
-/

namespace LuaView

/-- The token is one of those given, or the end that stands behind an exhausted list. -/
def Token.Among (whole : List Token) (token : Token) : Prop :=
  token ∈ whole ∨ token = Token.eof {}

/-- The error is placed at a token, and complains of a numeral only if it is one without value. -/
def ParseError.Blames (error : ParseError) (whole : List Token) : Prop :=
  ∃ token : Token,
    token.Among whole ∧ error.span = token.span ∧
      ∀ text, error.cause = .malformedNumber text →
        token.kind = .number ∧ token.text = text ∧ Number.ofNumeral? text.toList = none

/-- The next token of a part of the source is one of the source. -/
theorem nextToken_among
    {whole tokens : List Token}
    (htokens : tokens <:+ whole) :
    (nextToken tokens).Among whole := by
  cases tokens with
  | nil => exact .inr rfl
  | cons token rest => exact .inl (htokens.mem List.mem_cons_self)

/-- An outcome on the given tokens is as agreed. -/
def Outcome.Meets
    {α : Type}
    (whole tokens : List Token)
    (post : List Token → α → Prop) :
    Outcome α → Prop
  | .ok value rest =>
      ∃ used, tokens = used ++ rest ∧ (∀ token ∈ used, token.kind ≠ .eof) ∧ post used value
  | .fail error rest => rest <:+ tokens ∧ error.Blames whole

namespace Parser

/-- Any kind at all. -/
def anyKind : Kind → Prop := fun _ => True

/-- A contract of a parser. -/
def Meets
    {α : Type}
    (whole : List Token)
    (front : Kind → Prop)
    (parser : Parser α)
    (post : List Token → α → Prop) : Prop :=
  ∀ tokens, tokens <:+ whole → front (nextToken tokens).kind →
    (parser tokens).Meets whole tokens post

section Rules

variable {α β : Type}
variable {whole : List Token}
variable {front : Kind → Prop}

namespace Meets

theorem weaken
    {parser : Parser α}
    {post : List Token → α → Prop}
    (h : parser.Meets whole anyKind post) :
    parser.Meets whole front post :=
  fun tokens htokens _ => h tokens htokens trivial

/-- A contract may promise less. -/
theorem mono
    {parser : Parser α}
    {mid post : List Token → α → Prop}
    (h : parser.Meets whole front mid)
    (himp : ∀ used value, mid used value → post used value) :
    parser.Meets whole front post := by
  intro tokens htokens hfront
  have hmid := h tokens htokens hfront
  cases hparser : parser tokens with
  | fail error rest =>
      rw [hparser] at hmid
      exact hmid
  | ok value rest =>
      rw [hparser] at hmid
      obtain ⟨used, htokens, hwords, hused⟩ := hmid
      exact ⟨used, htokens, hwords, himp used value hused⟩

/-- A value without tokens meets what holds of no tokens. -/
theorem pure
    {value : α}
    {post : List Token → α → Prop}
    (h : post [] value) :
    Meets whole front (Pure.pure value) post :=
  fun _ _ _ => ⟨[], rfl, nofun, h⟩

/-- The tokens of two parsers in a row are those of the first one and those of the second one. -/
theorem bind
    {parser : Parser α}
    {next : α → Parser β}
    {mid : List Token → α → Prop}
    {post : List Token → β → Prop}
    (hparser : parser.Meets whole front mid)
    (hnext : ∀ used value, mid used value →
      (next value).Meets whole anyKind fun more result => post (used ++ more) result) :
    (parser >>= next).Meets whole front post := by
  intro tokens htokens hfront
  have hmid := hparser tokens htokens hfront
  change Outcome.Meets whole tokens post (Parser.bind parser next tokens)
  unfold Parser.bind
  cases h : parser tokens with
  | fail error rest =>
      rw [h] at hmid
      exact hmid
  | ok value rest =>
      rw [h] at hmid
      obtain ⟨used, rfl, hwords, hused⟩ := hmid
      have hrest : rest <:+ used ++ rest := List.suffix_append used rest
      have hpost := hnext used value hused rest (hrest.trans htokens) trivial
      simp only
      cases h' : next value rest with
      | fail error last =>
          rw [h'] at hpost
          exact ⟨hpost.1.trans hrest, hpost.2⟩
      | ok result last =>
          rw [h'] at hpost
          obtain ⟨more, rfl, hwords', hmore⟩ := hpost
          refine ⟨used ++ more, (List.append_assoc used more last).symm, ?_, hmore⟩
          exact List.forall_mem_append.mpr ⟨hwords, hwords'⟩

theorem pure_bind
    {value : α}
    {next : α → Parser β}
    {post : List Token → β → Prop}
    (h : (next value).Meets whole front post) :
    (Pure.pure value >>= next).Meets whole front post :=
  h

/-- The last step of a phrase only shapes its result. -/
theorem map
    {parser : Parser α}
    {shape : α → β}
    {mid : List Token → α → Prop}
    {post : List Token → β → Prop}
    (hparser : parser.Meets whole front mid)
    (himp : ∀ used value, mid used value → post used (shape value)) :
    Meets whole front (parser >>= fun value => Pure.pure (shape value)) post := by
  refine bind hparser fun used value hused => pure ?_
  rw [List.append_nil]
  exact himp used value hused

theorem ite
    {condition : Prop}
    [Decidable condition]
    {first second : Parser α}
    {post : List Token → α → Prop}
    (hfirst : condition → first.Meets whole front post)
    (hsecond : ¬ condition → second.Meets whole front post) :
    Meets whole front (if condition then first else second) post := by
  split
  · exact hfirst ‹_›
  · exact hsecond ‹_›

end Meets

/-! ## Two steps -/

/-- A sequence that succeeds consists of two parsers that succeed. -/
theorem bind_eq_ok
    {parser : Parser α}
    {next : α → Parser β}
    {tokens rest : List Token}
    {result : β}
    (h : (parser >>= next) tokens = .ok result rest) :
    ∃ value between, parser tokens = .ok value between ∧ next value between = .ok result rest := by
  change Parser.bind parser next tokens = _ at h
  unfold Parser.bind at h
  cases hparser : parser tokens with
  | ok value between =>
      rw [hparser] at h
      exact ⟨value, between, rfl, h⟩
  | fail error between =>
      rw [hparser] at h
      cases h

theorem bind_of_ok
    {parser : Parser α}
    {tokens between : List Token}
    {value : α}
    (h : parser tokens = .ok value between)
    (next : α → Parser β) :
    (parser >>= next) tokens = next value between := by
  change Parser.bind parser next tokens = _
  rw [Parser.bind, h]

/-! ## Looking at tokens -/

theorem meets_peekKind_bind
    {next : Kind → Parser β}
    {post : List Token → β → Prop}
    (h : ∀ kind, front kind → (next kind).Meets whole (· = kind) post) :
    (peekKind >>= next).Meets whole front post :=
  fun tokens htokens hfront => h _ hfront tokens htokens rfl

theorem exists_peekSecondKind (tokens : List Token) :
    ∃ kind, peekSecondKind tokens = .ok kind tokens := by
  unfold peekSecondKind
  split
  · exact ⟨_, rfl⟩
  · exact ⟨_, rfl⟩

theorem meets_peek_bind
    {next : Token → Parser β}
    {post : List Token → β → Prop}
    (h : ∀ token, token.Among whole → (next token).Meets whole front post) :
    (peek >>= next).Meets whole front post :=
  fun tokens htokens hfront => h _ (nextToken_among htokens) tokens htokens hfront

/-! ## Failing -/

/-- An error is placed at a token of the source, and one about a numeral at a numeral without
value. -/
theorem meets_fail
    {cause : ParseError.Cause}
    {token : Token}
    {post : List Token → α → Prop}
    (htoken : token.Among whole)
    (hcause : ∀ text, cause = .malformedNumber text →
      token.kind = .number ∧ token.text = text ∧ Number.ofNumeral? text.toList = none) :
    (fail cause token.span : Parser α).Meets whole front post :=
  fun tokens _ _ => ⟨List.suffix_refl tokens, token, htoken, rfl, hcause⟩

/-- An unexpected token is one of the source. -/
theorem meets_unexpected
    {expected : String}
    {post : List Token → α → Prop} :
    (unexpected expected : Parser α).Meets whole front post := by
  intro tokens htokens _
  refine ⟨List.suffix_refl tokens, nextToken tokens, nextToken_among htokens, rfl, ?_⟩
  intro text hcause
  split at hcause <;> cases hcause

/-! ## Consuming tokens -/

/-- A token that is not the end of the source is consumed. -/
theorem advance_of_kind
    {kind : Kind}
    (hkind : kind ≠ .eof)
    {tokens : List Token}
    (hnext : (nextToken tokens).kind = kind) :
    ∃ token rest,
      tokens = token :: rest ∧ token.kind = kind ∧ advance tokens = .ok token rest := by
  cases tokens with
  | nil => exact absurd hnext.symm hkind
  | cons token rest =>
      have hkind' : token.kind = kind := hnext
      have heof : token.isEof = false := by
        simp [Token.isEof, hkind', hkind]
      exact ⟨token, rest, rfl, hkind', by simp [advance, heof]⟩

/-- Consuming a token gives this token, which is one of the source. -/
theorem meets_advance
    {kind : Kind}
    (hkind : kind ≠ .eof) :
    advance.Meets whole (· = kind) fun used token =>
      used = [token] ∧ token.kind = kind ∧ token.Among whole := by
  intro tokens htokens hfront
  obtain ⟨token, rest, rfl, htoken, hadvance⟩ := advance_of_kind hkind hfront
  rw [hadvance]
  refine ⟨[token], rfl, ?_, rfl, htoken, .inl (htokens.mem List.mem_cons_self)⟩
  exact List.forall_mem_singleton.mpr (htoken ▸ hkind)

/-- A token of a known kind is consumed; what follows adds to it. -/
theorem meets_advance_bind
    {kind : Kind}
    (hkind : kind ≠ .eof)
    {next : Token → Parser β}
    {post : List Token → β → Prop}
    (h : ∀ token : Token, token.kind = kind →
      (next token).Meets whole anyKind fun more result => post (token :: more) result) :
    (advance >>= next).Meets whole (· = kind) post := by
  refine (meets_advance hkind).bind fun used token hused => ?_
  obtain ⟨rfl, htoken, _⟩ := hused
  exact h token htoken

/-- An expected token is the only one consumed. -/
theorem meets_expect
    {kind : Kind}
    (hkind : kind ≠ .eof) :
    (expect kind : Parser Unit).Meets whole front fun used _ => ∃ token : Token,
      used = [token] ∧ token.kind = kind := by
  refine meets_peekKind_bind fun found _ => Meets.ite ?_ fun _ => meets_unexpected
  rintro rfl
  refine (meets_advance hkind).bind fun used token hused => Meets.pure ?_
  exact ⟨token, by simp [hused.1], hused.2.1⟩

/-- What follows an expected token stands behind this token. -/
theorem meets_expect_bind
    {kind : Kind}
    (hkind : kind ≠ .eof)
    {next : Unit → Parser β}
    {post : List Token → β → Prop}
    (h : ∀ token : Token, token.kind = kind →
      (next ()).Meets whole anyKind fun more result => post (token :: more) result) :
    (expect kind >>= next).Meets whole front post := by
  refine (meets_expect hkind).bind fun used _ hused => ?_
  obtain ⟨token, rfl, htoken⟩ := hused
  exact h token htoken

/-- The last token of a phrase. -/
theorem meets_expect_map
    {kind : Kind}
    (hkind : kind ≠ .eof)
    {value : β}
    {post : List Token → β → Prop}
    (h : ∀ token : Token, token.kind = kind → post [token] value) :
    Meets whole front (expect kind >>= fun _ => pure value) post :=
  meets_expect_bind hkind fun token htoken => Meets.pure (h token htoken)

/-- An optional token is consumed, or the next token has another kind. -/
theorem meets_accept_bind
    {kind : Kind}
    (hkind : kind ≠ .eof)
    {next : Bool → Parser β}
    {post : List Token → β → Prop}
    (htrue : ∀ token : Token, token.kind = kind →
      (next true).Meets whole anyKind fun more result => post (token :: more) result)
    (hfalse : (next false).Meets whole anyKind post) :
    (accept kind >>= next).Meets whole front post := by
  have haccept : (accept kind : Parser Bool).Meets whole front fun used accepted =>
      if accepted then ∃ token : Token, used = [token] ∧ token.kind = kind else used = [] := by
    refine meets_peekKind_bind fun found _ => Meets.ite ?_ fun _ => Meets.pure rfl
    rintro rfl
    exact (meets_advance hkind).map fun used token hused =>
      ⟨token, hused.1, hused.2.1⟩
  refine haccept.bind fun used accepted hused => ?_
  cases accepted with
  | true =>
      obtain ⟨token, rfl, htoken⟩ := hused
      exact htrue token htoken
  | false =>
      simp only [Bool.false_eq_true, if_false] at hused
      subst hused
      exact hfalse

theorem meets_accept_ite
    {kind : Kind}
    (hkind : kind ≠ .eof)
    {first second : Parser β}
    {post : List Token → β → Prop}
    (hfirst : ∀ token : Token, token.kind = kind →
      first.Meets whole anyKind fun more result => post (token :: more) result)
    (hsecond : second.Meets whole anyKind post) :
    Meets whole front
      (accept kind >>= fun accepted => if accepted then first else second) post :=
  meets_accept_bind hkind hfirst hsecond

/-- A name consumes the token that holds it. -/
theorem meets_name :
    (name : Parser Name).Meets whole front fun used id => ∃ token : Token,
      used = [token] ∧ token.kind = .name ∧ token.text = id := by
  refine meets_peekKind_bind fun found _ => Meets.ite ?_ fun _ => meets_unexpected
  rintro rfl
  exact (meets_advance (by decide)).map fun used token hused =>
    ⟨token, hused.1, hused.2.1, rfl⟩

/-- What follows a name stands behind its token. -/
theorem meets_name_bind
    {next : Name → Parser β}
    {post : List Token → β → Prop}
    (h : ∀ token : Token, token.kind = .name →
      (next token.text).Meets whole anyKind fun more result => post (token :: more) result) :
    (name >>= next).Meets whole front post := by
  refine meets_name.bind fun used id hused => ?_
  obtain ⟨token, rfl, htoken, rfl⟩ := hused
  exact h token htoken

theorem meets_name_map
    {shape : Name → β}
    {post : List Token → β → Prop}
    (h : ∀ token : Token, token.kind = .name → post [token] (shape token.text)) :
    Meets whole front (name >>= fun id => pure (shape id)) post :=
  meets_name_bind fun token htoken => Meets.pure (h token htoken)

/-! ## Repetition -/

/-- What one round of a loop has to establish behind the tokens that the rounds before it used. -/
abbrev Round
    (invariant post : List Token → α → Prop)
    (used more : List Token) :
    Step α → Prop
  | .again value => more ≠ [] ∧ invariant (used ++ more) value
  | .done value => post (used ++ more) value

/-- A round that ends the loop without consuming anything. -/
theorem meets_done
    {invariant post : List Token → α → Prop}
    {used : List Token}
    {value : α}
    (h : post used value) :
    Meets whole front (pure (Step.done value)) (Round invariant post used) := by
  refine Meets.pure ?_
  change post (used ++ []) value
  rw [List.append_nil]
  exact h

/-- What holds of the tokens consumed so far and the value reached, when a round asks for another
one, holds again behind that round; so the loop ends with what its last round establishes. -/
theorem meets_loop
    {step : α → Parser (Step α)}
    (invariant post : List Token → α → Prop)
    (hstep : ∀ used value, invariant used value →
      (step value).Meets whole anyKind (Round invariant post used))
    {used : List Token}
    {value : α}
    (hvalue : invariant used value) :
    Meets whole anyKind (loop step value) fun more result => post (used ++ more) result := by
  intro tokens htokens _
  induction hn : tokens.length using Nat.strongRecOn generalizing tokens used value with
  | _ n ih =>
      have hround := hstep used value hvalue tokens htokens trivial
      rw [loop]
      cases h : step value tokens with
      | fail error rest =>
          rw [h] at hround
          exact hround
      | ok result rest =>
          rw [h] at hround
          obtain ⟨more, rfl, hwords, hmore⟩ := hround
          cases result with
          | done result => exact ⟨more, rfl, hwords, hmore⟩
          | again result =>
              have hpos : 0 < more.length := List.length_pos_iff.mpr hmore.1
              have hrest : rest <:+ more ++ rest := List.suffix_append more rest
              have hlt : rest.length < (more ++ rest).length := by
                rw [List.length_append]
                omega
              have hloop := ih rest.length (hn ▸ hlt) hmore.2 rest (hrest.trans htokens) trivial rfl
              simp only [hlt, if_true]
              cases h' : loop step result rest with
              | fail error last =>
                  rw [h'] at hloop
                  exact ⟨hloop.1.trans hrest, hloop.2⟩
              | ok final last =>
                  rw [h'] at hloop
                  obtain ⟨others, rfl, hwords', hothers⟩ := hloop
                  rw [List.append_assoc] at hothers
                  refine ⟨more ++ others, (List.append_assoc more others last).symm, ?_, hothers⟩
                  exact List.forall_mem_append.mpr ⟨hwords, hwords'⟩

/-- A loop from its start. -/
theorem meets_loop_start
    {step : α → Parser (Step α)}
    (invariant : List Token → α → Prop)
    {post : List Token → α → Prop}
    (hstep : ∀ used value, invariant used value →
      (step value).Meets whole anyKind (Round invariant post used))
    {value : α}
    (hvalue : invariant [] value) :
    Meets whole anyKind (loop step value) post :=
  meets_loop invariant post hstep hvalue

/-- Further items extend a list that meets its contract, each with the comma in front of it. -/
theorem meets_moreItems
    {item : Parser α}
    {itemPost : List Token → α → Prop}
    (listPost : List Token → List α → Prop)
    (hitem : item.Meets whole anyKind itemPost)
    (hsnoc : ∀ used items (comma : Token) more value,
      listPost used items → comma.kind = .symbol .comma → itemPost more value →
        listPost (used ++ comma :: more) (items ++ [value]))
    {used : List Token}
    {items : List α}
    (hitems : listPost used items) :
    (moreItems item items).Meets whole anyKind fun more result =>
      listPost (used ++ more) result := by
  refine meets_loop listPost listPost ?_ hitems
  intro used items hitems
  refine meets_accept_ite (by decide) ?_ (meets_done hitems)
  intro comma hcomma
  refine hitem.map fun more value hmore => ?_
  exact ⟨List.cons_ne_nil _ _, hsnoc used items comma more value hitems hcomma hmore⟩

/-- A list of items, by what its first item gives and what every further one adds. -/
theorem meets_commaSeparated
    {item : Parser α}
    {itemPost : List Token → α → Prop}
    (listPost : List Token → List α → Prop)
    (hitem : item.Meets whole anyKind itemPost)
    (hsingle : ∀ used value, itemPost used value → listPost used [value])
    (hsnoc : ∀ used items (comma : Token) more value,
      listPost used items → comma.kind = .symbol .comma → itemPost more value →
        listPost (used ++ comma :: more) (items ++ [value])) :
    (commaSeparated item).Meets whole anyKind listPost :=
  hitem.bind fun used value hused =>
    meets_moreItems listPost hitem hsnoc (hsingle used value hused)

end Rules
end Parser
end LuaView
