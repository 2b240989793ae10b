import LuaView.Proofs.Parsing.Soundness
import LuaView.Proofs.Program.Load

/-!
# Budgets of levels

A parser that succeeds within a budget of levels has parsed a tree whose load has no more levels
than that.  Another budget is enough for the same tokens if it has room for the levels of the load
and for one more level for each opening parenthesis that the load does not ask for.

Both halves are stated together, as a contract of two runs with two budgets.  A pair of parentheses
around an expression is one level and one parenthesis more than the tree shows, so the two cancel
out.
-/

namespace LuaView

/-- How many opening parentheses there are. -/
def Token.parens (tokens : List Token) : Nat :=
  tokens.countP fun token => token.kind = .symbol .lparen

/-- Parentheses are counted in both parts of a list. -/
theorem Token.parens_append (tokens others : List Token) :
    Token.parens (tokens ++ others) = Token.parens tokens + Token.parens others :=
  List.countP_append

/-- One run has used the tokens within a budget of levels.  Another run is the same if its budget
has room for the load and for the parentheses that are not part of the load. -/
structure Load.Covers
    (load : Load)
    (budget budget' : Nat)
    (used : List Token)
    (same : Prop) : Prop where
  levels : load.levels ≤ budget
  parens : load.parens ≤ Token.parens used
  same : load.levels + Token.parens used ≤ budget' + load.parens → same

namespace Load.Covers

variable {load more : Load}
variable {budget budget' : Nat}
variable {used used' : List Token}
variable {same same' : Prop}

/-- No load is covered by any tokens. -/
theorem zero
    (hsame : same) :
    (0 : Load).Covers budget budget' used same :=
  ⟨Nat.zero_le _, Nat.zero_le _, fun _ => hsame⟩

/-- The load of a parenthesis is covered by its token. -/
theorem paren
    {token : Token}
    (htoken : token.kind = .symbol .lparen)
    (hsame : same) :
    Load.paren.Covers budget budget' [token] same :=
  ⟨Nat.zero_le _, by simp [Token.parens, htoken], fun _ => hsame⟩

/-- One run after another. -/
theorem add
    {both : Prop}
    (h : load.Covers budget budget' used same)
    (h' : more.Covers budget budget' used' same')
    (hboth : same → same' → both) :
    (load + more).Covers budget budget' (used ++ used') both := by
  obtain ⟨hlevels, hparens, hsame⟩ := h
  obtain ⟨hlevels', hparens', hsame'⟩ := h'
  refine ⟨?_, ?_, fun hroom => ?_⟩
  · rw [Load.levels_add]
    exact Nat.max_le.mpr ⟨hlevels, hlevels'⟩
  · rw [Load.parens_add, Token.parens_append]
    exact Nat.add_le_add hparens hparens'
  · rw [Load.levels_add, Load.parens_add, Token.parens_append] at hroom
    exact hboth (hsame (by omega)) (hsame' (by omega))

/-- A level and a parenthesis cancel out. -/
theorem ungroup
    (h : (Load.paren + load.below).Covers budget budget' used same) :
    load.Covers budget budget' used same := by
  obtain ⟨hlevels, hparens, hsame⟩ := h
  simp only [Load.levels_add, Load.levels_paren, Load.levels_below, Load.parens_add,
    Load.parens_paren, Load.parens_below] at hlevels hparens hsame
  exact ⟨by omega, by omega, fun hroom => hsame (by omega)⟩

/-- One level deeper the budgets are one level larger. -/
theorem below
    (h : load.Covers budget budget' used same) :
    load.below.Covers (budget + 1) (budget' + 1) used same := by
  obtain ⟨hlevels, hparens, hsame⟩ := h
  refine ⟨Nat.succ_le_succ hlevels, hparens, fun hroom => hsame ?_⟩
  simp only [Load.levels_below, Load.parens_below] at hroom
  omega

end Load.Covers

namespace Parser

/-- Whatever the first parser gives back on tokens whose next kind is in `front` is in `post`
together with a load, and the second parser gives it back as well if its budget has room for the
load. -/
def Carries
    {α : Type}
    (budget budget' : Nat)
    (front : Kind → Prop)
    (first second : Parser α)
    (post : Load → α → Prop) : Prop :=
  ∀ tokens value rest, front (nextToken tokens).kind → first tokens = .ok value rest →
    ∃ used load, tokens = used ++ rest ∧ post load value ∧
      load.Covers budget budget' used (second tokens = .ok value rest)

section Rules

variable {α β : Type}
variable {budget budget' : Nat}
variable {front : Kind → Prop}

namespace Carries

theorem weaken
    {first second : Parser α}
    {post : Load → α → Prop}
    (h : Carries budget budget' anyKind first second post) :
    Carries budget budget' front first second post :=
  fun tokens value rest _ hfirst => h tokens value rest trivial hfirst

theorem mono
    {first second : Parser α}
    {mid post : Load → α → Prop}
    (h : Carries budget budget' front first second mid)
    (himp : ∀ load value, mid load value → post load value) :
    Carries budget budget' front first second post := by
  intro tokens value rest hfront hfirst
  obtain ⟨used, load, htokens, hmid, hcovers⟩ := h tokens value rest hfront hfirst
  exact ⟨used, load, htokens, himp load value hmid, hcovers⟩

/-- A level and a parenthesis that are not part of the result may be left out of the load. -/
theorem ungroup
    {first second : Parser α}
    (mid : Load → α → Prop)
    {post : Load → α → Prop}
    (h : Carries budget budget' front first second mid)
    (himp : ∀ load value, mid load value →
      post load value ∨ ∃ inner : Load, load = .paren + inner.below ∧ post inner value) :
    Carries budget budget' front first second post := by
  intro tokens value rest hfront hfirst
  obtain ⟨used, load, htokens, hmid, hcovers⟩ := h tokens value rest hfront hfirst
  rcases himp load value hmid with hpost | ⟨inner, rfl, hpost⟩
  · exact ⟨used, load, htokens, hpost, hcovers⟩
  · exact ⟨used, inner, htokens, hpost, hcovers.ungroup⟩

theorem pure
    {value : α}
    {post : Load → α → Prop}
    (h : post 0 value) :
    Carries budget budget' front (Pure.pure value) (Pure.pure value) post := by
  intro tokens result rest _ hfirst
  cases hfirst
  exact ⟨[], 0, rfl, h, .zero rfl⟩

/-- The loads of two parsers in a row are added. -/
theorem bind
    {first second : Parser α}
    {next next' : α → Parser β}
    {mid : Load → α → Prop}
    {post : Load → β → Prop}
    (h : Carries budget budget' front first second mid)
    (hnext : ∀ load value, mid load value →
      Carries budget budget' anyKind (next value) (next' value) fun more result =>
        post (load + more) result) :
    Carries budget budget' front (first >>= next) (second >>= next') post := by
  intro tokens result rest hfront hboth
  obtain ⟨value, between, hfirst, hthen⟩ := bind_eq_ok hboth
  obtain ⟨used, load, rfl, hmid, hcovers⟩ := h tokens value between hfront hfirst
  obtain ⟨used', more, rfl, hpost, hcovers'⟩ :=
    hnext load value hmid between result rest trivial hthen
  refine ⟨used ++ used', load + more, (List.append_assoc ..).symm, hpost, ?_⟩
  exact hcovers.add hcovers' fun hsecond hsecond' => by rw [bind_of_ok hsecond, hsecond']

/-- The last step of a phrase only shapes its result. -/
theorem map
    {first second : Parser α}
    {shape : α → β}
    {mid : Load → α → Prop}
    {post : Load → β → Prop}
    (h : Carries budget budget' front first second mid)
    (himp : ∀ load value, mid load value → post load (shape value)) :
    Carries budget budget' front (first >>= fun value => Pure.pure (shape value))
      (second >>= fun value => Pure.pure (shape value)) post := by
  refine bind h fun load value hmid => pure ?_
  rw [add_zero]
  exact himp load value hmid

theorem ite
    {condition : Prop}
    [Decidable condition]
    {first second first' second' : Parser α}
    {post : Load → α → Prop}
    (h : condition → Carries budget budget' front first first' post)
    (h' : ¬ condition → Carries budget budget' front second second' post) :
    Carries budget budget' front (if condition then first else second)
      (if condition then first' else second') post := by
  split
  · exact h ‹_›
  · exact h' ‹_›

/-- A parser that asks for no deeper phrase carries nothing. -/
theorem of_meets
    {parser : Parser α}
    {meets : List Token → α → Prop}
    (h : ∀ whole, parser.Meets whole front meets) :
    Carries budget budget' front parser parser fun load _ => load = 0 := by
  intro tokens value rest hfront hparser
  have hmeets := h tokens tokens (List.suffix_refl tokens) hfront
  rw [hparser] at hmeets
  obtain ⟨used, htokens, -, -⟩ := hmeets
  exact ⟨used, 0, htokens, rfl, .zero hparser⟩

/-- A step that carries nothing. -/
theorem bind_zero
    {first second : Parser α}
    {next next' : α → Parser β}
    {post : Load → β → Prop}
    (h : Carries budget budget' front first second fun load _ => load = 0)
    (hnext : ∀ value, Carries budget budget' anyKind (next value) (next' value) post) :
    Carries budget budget' front (first >>= next) (second >>= next') post := by
  refine bind h fun load value hload => ?_
  subst hload
  simp only [zero_add]
  exact hnext value

/-- One level deeper both budgets are one level larger. -/
theorem below
    {first second : Parser α}
    {measure : α → Load}
    (h : Carries budget budget' front first second fun load value => load = measure value) :
    Carries (budget + 1) (budget' + 1) front first second fun load value =>
      load = (measure value).below := by
  intro tokens value rest hfront hfirst
  obtain ⟨used, load, htokens, rfl, hcovers⟩ := h tokens value rest hfront hfirst
  exact ⟨used, _, htokens, rfl, hcovers.below⟩

/-- Without any budget there is no room for a deeper level. -/
theorem below_zero
    {first second third : Parser α}
    {measure : α → Load}
    (h : Carries budget budget' front first second fun load value => load = measure value) :
    Carries (budget + 1) 0 front first third fun load value => load = (measure value).below := by
  intro tokens value rest hfront hfirst
  obtain ⟨used, load, htokens, rfl, hlevels, hparens, -⟩ := h tokens value rest hfront hfirst
  refine ⟨used, _, htokens, rfl, Nat.succ_le_succ hlevels, hparens, fun hroom => ?_⟩
  simp only [Load.levels_below, Load.parens_below] at hroom
  omega

end Carries

/-! ## Looking at tokens -/

theorem carries_peekKind_bind
    {next next' : Kind → Parser β}
    {post : Load → β → Prop}
    (h : ∀ kind, front kind → Carries budget budget' (· = kind) (next kind) (next' kind) post) :
    Carries budget budget' front (peekKind >>= next) (peekKind >>= next') post :=
  fun tokens value rest hfront hfirst => h _ hfront tokens value rest rfl hfirst

theorem carries_peek_bind
    {next next' : Token → Parser β}
    {post : Load → β → Prop}
    (h : ∀ token, Carries budget budget' front (next token) (next' token) post) :
    Carries budget budget' front (peek >>= next) (peek >>= next') post :=
  fun tokens value rest hfront hfirst => h _ tokens value rest hfront hfirst

theorem carries_peekSecondKind_bind
    {next next' : Kind → Parser β}
    {post : Load → β → Prop}
    (h : ∀ kind, Carries budget budget' front (next kind) (next' kind) post) :
    Carries budget budget' front (peekSecondKind >>= next) (peekSecondKind >>= next') post := by
  intro tokens value rest hfront hfirst
  obtain ⟨kind, hkind⟩ := exists_peekSecondKind tokens
  rw [bind_of_ok hkind] at hfirst ⊢
  exact h kind tokens value rest hfront hfirst

/-! ## Failing -/

theorem carries_fail
    {cause : ParseError.Cause}
    {span : Span}
    {second : Parser α}
    {post : Load → α → Prop} :
    Carries budget budget' front (fail cause span) second post :=
  fun _ _ _ _ hfirst => nomatch hfirst

theorem carries_unexpected
    {expected : String}
    {second : Parser α}
    {post : Load → α → Prop} :
    Carries budget budget' front (unexpected expected) second post :=
  fun _ _ _ _ hfirst => nomatch hfirst

/-! ## Consuming tokens -/

/-- Consuming a token carries nothing. -/
theorem carries_advance_bind
    {next next' : Token → Parser β}
    {post : Load → β → Prop}
    (h : ∀ token, Carries budget budget' anyKind (next token) (next' token) post) :
    Carries budget budget' front (advance >>= next) (advance >>= next') post := by
  refine Carries.bind_zero ?_ h
  intro tokens value rest _ hadvance
  unfold advance at hadvance
  cases tokens with
  | nil =>
      cases hadvance
      exact ⟨[], 0, rfl, rfl, .zero rfl⟩
  | cons token tokens =>
      simp only at hadvance
      split at hadvance
      · rename_i heof
        cases hadvance
        exact ⟨[], 0, rfl, rfl, .zero (by rw [advance, if_pos heof])⟩
      · rename_i heof
        cases hadvance
        exact ⟨[value], 0, rfl, rfl, .zero (by rw [advance, if_neg heof])⟩

/-- An opening parenthesis is consumed as part of the load. -/
theorem carries_lparen_bind
    {next next' : Token → Parser β}
    {post : Load → β → Prop}
    (h : ∀ token, Carries budget budget' anyKind (next token) (next' token) fun more result =>
      post (.paren + more) result) :
    Carries budget budget' (· = .symbol .lparen) (advance >>= next) (advance >>= next') post := by
  have hadvance : Carries budget budget' (· = .symbol .lparen) advance advance
      fun load _ => load = .paren := by
    intro tokens value rest hfront hfirst
    obtain ⟨token, behind, rfl, htoken, hok⟩ := advance_of_kind (by decide) hfront
    rw [hok] at hfirst
    cases hfirst
    exact ⟨[value], .paren, rfl, rfl, .paren htoken hok⟩
  refine hadvance.bind fun load token hload => ?_
  subst hload
  exact h token

/-- An expected token carries nothing. -/
theorem carries_expect
    {kind : Kind}
    (hkind : kind ≠ .eof) :
    Carries budget budget' front (expect kind) (expect kind) fun load _ => load = 0 :=
  .of_meets fun _ => meets_expect hkind

theorem carries_expect_bind
    {kind : Kind}
    (hkind : kind ≠ .eof)
    {next next' : Unit → Parser β}
    {post : Load → β → Prop}
    (h : Carries budget budget' anyKind (next ()) (next' ()) post) :
    Carries budget budget' front (expect kind >>= next) (expect kind >>= next') post :=
  (carries_expect hkind).bind_zero fun _ => h

/-- An expected parenthesis carries its own load. -/
theorem carries_lparen_expect_bind
    {next next' : Unit → Parser β}
    {post : Load → β → Prop}
    (h : Carries budget budget' anyKind (next ()) (next' ()) fun more result =>
      post (.paren + more) result) :
    Carries budget budget' front (expect (.symbol .lparen) >>= next)
      (expect (.symbol .lparen) >>= next') post := by
  have hexpect : Carries budget budget' front (expect (.symbol .lparen))
      (expect (.symbol .lparen)) fun load _ => load = .paren := by
    refine carries_peekKind_bind fun found _ => Carries.ite ?_ fun _ => carries_unexpected
    rintro rfl
    exact carries_lparen_bind fun _ => .pure (add_zero _)
  refine hexpect.bind fun load _ hload => ?_
  subst hload
  exact h

/-- The last token of a phrase. -/
theorem carries_expect_map
    {kind : Kind}
    (hkind : kind ≠ .eof)
    {value : β}
    {post : Load → β → Prop}
    (h : post 0 value) :
    Carries budget budget' front (expect kind >>= fun _ => pure value)
      (expect kind >>= fun _ => pure value) post :=
  carries_expect_bind hkind (.pure h)

/-- An optional token carries nothing, whether or not it is there. -/
theorem carries_accept_bind
    {kind : Kind}
    (hkind : kind ≠ .eof)
    {next next' : Bool → Parser β}
    {post : Load → β → Prop}
    (htrue : Carries budget budget' anyKind (next true) (next' true) post)
    (hfalse : Carries budget budget' anyKind (next false) (next' false) post) :
    Carries budget budget' front (accept kind >>= next) (accept kind >>= next') post := by
  have haccept : ∀ whole, (accept kind : Parser Bool).Meets whole front fun _ _ => True := by
    intro whole
    refine meets_peekKind_bind fun found _ => Meets.ite ?_ fun _ => Meets.pure trivial
    rintro rfl
    exact (meets_advance hkind).map fun _ _ _ => trivial
  refine (Carries.of_meets haccept).bind_zero fun accepted => ?_
  cases accepted with
  | true => exact htrue
  | false => exact hfalse

theorem carries_accept_ite
    {kind : Kind}
    (hkind : kind ≠ .eof)
    {first second first' second' : Parser β}
    {post : Load → β → Prop}
    (h : Carries budget budget' anyKind first first' post)
    (h' : Carries budget budget' anyKind second second' post) :
    Carries budget budget' front
      (accept kind >>= fun accepted => if accepted then first else second)
      (accept kind >>= fun accepted => if accepted then first' else second') post :=
  carries_accept_bind hkind h h'

theorem carries_name :
    Carries budget budget' front name name fun load _ => load = 0 :=
  .of_meets fun _ => meets_name

theorem carries_name_bind
    {next next' : Name → Parser β}
    {post : Load → β → Prop}
    (h : ∀ id, Carries budget budget' anyKind (next id) (next' id) post) :
    Carries budget budget' front (name >>= next) (name >>= next') post :=
  carries_name.bind_zero h

theorem carries_name_map
    {shape : Name → β}
    {post : Load → β → Prop}
    (h : ∀ id, post 0 (shape id)) :
    Carries budget budget' front (name >>= fun id => pure (shape id))
      (name >>= fun id => pure (shape id)) post :=
  carries_name_bind fun id => .pure (h id)

/-! ## Repetition -/

/-- What one round of a loop has to establish behind the load that the rounds before it carried. -/
abbrev CarriesRound
    (invariant : Load → α → Prop)
    (load more : Load) :
    Step α → Prop
  | .again value => invariant (load + more) value
  | .done value => invariant (load + more) value

/-- What holds of the load carried so far and the value reached holds again behind every round. -/
theorem carries_loop
    {step step' : α → Parser (Step α)}
    (invariant : Load → α → Prop)
    (hstep : ∀ load value, invariant load value →
      Carries budget budget' anyKind (step value) (step' value) (CarriesRound invariant load))
    {load : Load}
    {value : α}
    (hvalue : invariant load value) :
    Carries budget budget' front (loop step value) (loop step' value) fun more result =>
      invariant (load + more) result := by
  intro tokens result rest hfront hfirst
  clear hfront
  induction hlength : tokens.length using Nat.strongRecOn generalizing tokens load value with
  | _ length ih =>
      rw [loop] at hfirst
      cases hround : step value tokens with
      | fail error between =>
          rw [hround] at hfirst
          cases hfirst
      | ok outcome between =>
          rw [hround] at hfirst
          obtain ⟨used, more, rfl, hmore, hcovers⟩ :=
            hstep load value hvalue tokens outcome between trivial hround
          cases outcome with
          | done final =>
              cases hfirst
              refine ⟨used, more, rfl, hmore, hcovers.levels, hcovers.parens, fun hroom => ?_⟩
              rw [loop, hcovers.same hroom]
          | again next =>
              simp only at hfirst
              by_cases hless : between.length < (used ++ between).length
              · rw [if_pos hless] at hfirst
                obtain ⟨used', others, rfl, hothers, hcovers'⟩ :=
                  ih between.length (hlength ▸ hless) hmore between hfirst rfl
                refine ⟨used ++ used', more + others, (List.append_assoc ..).symm, ?_, ?_⟩
                · simp only [← add_assoc]
                  exact hothers
                · refine hcovers.add hcovers' fun hsame hsame' => ?_
                  rw [loop, hsame]
                  simp only
                  rw [if_pos hless, hsame']
              · rw [if_neg hless] at hfirst
                cases hfirst
                refine ⟨used, more, rfl, hmore, hcovers.levels, hcovers.parens, fun hroom => ?_⟩
                rw [loop, hcovers.same hroom]
                simp only
                rw [if_neg hless]

/-- A loop from its start. -/
theorem carries_loop_start
    {step step' : α → Parser (Step α)}
    (invariant : Load → α → Prop)
    (hstep : ∀ load value, invariant load value →
      Carries budget budget' anyKind (step value) (step' value) (CarriesRound invariant load))
    {value : α}
    (hvalue : invariant 0 value) :
    Carries budget budget' front (loop step value) (loop step' value) invariant := by
  have hloop : Carries budget budget' front (loop step value) (loop step' value) fun more result =>
      invariant (0 + more) result := carries_loop invariant hstep hvalue
  simpa only [zero_add] using hloop

section Items

variable {item item' : Parser α}
variable {measure : α → Load}

/-- Further items carry their loads in addition to those in front. -/
theorem carries_moreItems
    (hitem : Carries budget budget' anyKind item item' fun load value => load = measure value)
    (items : List α) :
    Carries budget budget' front (moreItems item items) (moreItems item' items)
      fun more result => (items.map measure).sum + more = (result.map measure).sum := by
  refine carries_loop (fun load (values : List α) => load = (values.map measure).sum) ?_ rfl
  rintro load items rfl
  refine carries_accept_ite (by decide) ?_ (.pure (add_zero _))
  refine hitem.map fun more value hmore => ?_
  simp only [CarriesRound, hmore, List.map_append, List.sum_append, List.map_singleton,
    List.sum_singleton]

/-- The items of a list carry their loads side by side. -/
theorem carries_commaSeparated
    (hitem : Carries budget budget' anyKind item item' fun load value => load = measure value) :
    Carries budget budget' front (commaSeparated item) (commaSeparated item')
      fun load values => load = (values.map measure).sum := by
  refine hitem.weaken.bind fun load value hload => ?_
  refine (carries_moreItems hitem [value]).mono fun more result hmore => ?_
  rw [hload, ← hmore, List.map_singleton, List.sum_singleton]

end Items
end Rules
end Parser
end LuaView
