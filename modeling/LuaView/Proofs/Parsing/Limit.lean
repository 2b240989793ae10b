import LuaView.Proofs.Parsing.Acceptance
import LuaView.Proofs.Parsing.Comparison

/-!
# The limit of nesting only cuts off

A parser with a higher limit does what one with a lower limit does, except where the latter stops
because a phrase is nested too deep.  So raising the limit keeps every program and every other
error.

A phrase one level deeper starts behind a token that belongs to the level above, and the end of the
source is never consumed.  Therefore as many levels as there are tokens are enough.
-/

namespace LuaView

/-- The same tokens under two limits, of which the first one may be too low. -/
def Comparison.limits : Comparison where
  same := Eq
  sameError := Eq
  cutOff := ParseError.IsTooDeep
  kind_eq h := congrArg Token.kind h
  text_eq h := congrArg Token.text h
  error_of_same h _ := by rw [h]

/-- The same tokens under limits that are not reached. -/
def Comparison.withinLimits : Comparison where
  same := Eq
  sameError error other := error = other ∧ ¬ error.IsTooDeep
  cutOff _ := False
  kind_eq h := congrArg Token.kind h
  text_eq h := congrArg Token.text h
  error_of_same h hcause := ⟨by rw [h], fun ⟨limit, hlimit⟩ => hcause limit hlimit⟩

namespace Grammar

/-- More levels keep what fewer levels allow. -/
theorem agree_phrase_of_le
    (limit limit' : Nat)
    {budget budget' : Nat}
    (hbudget : budget ≤ budget')
    (n : Nat) :
    Descent.Agree .limits n (phrase limit budget) (phrase limit' budget') := by
  induction budget generalizing budget' n with
  | zero =>
      intro asked tokens others _ _
      have hdeep : ParseError.IsTooDeep ⟨.tooDeep limit, (nextToken tokens).span⟩ := ⟨limit, rfl⟩
      rw [phrase]
      cases phrase limit' budget' asked others with
      | ok value rest => exact hdeep
      | fail error rest => exact .inr hdeep
  | succ budget ih =>
      obtain ⟨budget', rfl⟩ : ∃ more, budget' = more + 1 :=
        ⟨budget' - 1, by omega⟩
      cases n with
      | zero =>
          intro asked tokens others hcorresponds _
          exact absurd hcorresponds.length_pos (Nat.lt_irrefl 0)
      | succ n => exact agree_phrase_succ (ih (Nat.le_of_succ_le_succ hbudget) n)

/-- On no more tokens than levels the limit is not reached. -/
theorem agree_phrase_within
    (limit n : Nat) :
    Descent.Agree .withinLimits n (phrase limit n) (phrase limit n) := by
  induction n with
  | zero =>
      intro asked tokens others hcorresponds _
      exact absurd hcorresponds.length_pos (Nat.lt_irrefl 0)
  | succ n ih => exact agree_phrase_succ ih

end Grammar

namespace Session

theorem tokens_ofTokens (tokens : List Token) (limit limit' : Nat) :
    (ofTokens tokens limit).tokens = (ofTokens tokens limit').tokens := by
  unfold ofTokens
  split <;> rfl

/-- Under a higher limit the result is the same, unless the lower limit is reached. -/
theorem sameResult_of_le
    (tokens : List Token)
    {limit limit' : Nat}
    (hlimit : limit ≤ limit') :
    Comparison.limits.SameResult (ofTokens tokens limit).parse.1
      (ofTokens tokens limit').parse.1 := by
  refine sameResult_of_agree ⟨?_, closed_ofTokens tokens limit, Nat.le_refl _⟩ ?_
  · rw [tokens_ofTokens tokens limit' limit]
    exact List.forall₂_same.mpr fun _ _ => rfl
  · rw [limit_ofTokens, limit_ofTokens]
    exact Grammar.agree_phrase_of_le limit limit' hlimit _

/-- A limit that is not below the number of tokens is not reached. -/
theorem not_isTooDeep_of_length_le
    {tokens : List Token}
    {limit : Nat}
    (hlength : (ofTokens tokens limit).tokens.length ≤ limit)
    {error : ParseError}
    (h : (ofTokens tokens limit).parse.1 = .error error) :
    ¬ error.IsTooDeep := by
  have hsame : Comparison.withinLimits.SameResult (ofTokens tokens limit).parse.1
      (ofTokens tokens limit).parse.1 := by
    refine sameResult_of_agree ⟨List.forall₂_same.mpr fun _ _ => rfl,
      closed_ofTokens tokens limit, hlength⟩ ?_
    rw [limit_ofTokens]
    exact Grammar.agree_phrase_within limit limit
  rw [h] at hsame
  obtain ⟨-, hdeep⟩ | hcut := hsame
  · exact hdeep
  · exact hcut.elim

end Session

/-- The limit of nesting is a pure cut-off: under a higher limit a list of tokens has the same
program, and every error but that of the limit itself is the same, at the same place.  A limit that
is not below the number of tokens, the end of the source included, is never reached. -/
theorem limit_only_cuts_off
    (tokens : List Token)
    {limit limit' : Nat}
    (hlimit : limit ≤ limit') :
    (∀ program, (Session.ofTokens tokens limit).parse.1 = .ok program →
        (Session.ofTokens tokens limit').parse.1 = .ok program) ∧
      (∀ error, (Session.ofTokens tokens limit).parse.1 = .error error → ¬ error.IsTooDeep →
        (Session.ofTokens tokens limit').parse.1 = .error error) ∧
      ((Session.ofTokens tokens limit).tokens.length ≤ limit →
        ∀ error, (Session.ofTokens tokens limit).parse.1 = .error error →
          ¬ error.IsTooDeep) := by
  have hsame := Session.sameResult_of_le tokens hlimit
  refine ⟨fun program hprogram => ?_, fun error herror hdeep => ?_,
    fun hlength error herror => Session.not_isTooDeep_of_length_le hlength herror⟩
  · rw [hprogram] at hsame
    cases hother : (Session.ofTokens tokens limit').parse.1 with
    | ok other =>
        rw [hother] at hsame
        exact congrArg Except.ok hsame.symm
    | error other =>
        rw [hother] at hsame
        exact hsame.elim
  · rw [herror] at hsame
    cases hother : (Session.ofTokens tokens limit').parse.1 with
    | ok other =>
        rw [hother] at hsame
        exact absurd hsame hdeep
    | error other =>
        rw [hother] at hsame
        obtain rfl : error = other := hsame.resolve_right hdeep
        rfl

/-- Three levels are enough for these tokens, so the eighteen levels that their number allows are
enough as well. -/
theorem limit_only_cuts_off_looseTokens :
    3 ≤ 18 ∧ (Session.ofTokens looseTokens 18).tokens.length ≤ 18 ∧
      ∃ program, (Session.ofTokens looseTokens 3).parse.1 = .ok program ∧
        (Session.ofTokens looseTokens 18).parse.1 = .ok program := by
  refine ⟨by decide, by decide, ?_⟩
  have hparses : (Session.ofTokens looseTokens 3).parse.1.isOk = true := by decide +kernel
  obtain ⟨program, hprogram⟩ := Except.exists_of_isOk hparses
  exact ⟨program, hprogram, (limit_only_cuts_off looseTokens (by decide)).1 program hprogram⟩

end LuaView
