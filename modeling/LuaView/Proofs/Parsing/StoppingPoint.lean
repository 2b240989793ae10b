import LuaView.Proofs.Parsing.Locality

/-!
# The tokens that decide an attempt to parse

A machine stops at an index, with a program or with an error.  The tokens up to there decide the
attempt.  Only where a value is refused at the limit of nesting the token behind its name has been
looked at too, and that token decides no more than which error it is.

No program begins with the tokens up to the one that an error is placed at.  An expression that
cannot be assigned to is the exception: the error is placed at its first token, but only the sign
behind it rules out a program.
-/

namespace LuaView

namespace Machine

/-- The number of tokens that an attempt to parse depends on: those up to where it stops, and one
more if it stops at the limit of nesting. -/
def decisive (machine : Machine) : Nat :=
  match machine.parse.1 with
  | .error ⟨.tooDeep _, _⟩ => machine.parse.2.place.current + 2
  | _ => machine.parse.2.place.current + 1

theorem stop_lt_decisive (machine : Machine) :
    machine.parse.2.place.current < machine.decisive := by
  unfold decisive
  split <;> omega

theorem succ_stop_lt_decisive
    (machine : Machine)
    {error : ParseError}
    (herror : machine.parse.1 = .error error)
    (hdeep : error.IsTooDeep) :
    machine.parse.2.place.current + 1 < machine.decisive := by
  obtain ⟨cause, span⟩ := error
  obtain ⟨limit, rfl⟩ := hdeep
  rw [decisive, herror]
  exact Nat.lt_succ_self _

/-- Two attempts have the same result, and stop at the same index. -/
def SameAttempt (first second : Machine) : Prop :=
  second.parse.1 = first.parse.1 ∧ second.parse.2.place.current = first.parse.2.place.current

/-- However these tokens are continued, there is no program. -/
def NeverParses (limit : Nat) (ahead : List Token) : Prop :=
  ∀ others, ahead <+: (ofTokens others limit).tokens →
    ∃ error, (ofTokens others limit).parse.1 = .error error

theorem Continues.length_rest
    {origin machine : Machine}
    {depth : Nat}
    (h : Continues origin depth machine) :
    machine.rest.length + machine.place.current = origin.tokens.length := by
  have hlt := h.current_lt
  rw [rest, List.length_drop, ← h.tokens_eq]
  omega

theorem outcome_parse (tokens : List Token) (limit : Nat) :
    outcome (ofTokens tokens limit).parse = Grammar.chunk limit (ofTokens tokens limit).tokens :=
  (resting_ofTokens tokens limit).parse.1

theorem length_rest_parse (tokens : List Token) (limit : Nat) :
    (ofTokens tokens limit).parse.2.rest.length + (ofTokens tokens limit).parse.2.place.current =
      (ofTokens tokens limit).tokens.length :=
  (resting_ofTokens tokens limit).parse.2.length_rest

section Results

variable {tail tail' : List Token}
variable {seen : Nat}
variable {first second : Except ParseError Chunk × Machine}

theorem length_le_of_beyond (h : (outcome first).Beyond tail) :
    first.2.rest.length ≤ tail.length := by
  rcases first with ⟨error | program, machine⟩
  · exact h.1
  · exact h

/-- A run that stops among the common tokens decides what the other one does, except that the other
one may be refused something else. -/
theorem same_or_refused
    (h : (outcome first).Local tail tail' (outcome second))
    (hfirst : first.2.rest.length + first.2.place.current = seen + tail.length)
    (hsecond : second.2.rest.length + second.2.place.current = seen + tail'.length)
    (hstop : first.2.place.current < seen) :
    (second.1 = first.1 ∧ second.2.place.current = first.2.place.current) ∨
      ∃ error other, first.1 = .error error ∧ error.IsTooDeep ∧ second.1 = .error other ∧
        first.2.place.current + 1 = seen ∧ (nextToken first.2.rest).kind = .name := by
  generalize houtcome : outcome first = ended at h
  generalize hother : outcome second = ended' at h
  cases h with
  | beyond hbeyond =>
      subst houtcome
      have hle := length_le_of_beyond hbeyond
      omega
  | ok value token ahead =>
      obtain ⟨hresult, hrest⟩ := outcome_eq_ok houtcome
      obtain ⟨hresult', hrest'⟩ := outcome_eq_ok hother
      rw [hrest, List.length_append] at hfirst
      rw [hrest', List.length_append] at hsecond
      exact .inl ⟨hresult'.trans hresult.symm, by omega⟩
  | fail error token ahead =>
      obtain ⟨hresult, hrest⟩ := outcome_eq_fail houtcome
      obtain ⟨hresult', hrest'⟩ := outcome_eq_fail hother
      rw [hrest, List.length_append] at hfirst
      rw [hrest', List.length_append] at hsecond
      exact .inl ⟨hresult'.trans hresult.symm, by omega⟩
  | malformed hmalformed =>
      obtain ⟨-, hrest⟩ := outcome_eq_fail houtcome
      rw [hrest] at hfirst
      omega
  | refused hdeep hname =>
      obtain ⟨hresult, hrest⟩ := outcome_eq_fail houtcome
      obtain ⟨hresult', -⟩ := outcome_eq_fail hother
      rw [hrest, List.length_cons] at hfirst
      refine .inr ⟨_, _, hresult, hdeep, hresult', by omega, ?_⟩
      rw [hrest]
      exact hname

/-- A numeral that is the last common token is malformed in both runs. -/
theorem same_of_malformed
    (h : (outcome first).Local tail tail' (outcome second))
    (hfirst : first.2.rest.length + first.2.place.current = seen + tail.length)
    (hsecond : second.2.rest.length + second.2.place.current = seen + tail'.length)
    (hstop : first.2.place.current = seen)
    {error : ParseError}
    (hresult : first.1 = .error error)
    (hmalformed : error.IsMalformed) :
    second.1 = first.1 ∧ second.2.place.current = first.2.place.current := by
  generalize houtcome : outcome first = ended at h
  generalize hother : outcome second = ended' at h
  cases h with
  | beyond hbeyond =>
      subst houtcome
      rcases first with ⟨other | program, machine⟩
      · obtain rfl : other = error := Except.error.inj hresult
        have hlength : machine.rest.length = tail.length := by
          simp only at hfirst hstop
          omega
        exact absurd hmalformed (hbeyond.2 hlength)
      · cases hresult
  | ok value token ahead =>
      rw [(outcome_eq_ok houtcome).1] at hresult
      cases hresult
  | fail other token ahead =>
      rw [(outcome_eq_fail houtcome).2, List.length_append, List.length_cons] at hfirst
      omega
  | malformed hmalformed' =>
      obtain ⟨hfail, hrest⟩ := outcome_eq_fail houtcome
      obtain ⟨hfail', hrest'⟩ := outcome_eq_fail hother
      rw [hrest] at hfirst
      rw [hrest'] at hsecond
      exact ⟨hfail'.trans hfail.symm, by omega⟩
  | refused hdeep hname =>
      rw [(outcome_eq_fail houtcome).2, List.length_cons] at hfirst
      omega

end Results

section Attempts

variable {tokens others : List Token}
variable {limit seen : Nat}

/-- What stands behind a number of tokens that two lists have in common. -/
theorem exists_tails
    {first second : List Token}
    (h : first.take seen <+: second)
    (hseen : seen ≤ first.length) :
    ∃ ahead tail tail', ahead.length = seen ∧ first = ahead ++ tail ∧ second = ahead ++ tail' := by
  obtain ⟨tail', rfl⟩ := h
  exact ⟨first.take seen, first.drop seen, tail', List.length_take_of_le hseen,
    (List.take_append_drop seen first).symm, rfl⟩

/-- Attempts with common tokens. -/
theorem local_parse
    {ahead tail tail' : List Token}
    (hahead : 0 < ahead.length)
    (hfirst : (ofTokens tokens limit).tokens = ahead ++ tail)
    (hsecond : (ofTokens others limit).tokens = ahead ++ tail') :
    (outcome (ofTokens tokens limit).parse).Local tail tail'
      (outcome (ofTokens others limit).parse) := by
  rw [outcome_parse, outcome_parse, hfirst, hsecond]
  cases ahead with
  | nil => exact absurd hahead (Nat.lt_irrefl 0)
  | cons token ahead => exact (Grammar.local_chunk tail tail' limit).both token ahead trivial

theorem stop_le_endIndex (tokens : List Token) (limit : Nat) :
    (ofTokens tokens limit).parse.2.place.current ≤
      Token.endIndex (ofTokens tokens limit).tokens := by
  have hafter := (resting_ofTokens tokens limit).parse.2
  rw [← hafter.tokens_eq]
  exact hafter.le_endIndex

theorem stop_lt (tokens : List Token) (limit : Nat) :
    (ofTokens tokens limit).parse.2.place.current < (ofTokens tokens limit).tokens.length :=
  Nat.lt_of_le_of_lt (stop_le_endIndex tokens limit)
    (resting_ofTokens tokens limit).closed.endIndex_lt

theorem lt_endIndex_of_name
    (hname : (nextToken (ofTokens tokens limit).parse.2.rest).kind = .name) :
    (ofTokens tokens limit).parse.2.place.current <
      Token.endIndex (ofTokens tokens limit).tokens := by
  have hafter := (resting_ofTokens tokens limit).parse.2
  rw [← hafter.tokens_eq]
  refine hafter.lt_endIndex ?_
  rw [hafter.next_eq, Token.isEof, hname]
  rfl

/-- An attempt that stops within the tokens that another list has as well. -/
theorem sameAttempt_or_refused
    (hcommon : (ofTokens tokens limit).tokens.take seen <+: (ofTokens others limit).tokens)
    (hseen : seen ≤ (ofTokens tokens limit).tokens.length)
    (hstop : (ofTokens tokens limit).parse.2.place.current < seen) :
    SameAttempt (ofTokens tokens limit) (ofTokens others limit) ∨
      ∃ error other, (ofTokens tokens limit).parse.1 = .error error ∧ error.IsTooDeep ∧
        (ofTokens others limit).parse.1 = .error other ∧
        (ofTokens tokens limit).parse.2.place.current + 1 = seen ∧
        (ofTokens tokens limit).parse.2.place.current <
          Token.endIndex (ofTokens tokens limit).tokens := by
  obtain ⟨ahead, tail, tail', rfl, hfirst, hsecond⟩ := exists_tails hcommon hseen
  have hpos : 0 < ahead.length := Nat.lt_of_le_of_lt (Nat.zero_le _) hstop
  have hlength := length_rest_parse tokens limit
  have hlength' := length_rest_parse others limit
  rw [hfirst, List.length_append] at hlength
  rw [hsecond, List.length_append] at hlength'
  obtain hsame | ⟨error, other, herror, hdeep, hother, hlast, hname⟩ :=
    same_or_refused (local_parse hpos hfirst hsecond) hlength hlength' hstop
  · exact .inl hsame
  · exact .inr ⟨error, other, herror, hdeep, hother, hlast, lt_endIndex_of_name hname⟩

/-- The same, where the parser does not even look at a token that the lists do not have in
common. -/
theorem sameAttempt_of_take
    (hcommon : (ofTokens tokens limit).tokens.take seen <+: (ofTokens others limit).tokens)
    (hstop : (ofTokens tokens limit).parse.2.place.current < seen)
    (hdeep : ∀ error, (ofTokens tokens limit).parse.1 = .error error → error.IsTooDeep →
      (ofTokens tokens limit).parse.2.place.current + 1 < seen) :
    SameAttempt (ofTokens tokens limit) (ofTokens others limit) := by
  by_cases hseen : seen ≤ (ofTokens tokens limit).tokens.length
  · obtain hsame | ⟨error, other, herror, hlimit, -, hlast, -⟩ :=
      sameAttempt_or_refused hcommon hseen hstop
    · exact hsame
    · exact absurd hlast (Nat.ne_of_lt (hdeep error herror hlimit))
  · have hall : (ofTokens tokens limit).tokens.take seen =
        (ofTokens tokens limit).tokens.take (ofTokens tokens limit).tokens.length := by
      rw [List.take_length, List.take_of_length_le (Nat.le_of_not_le hseen)]
    have hend := (resting_ofTokens tokens limit).closed.endIndex_lt
    rw [hall] at hcommon
    obtain hsame | ⟨-, -, -, -, -, hlast, hlt⟩ :=
      sameAttempt_or_refused hcommon (Nat.le_refl _) (stop_lt tokens limit)
    · exact hsame
    · omega

/-- The tokens behind the first end of the source do not matter. -/
theorem sameAttempt_of_take_endIndex
    (hcommon : (ofTokens tokens limit).tokens.take
      (Token.endIndex (ofTokens tokens limit).tokens + 1) <+: (ofTokens others limit).tokens) :
    SameAttempt (ofTokens tokens limit) (ofTokens others limit) := by
  have hend := (resting_ofTokens tokens limit).closed.endIndex_lt
  have hstop := stop_le_endIndex tokens limit
  obtain hsame | ⟨-, -, -, -, -, hlast, hlt⟩ :=
    sameAttempt_or_refused hcommon hend (Nat.lt_succ_of_le hstop)
  · exact hsame
  · omega

/-- The tokens are consumed up to where the attempt stops, and the error is placed there. -/
theorem exists_taken
    {error : ParseError}
    (herror : (ofTokens tokens limit).parse.1 = .error error) :
    ∃ taken rest, (ofTokens tokens limit).tokens = taken ++ rest ∧ rest ≠ [] ∧
      taken.length = (ofTokens tokens limit).parse.2.place.current ∧ error.IsPlaced taken rest := by
  have hconsumes :=
    (Grammar.local_chunk [] [] limit).consumes (ofTokens tokens limit).tokens trivial
  rw [← outcome_parse, outcome_of_error herror] at hconsumes
  obtain ⟨taken, htokens, hplaced⟩ := hconsumes
  have hlength := length_rest_parse tokens limit
  have hlt := stop_lt tokens limit
  have happend := congrArg List.length htokens
  rw [List.length_append] at happend
  refine ⟨taken, _, htokens, fun hnil => ?_, by omega, hplaced⟩
  rw [hnil, List.length_nil] at hlength
  omega

/-- No program begins with the tokens up to where an attempt fails. -/
theorem neverParses_take_stop
    {error : ParseError}
    (herror : (ofTokens tokens limit).parse.1 = .error error) :
    NeverParses limit ((ofTokens tokens limit).tokens.take
      ((ofTokens tokens limit).parse.2.place.current + 1)) := by
  intro others hcommon
  obtain ⟨hsame, -⟩ | ⟨-, other, -, -, hother, -, -⟩ :=
    sameAttempt_or_refused hcommon (stop_lt tokens limit) (Nat.lt_succ_self _)
  · exact ⟨error, hsame.trans herror⟩
  · exact ⟨other, hother⟩

/-- An error is placed at the token where the attempt stops, unless it is about a numeral or about
an expression. -/
theorem exists_token_at_stop
    {error : ParseError}
    (herror : (ofTokens tokens limit).parse.1 = .error error)
    (hnumeral : ¬ error.IsMalformed)
    (hcause : error.cause ≠ .notAssignable) :
    ∃ token, (ofTokens tokens limit).tokens[(ofTokens tokens limit).parse.2.place.current]? =
      some token ∧ error.span = token.span := by
  obtain ⟨taken, rest, htokens, hrest, hstop, hplaced⟩ := exists_taken herror
  obtain ⟨next, rest, rfl⟩ := List.exists_cons_of_ne_nil hrest
  refine ⟨next, ?_, ?_⟩
  · rw [htokens, ← hstop, List.getElem?_append_right (Nat.le_refl _), Nat.sub_self]
    rfl
  · obtain ⟨cause, span⟩ := error
    cases cause with
    | malformedNumber text => exact absurd ⟨text, rfl⟩ hnumeral
    | notAssignable => exact absurd rfl hcause
    | _ => exact hplaced

/-- A malformed numeral is the last token that is consumed. -/
theorem exists_malformed
    {error : ParseError}
    (herror : (ofTokens tokens limit).parse.1 = .error error)
    (hmalformed : error.IsMalformed) :
    ∃ index numeral, index + 1 = (ofTokens tokens limit).parse.2.place.current ∧
      (ofTokens tokens limit).tokens[index]? = some numeral ∧ error.span = numeral.span := by
  obtain ⟨taken, rest, htokens, -, hstop, hplaced⟩ := exists_taken herror
  obtain ⟨text, htext⟩ := hmalformed
  rw [ParseError.IsPlaced, htext] at hplaced
  obtain ⟨numeral, hnumeral, hspan⟩ := hplaced
  have hpos : 0 < taken.length := by
    refine List.length_pos_iff.mpr ?_
    rintro rfl
    cases hnumeral
  refine ⟨taken.length - 1, numeral, by omega, ?_, hspan⟩
  rw [htokens, List.getElem?_append_left (by omega), ← List.getLast?_eq_getElem?]
  exact hnumeral

/-- A malformed numeral decides the attempt, although it is consumed. -/
theorem sameAttempt_of_malformed
    {error : ParseError}
    (herror : (ofTokens tokens limit).parse.1 = .error error)
    (hmalformed : error.IsMalformed)
    (hcommon : (ofTokens tokens limit).tokens.take
      (ofTokens tokens limit).parse.2.place.current <+: (ofTokens others limit).tokens) :
    SameAttempt (ofTokens tokens limit) (ofTokens others limit) := by
  obtain ⟨ahead, tail, tail', hseen, hfirst, hsecond⟩ :=
    exists_tails hcommon (Nat.le_of_lt (stop_lt tokens limit))
  have hpos : 0 < ahead.length := by
    obtain ⟨index, -, hstop, -⟩ := exists_malformed herror hmalformed
    omega
  have hlength := length_rest_parse tokens limit
  have hlength' := length_rest_parse others limit
  rw [hfirst, List.length_append] at hlength
  rw [hsecond, List.length_append] at hlength'
  exact same_of_malformed (local_parse hpos hfirst hsecond) hlength hlength' hseen.symm herror
    hmalformed

/-- No program begins with the tokens up to the one that an error is placed at, unless it is about
an expression. -/
theorem exists_neverParses
    {error : ParseError}
    (herror : (ofTokens tokens limit).parse.1 = .error error)
    (hcause : error.cause ≠ .notAssignable) :
    ∃ index token, (ofTokens tokens limit).tokens[index]? = some token ∧
      error.span = token.span ∧
      NeverParses limit ((ofTokens tokens limit).tokens.take (index + 1)) := by
  by_cases hmalformed : error.IsMalformed
  · obtain ⟨index, numeral, hstop, hnumeral, hspan⟩ := exists_malformed herror hmalformed
    refine ⟨index, numeral, hnumeral, hspan, fun others hcommon => ?_⟩
    rw [hstop] at hcommon
    exact ⟨error, (sameAttempt_of_malformed herror hmalformed hcommon).1.trans herror⟩
  · obtain ⟨token, htoken, hspan⟩ := exists_token_at_stop herror hmalformed hcause
    exact ⟨_, token, htoken, hspan, neverParses_take_stop herror⟩

end Attempts

/-- Parsing never depends on tokens that it has not come to.  If another list has the tokens up to
where an attempt stops, and one more if that is at the limit of nesting, an attempt on it has the
same result and stops at the same index; and so it is if it has the tokens up to the first end of
the source.  No program begins with the tokens up to where an attempt fails, and none with those up
to the token that the error is placed at, unless the error is about an expression that cannot be
assigned to. -/
theorem parse_reads_no_further (tokens : List Token) (limit : Nat) :
    let first := ofTokens tokens limit
    let stop := first.parse.2.place.current
    (∀ others, first.tokens.take first.decisive <+: (ofTokens others limit).tokens →
      SameAttempt first (ofTokens others limit)) ∧
    (∀ others,
      first.tokens.take (Token.endIndex first.tokens + 1) <+: (ofTokens others limit).tokens →
        SameAttempt first (ofTokens others limit)) ∧
    ∀ error, first.parse.1 = .error error →
      NeverParses limit (first.tokens.take (stop + 1)) ∧
      (error.cause ≠ .notAssignable →
        ∃ index token, first.tokens[index]? = some token ∧ error.span = token.span ∧
          NeverParses limit (first.tokens.take (index + 1))) := by
  intro first stop
  refine ⟨fun others hcommon => ?_, fun others hcommon => sameAttempt_of_take_endIndex hcommon,
    fun error herror => ⟨neverParses_take_stop herror, exists_neverParses herror⟩⟩
  exact sameAttempt_of_take hcommon first.stop_lt_decisive fun error herror hdeep =>
    first.succ_stop_lt_decisive herror hdeep

/-- The tokens of `t={x}`. -/
def positionalTokens : List Token :=
  [⟨.name, "t", ⟨0, 0, 0⟩, ⟨1, 0, 1⟩⟩, ⟨.symbol .eq, "=", ⟨1, 0, 1⟩, ⟨2, 0, 2⟩⟩,
    ⟨.symbol .lbrace, "\x7b", ⟨2, 0, 2⟩, ⟨3, 0, 3⟩⟩, ⟨.name, "x", ⟨3, 0, 3⟩, ⟨4, 0, 4⟩⟩,
    ⟨.symbol .rbrace, "\x7d", ⟨4, 0, 4⟩, ⟨5, 0, 5⟩⟩]

/-- The tokens of `t={x=`. -/
def keyedTokens : List Token :=
  positionalTokens.take 4 ++ [⟨.symbol .eq, "=", ⟨4, 0, 4⟩, ⟨5, 0, 5⟩⟩]

theorem error_of_map
    {machine : Machine}
    {error : ParseError}
    (h : machine.parse.1.map (fun _ => ()) = .error error) :
    machine.parse.1 = .error error := by
  revert h
  cases machine.parse.1 with
  | ok program => exact nofun
  | error other => exact fun h => congrArg Except.error (Except.error.inj h)

/-- Two levels are not enough for the entry of this table.  What stands behind the table does not
matter then, nor what stands behind the end.  If the name `x` is a key, its value is one level too
deep instead. -/
theorem parse_reads_no_further_positionalTokens :
    let first := ofTokens positionalTokens 2
    let second := ofTokens (positionalTokens ++ positionalTokens) 2
    let ended := ofTokens (first.tokens ++ positionalTokens) 2
    let keyed := ofTokens keyedTokens 2
    (first.tokens.take first.decisive <+: second.tokens ∧ SameAttempt first second) ∧
      (first.tokens.take (Token.endIndex first.tokens + 1) <+: ended.tokens ∧
        SameAttempt first ended) ∧
      first.parse.1 = .error ⟨.tooDeep 2, ⟨⟨3, 0, 3⟩, ⟨4, 0, 4⟩⟩⟩ ∧
      (first.tokens.take 4 <+: keyed.tokens ∧ ∃ other, keyed.parse.1 = .error other) ∧
      ∃ index token, first.tokens[index]? = some token ∧ token.span = ⟨⟨3, 0, 3⟩, ⟨4, 0, 4⟩⟩ ∧
        NeverParses 2 (first.tokens.take (index + 1)) := by
  intro first second ended keyed
  have hsecond : first.tokens.take first.decisive <+: second.tokens := by decide +kernel
  have hended : first.tokens.take (Token.endIndex first.tokens + 1) <+: ended.tokens := by
    decide +kernel
  have hkeyed : first.tokens.take 4 <+: keyed.tokens := by decide +kernel
  have hstop : first.parse.2.place.current = 3 := by decide +kernel
  have herror : first.parse.1 = .error ⟨.tooDeep 2, ⟨⟨3, 0, 3⟩, ⟨4, 0, 4⟩⟩⟩ :=
    error_of_map (by decide +kernel)
  obtain ⟨hsame, hsame', hfails⟩ := parse_reads_no_further positionalTokens 2
  obtain ⟨hnever, hplaced⟩ := hfails _ herror
  obtain ⟨index, token, htoken, hspan, hname⟩ := hplaced nofun
  refine ⟨⟨hsecond, hsame _ hsecond⟩, ⟨hended, hsame' _ hended⟩, herror,
    ⟨hkeyed, hnever keyedTokens ?_⟩, index, token, htoken, hspan.symm, hname⟩
  change first.tokens.take (first.parse.2.place.current + 1) <+: keyed.tokens
  rw [hstop]
  exact hkeyed

/-- The tokens of `f() = 1`. -/
def assignedCallTokens : List Token :=
  [⟨.name, "f", ⟨0, 0, 0⟩, ⟨1, 0, 1⟩⟩, ⟨.symbol .lparen, "(", ⟨1, 0, 1⟩, ⟨2, 0, 2⟩⟩,
    ⟨.symbol .rparen, ")", ⟨2, 0, 2⟩, ⟨3, 0, 3⟩⟩, ⟨.symbol .eq, "=", ⟨4, 0, 4⟩, ⟨5, 0, 5⟩⟩,
    ⟨.number, "1", ⟨6, 0, 6⟩, ⟨7, 0, 7⟩⟩, Token.eof ⟨7, 0, 7⟩]

/-- A call cannot be assigned to, and the error is placed at the name `f` and at no other token.
But the call alone is a program that begins with that name. -/
theorem assignedCall_placed_at_name :
    let first := ofTokens assignedCallTokens 1000
    let name : Span := ⟨⟨0, 0, 0⟩, ⟨1, 0, 1⟩⟩
    tokenize "f() = 1" = .ok first.tokens ∧
      first.parse.1 = .error ⟨.notAssignable, name⟩ ∧
      first.tokens.head?.map Token.span = some name ∧
      (∀ token ∈ first.tokens.tail, token.span ≠ name) ∧
      ¬ NeverParses 1000 (first.tokens.take 1) := by
  intro first name
  refine ⟨by decide +kernel, error_of_map (by decide +kernel), by decide +kernel,
    by decide +kernel, fun hnever => ?_⟩
  obtain ⟨error, herror⟩ := hnever (assignedCallTokens.take 3) (by decide +kernel)
  have hprogram : (ofTokens (assignedCallTokens.take 3) 1000).parse.1.isOk = true := by
    decide +kernel
  rw [herror] at hprogram
  cases hprogram

end Machine
end LuaView
