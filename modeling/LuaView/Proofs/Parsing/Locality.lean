import LuaView.Proofs.Parsing.InPlace

/-!
# What a parser has not seen does not matter

Two lists start with the same tokens and go on in different ways.  A parser does the same with both
as long as it stays within the common tokens.  So the runs are related by what has become of the
first one: it has left the common tokens behind, or it is still among them and the second one is at
the same place, or it has stopped at their end.

The last case is that of two errors.  A malformed numeral is consumed before it is complained of.
And in front of an entry of a table that starts with a name, the grammar looks at the token behind
the name; so if the name is the last common token, the second run may read a key where the first one
is refused a value.  It is refused the value of that key.
-/

namespace LuaView

open LuaView.Parser (anyKind Step)

/-- The error is that of a numeral without value. -/
def ParseError.IsMalformed (error : ParseError) : Prop :=
  ∃ text, error.cause = .malformedNumber text

/-- Behind the tokens `taken` the error is placed at the next token, unless it is about a numeral,
which is taken already, or about an expression. -/
def ParseError.IsPlaced (error : ParseError) (taken rest : List Token) : Prop :=
  match error.cause with
  | .malformedNumber _ => ∃ numeral ∈ taken.getLast?, error.span = numeral.span
  | .notAssignable => True
  | _ => error.span = (nextToken rest).span

/-- An error is still placed if more tokens stand in front of those consumed. -/
theorem ParseError.IsPlaced.append
    {error : ParseError}
    {taken rest : List Token}
    (h : error.IsPlaced taken rest)
    (before : List Token) :
    error.IsPlaced (before ++ taken) rest := by
  obtain ⟨cause, span⟩ := error
  cases cause with
  | malformedNumber text =>
      obtain ⟨numeral, hnumeral, hspan⟩ := h
      refine ⟨numeral, ?_, hspan⟩
      rw [List.getLast?_append, Option.mem_def.mp hnumeral]
      rfl
  | _ => exact h

namespace Outcome

variable {α : Type}
variable {tokens tail tail' : List Token}

/-- Tokens are taken from the front, and an error is placed where the parser stopped. -/
def Consumes (tokens : List Token) : Outcome α → Prop
  | .ok _ rest => rest <:+ tokens
  | .fail error rest => ∃ taken, tokens = taken ++ rest ∧ error.IsPlaced taken rest

/-- What is consumed may have more tokens in front of it. -/
theorem Consumes.append
    {outcome : Outcome α}
    (h : outcome.Consumes tokens)
    (before : List Token) :
    outcome.Consumes (before ++ tokens) := by
  cases outcome with
  | ok value rest => exact h.trans (List.suffix_append before tokens)
  | fail error rest =>
      obtain ⟨taken, rfl, hplaced⟩ := h
      exact ⟨before ++ taken, (List.append_assoc ..).symm, hplaced.append before⟩

/-- No token in front of `tail` is left, and no error is about one. -/
def Beyond (tail : List Token) : Outcome α → Prop
  | .ok _ rest => rest.length ≤ tail.length
  | .fail error rest =>
      rest.length ≤ tail.length ∧ (rest.length = tail.length → ¬ error.IsMalformed)

/-- Whatever starts behind the common tokens does not come back. -/
theorem Consumes.beyond
    {outcome : Outcome α}
    (h : outcome.Consumes tokens)
    (hshort : tokens.length ≤ tail.length) :
    outcome.Beyond tail := by
  cases outcome with
  | ok value rest => exact Nat.le_trans h.length_le hshort
  | fail error rest =>
      obtain ⟨taken, rfl, hplaced⟩ := h
      rw [List.length_append] at hshort
      refine ⟨by omega, ?_⟩
      rintro hlength ⟨text, htext⟩
      obtain rfl : taken = [] := List.length_eq_zero_iff.mp (by omega)
      rw [ParseError.IsPlaced, htext] at hplaced
      obtain ⟨numeral, hnumeral, -⟩ := hplaced
      cases hnumeral

/-- How a run in front of `tail'` ends, if one in front of `tail` ends in the given way. -/
inductive Local (tail tail' : List Token) : Outcome α → Outcome α → Prop
  /-- The first run is out of the common tokens, and the second one may do as it likes. -/
  | beyond {outcome other : Outcome α} (h : outcome.Beyond tail) : Local tail tail' outcome other
  | ok (value : α) (token : Token) (ahead : List Token) :
      Local tail tail' (.ok value (token :: ahead ++ tail)) (.ok value (token :: ahead ++ tail'))
  | fail (error : ParseError) (token : Token) (ahead : List Token) :
      Local tail tail' (.fail error (token :: ahead ++ tail))
        (.fail error (token :: ahead ++ tail'))
  /-- The numeral is the last common token. -/
  | malformed {error : ParseError} (h : error.IsMalformed) :
      Local tail tail' (.fail error tail) (.fail error tail')
  /-- A value is refused whose name is the last common token. -/
  | refused {error other : ParseError} {name : Token} {rest : List Token}
      (hdeep : error.IsTooDeep) (hname : name.kind = .name) :
      Local tail tail' (.fail error (name :: tail)) (.fail other rest)

end Outcome

namespace Parser

/-- The parsers do the same with what they see of the tokens in front of `tail` and `tail'`. -/
structure Local
    {α : Type}
    (tail tail' : List Token)
    (front : Kind → Prop)
    (first second : Parser α) : Prop where
  consumes : ∀ tokens, front (nextToken tokens).kind → (first tokens).Consumes tokens
  both : ∀ token ahead, front token.kind →
    (first (token :: ahead ++ tail)).Local tail tail' (second (token :: ahead ++ tail'))

section Rules

variable {α β : Type}
variable {tail tail' : List Token}
variable {front : Kind → Prop}

theorem Local.weaken
    {first second : Parser α}
    (h : Local tail tail' anyKind first second) :
    Local tail tail' front first second :=
  ⟨fun tokens _ => h.consumes tokens trivial, fun token ahead _ => h.both token ahead trivial⟩

theorem Local.pure (value : α) :
    Local tail tail' front (Pure.pure value) (Pure.pure value) :=
  ⟨fun tokens _ => List.suffix_refl tokens, fun token ahead _ => .ok value token ahead⟩

/-- From the last common token on. -/
theorem Local.beyond
    {first second : Parser α}
    (h : Local tail tail' anyKind first second)
    {tokens : List Token}
    (hshort : tokens.length ≤ tail.length) :
    (first tokens).Beyond tail :=
  (h.consumes tokens trivial).beyond hshort

/-- Two parsers in a row are local if both are: the second one has what the first one left. -/
theorem Local.bind
    {first second : Parser α}
    {next next' : α → Parser β}
    (h : Local tail tail' front first second)
    (hnext : ∀ value, Local tail tail' anyKind (next value) (next' value)) :
    Local tail tail' front (first >>= next) (second >>= next') where
  consumes tokens hfront := by
    have hfirst := h.consumes tokens hfront
    change Outcome.Consumes tokens (Parser.bind first next tokens)
    unfold Parser.bind
    revert hfirst
    cases first tokens with
    | fail error rest => exact id
    | ok value rest =>
        rintro ⟨taken, rfl⟩
        exact ((hnext value).consumes rest trivial).append taken
  both token ahead hfront := by
    have hfirst := h.both token ahead hfront
    change Outcome.Local tail tail' (Parser.bind first next (token :: ahead ++ tail))
      (Parser.bind second next' (token :: ahead ++ tail'))
    unfold Parser.bind
    revert hfirst
    generalize first (token :: ahead ++ tail) = outcome
    generalize second (token :: ahead ++ tail') = other
    intro hfirst
    cases hfirst with
    | beyond hbeyond =>
        refine .beyond ?_
        cases outcome with
        | ok value rest => exact (hnext value).beyond hbeyond
        | fail error rest => exact hbeyond
    | ok value token ahead => exact (hnext value).both token ahead trivial
    | fail error token ahead => exact .fail error token ahead
    | malformed hmalformed => exact .malformed hmalformed
    | refused hdeep hname => exact .refused hdeep hname

/-! ## Looking at tokens -/

theorem local_peekKind_bind
    {next next' : Kind → Parser β}
    (h : ∀ kind, front kind → Local tail tail' (· = kind) (next kind) (next' kind)) :
    Local tail tail' front (peekKind >>= next) (peekKind >>= next') where
  consumes tokens hfront := (h _ hfront).consumes tokens rfl
  both token ahead hfront := (h token.kind hfront).both token ahead rfl

theorem local_peek_bind
    {next next' : Token → Parser β}
    (h : ∀ token, Local tail tail' front (next token) (next' token)) :
    Local tail tail' front (peek >>= next) (peek >>= next') where
  consumes tokens hfront := (h (nextToken tokens)).consumes tokens hfront
  both token ahead hfront := (h token).both token ahead hfront

/-! ## Failing and consuming -/

theorem local_notAssignable (span : Span) :
    Local tail tail' front (fail .notAssignable span : Parser α) (fail .notAssignable span) where
  consumes _ _ := ⟨[], rfl, trivial⟩
  both token ahead _ := .fail _ token ahead

/-- An unexpected token is the next one, so the error is placed at it. -/
theorem local_unexpected (expected : String) :
    Local tail tail' front (unexpected expected : Parser α) (unexpected expected) where
  consumes tokens _ := by
    refine ⟨[], rfl, ?_⟩
    split <;> exact rfl
  both token ahead _ := .fail _ token ahead

theorem not_isEof_of_kind
    {token : Token}
    {kind : Kind}
    (htoken : token.kind = kind)
    (hkind : kind ≠ .eof) :
    ¬ token.isEof = true := by
  rw [Token.isEof, htoken]
  exact fun heof => hkind (beq_iff_eq.mp heof)

/-- The end of the source stays in front of the parser. -/
theorem advance_of_eof
    {token : Token}
    (heof : token.isEof = true)
    (rest : List Token) :
    advance (token :: rest) = .ok token (token :: rest) := by
  rw [advance, if_pos heof]

theorem advance_of_not_eof
    {token : Token}
    (heof : ¬ token.isEof = true)
    (rest : List Token) :
    advance (token :: rest) = .ok token rest := by
  rw [advance, if_neg heof]

/-- Consuming a token is local; the end of the source is not consumed. -/
theorem local_advance_bind
    {next next' : Token → Parser β}
    (h : ∀ token, Local tail tail' anyKind (next token) (next' token)) :
    Local tail tail' front (advance >>= next) (advance >>= next') where
  consumes tokens _ := by
    cases tokens with
    | nil => exact (h (nextToken [])).consumes [] trivial
    | cons token tokens =>
        by_cases heof : token.isEof = true
        · rw [bind_of_ok (advance_of_eof heof tokens)]
          exact (h token).consumes (token :: tokens) trivial
        · rw [bind_of_ok (advance_of_not_eof heof tokens)]
          exact ((h token).consumes tokens trivial).append [token]
  both token ahead _ := by
    rw [List.cons_append, List.cons_append]
    by_cases heof : token.isEof = true
    · rw [bind_of_ok (advance_of_eof heof _), bind_of_ok (advance_of_eof heof _)]
      exact (h token).both token ahead trivial
    · rw [bind_of_ok (advance_of_not_eof heof _), bind_of_ok (advance_of_not_eof heof _)]
      cases ahead with
      | nil => exact .beyond ((h token).beyond (Nat.le_refl _))
      | cons second ahead => exact (h token).both second ahead trivial

/-- A numeral is consumed before it is found to have no value. -/
theorem local_numeral :
    Local tail tail' (· = .number) Grammar.numeral Grammar.numeral where
  consumes tokens hfront := by
    obtain ⟨token, rest, rfl, -, hadvance⟩ := advance_of_kind (by decide) hfront
    change Outcome.Consumes _ ((advance >>= _) (token :: rest))
    rw [bind_of_ok hadvance]
    cases Number.ofNumeral? token.text.toList with
    | some number => exact List.suffix_cons token rest
    | none => exact ⟨[token], rfl, token, rfl, rfl⟩
  both token ahead hfront := by
    have heof := not_isEof_of_kind hfront (by decide)
    change Outcome.Local _ _ ((advance >>= _) (token :: (ahead ++ tail)))
      ((advance >>= _) (token :: (ahead ++ tail')))
    rw [bind_of_ok (advance_of_not_eof heof _), bind_of_ok (advance_of_not_eof heof _)]
    cases Number.ofNumeral? token.text.toList with
    | some number =>
        cases ahead with
        | nil => exact .beyond (Nat.le_refl _)
        | cons second ahead => exact .ok _ second ahead
    | none =>
        cases ahead with
        | nil => exact .malformed ⟨_, rfl⟩
        | cons second ahead => exact .fail _ second ahead

/-! ## Repetition -/

/-- What every round does, the rounds do together. -/
theorem consumes_loop
    {step : α → Parser (Step α)}
    (hstep : ∀ value tokens, (step value tokens).Consumes tokens)
    (value : α)
    (tokens : List Token) :
    (loop step value tokens).Consumes tokens := by
  induction hlength : tokens.length using Nat.strongRecOn generalizing tokens value with
  | _ length ih =>
      have hround := hstep value tokens
      rw [loop]
      revert hround
      cases step value tokens with
      | fail error rest => exact id
      | ok result rest =>
          cases result with
          | done result => exact id
          | again result =>
              rintro ⟨taken, rfl⟩
              simp only
              split
              · rename_i hless
                exact (ih rest.length (hlength ▸ hless) result rest rfl).append taken
              · exact List.suffix_append taken rest

/-- A loop is local if each of its rounds is. -/
theorem local_loop
    {step step' : α → Parser (Step α)}
    (hstep : ∀ value, Local tail tail' anyKind (step value) (step' value))
    (value : α) :
    Local tail tail' front (loop step value) (loop step' value) := by
  have hconsumes := consumes_loop fun value tokens => (hstep value).consumes tokens trivial
  refine ⟨fun tokens _ => hconsumes value tokens, fun token ahead hfront => ?_⟩
  clear hfront
  induction hlength : (token :: ahead).length using Nat.strongRecOn
    generalizing token ahead value with
  | _ length ih =>
      have hround := (hstep value).both token ahead trivial
      rw [loop, loop]
      revert hround
      generalize step value (token :: ahead ++ tail) = outcome
      generalize step' value (token :: ahead ++ tail') = other
      intro hround
      cases hround with
      | beyond hbeyond =>
          refine .beyond ?_
          cases outcome with
          | fail error rest => exact hbeyond
          | ok result rest =>
              cases result with
              | done result => exact hbeyond
              | again result =>
                  simp only
                  split
                  · exact (hconsumes result rest).beyond hbeyond
                  · exact hbeyond
      | ok result token' ahead' =>
          cases result with
          | done result => exact .ok result token' ahead'
          | again result =>
              simp only [List.length_append, Nat.add_lt_add_iff_right]
              by_cases hless : (token' :: ahead').length < (token :: ahead).length
              · rw [if_pos hless, if_pos hless]
                exact ih _ (hlength ▸ hless) result token' ahead' rfl
              · rw [if_neg hless, if_neg hless]
                exact .ok result token' ahead'
      | fail error token ahead => exact .fail error token ahead
      | malformed hmalformed => exact .malformed hmalformed
      | refused hdeep hname => exact .refused hdeep hname

end Rules
end Parser

/-- What a parser does with the common tokens does not depend on how they go on. -/
def Simulation.ofTails (tail tail' : List Token) : Simulation Parser Parser where
  same := Eq
  Agree _ _ := Parser.Local tail tail'
  text_eq := congrArg Token.text
  weaken := Parser.Local.weaken
  narrow h _ := h
  widen h _ := h
  pure value _ := .pure value
  bind := Parser.Local.bind
  peekKind_bind := Parser.local_peekKind_bind
  peek_bind h := Parser.local_peek_bind fun token => h token token rfl
  unexpected := Parser.local_unexpected
  notAssignable := by
    rintro α k n token _ rfl
    exact Parser.local_notAssignable _
  numeral := Parser.local_numeral
  advance_bind _ h := Parser.local_advance_bind fun token => h token token rfl
  advance_any_bind h := Parser.local_advance_bind fun token => h token token rfl
  loop := Parser.local_loop

/-! ## Expressions that start with a name -/

namespace Parser

variable {token : Token}

theorem peekKind_cons (token : Token) (rest : List Token) :
    peekKind (token :: rest) = .ok token.kind (token :: rest) :=
  rfl

theorem name_of_kind
    (hname : token.kind = .name)
    (rest : List Token) :
    (name : Parser Name) (token :: rest) = .ok token.text rest := by
  have heof := not_isEof_of_kind hname (by decide)
  change (peekKind >>= _) (token :: rest) = _
  rw [bind_of_ok (peekKind_cons token rest), if_pos hname]
  change (advance >>= _) (token :: rest) = _
  rw [bind_of_ok (advance_of_not_eof heof rest)]
  rfl

end Parser

namespace Grammar

open LuaView.Parser

variable {token : Token}

theorem primary_of_name
    (hname : token.kind = .name)
    (deeper : Descent)
    (rest : List Token) :
    (primary deeper : Parser Expr) (token :: rest) = .ok (.name token.text) rest := by
  change (peekKind >>= _) (token :: rest) = _
  rw [bind_of_ok (peekKind_cons token rest), hname]
  change ((name : Parser Name) >>= _) (token :: rest) = _
  rw [bind_of_ok (name_of_kind hname rest)]
  rfl

/-- Behind a name there are suffixes and operators. -/
theorem expression_of_name
    (hname : token.kind = .name)
    (deeper : Descent)
    (least : Nat)
    (rest : List Token) :
    (expression deeper least : Parser Expr) (token :: rest) =
      ((TokenReader.loop (suffixStep deeper) (.name token.text) : Parser Expr) >>=
        TokenReader.loop (operatorStep deeper least)) rest := by
  have hoperand : (operand deeper : Parser Expr) (token :: rest) =
      (TokenReader.loop (suffixStep deeper) (.name token.text) : Parser Expr) rest := by
    change (peekKind >>= _) (token :: rest) = _
    rw [bind_of_ok (peekKind_cons token rest), hname]
    change (peekKind >>= _) (token :: rest) = _
    rw [bind_of_ok (peekKind_cons token rest), hname]
    change ((primary deeper : Parser Expr) >>= _) (token :: rest) = _
    rw [bind_of_ok (primary_of_name hname deeper rest)]
  change Parser.bind (operand deeper) _ (token :: rest) = Parser.bind _ _ rest
  rw [Parser.bind, Parser.bind, hoperand]

/-! ## Entries that start with a name -/

/-- The entry `name = value`, if it is one. -/
def namedField (deeper : Descent) : Parser Field := do
  let key ← name
  let _ ← advance
  let value ← deeper.expression
  return .named key value

def positionalField (deeper : Descent) : Parser Field := do
  return .positional (← deeper.expression)

/-- The second token decides between an entry with a name as its key and one without a key. -/
theorem fieldAtName_of_second
    (deeper : Descent)
    {tokens : List Token}
    {kind : Kind}
    (h : peekSecondKind tokens = .ok kind tokens) :
    (fieldAtName deeper : Parser Field) tokens =
      if kind = .symbol .eq then namedField deeper tokens else positionalField deeper tokens := by
  change (peekSecondKind >>= _) tokens = _
  rw [bind_of_ok h]
  split
  · rfl
  · rfl

section Local

variable {tail tail' : List Token}
variable {front : Kind → Prop}
variable {deeper : Descent}

/-- What stands behind the name of a key is local. -/
theorem local_keyed
    (h : ∀ asked, Local tail tail' anyKind (deeper asked) (deeper asked))
    (key : Name) :
    Local tail tail' front
      (advance >>= fun _ => deeper.expression >>= fun value => pure (Field.named key value))
      (advance >>= fun _ => deeper.expression >>= fun value => pure (Field.named key value)) :=
  local_advance_bind fun _ => (h _).bind fun _ => .pure _

/-- An entry with a name as its key is local. -/
theorem local_namedField
    (h : ∀ asked, Local tail tail' anyKind (deeper asked) (deeper asked)) :
    Local tail tail' front (namedField deeper) (namedField deeper) := by
  have hname : (Simulation.ofTails tail tail').Agree 0 0 front (name : Parser Name) name :=
    agree_name
  exact Local.bind hname (local_keyed h)

/-- An entry without a key is local. -/
theorem local_positionalField
    (h : ∀ asked, Local tail tail' anyKind (deeper asked) (deeper asked)) :
    Local tail tail' front (positionalField deeper) (positionalField deeper) :=
  (h _).weaken.bind fun _ => .pure _

/-- Deeper phrases are refused. -/
def Refuses (deeper : Descent) : Prop :=
  ∀ asked tokens, ∃ error : ParseError, error.IsTooDeep ∧ deeper asked tokens = .fail error tokens

/-- An expression in front of `tail` that starts with a name leaves the name behind. -/
def PassesName (deeper : Descent) (tail : List Token) : Prop :=
  ∀ token : Token, token.kind = .name → (deeper.expression (token :: tail)).Beyond tail

/-- Where deeper phrases are refused, an entry with a key fails. -/
theorem namedField_of_refuses
    (h : Refuses deeper)
    {token : Token}
    (hname : token.kind = .name)
    (rest : List Token) :
    ∃ error last, namedField deeper (token :: rest) = .fail error last := by
  change ∃ error last, ((name : Parser Name) >>= _) (token :: rest) = .fail error last
  rw [bind_of_ok (name_of_kind hname rest)]
  obtain ⟨sign, last, hsign⟩ : ∃ sign last, advance rest = .ok sign last := by
    cases rest with
    | nil => exact ⟨_, _, rfl⟩
    | cons sign rest => exact ⟨_, _, rfl⟩
  rw [bind_of_ok hsign]
  obtain ⟨error, -, hrefused⟩ := h (.expression BinaryOp.or.precedence) last
  refine ⟨error, last, ?_⟩
  change Parser.bind (deeper (.expression BinaryOp.or.precedence)) _ last = _
  rw [Parser.bind, hrefused]

/-- Where deeper phrases are refused, an entry without a key fails for its depth. -/
theorem positionalField_of_refuses (h : Refuses deeper) (tokens : List Token) :
    ∃ error : ParseError, error.IsTooDeep ∧ positionalField deeper tokens = .fail error tokens := by
  obtain ⟨error, hdeep, hrefused⟩ := h (.expression BinaryOp.or.precedence) tokens
  refine ⟨error, hdeep, ?_⟩
  change Parser.bind (deeper (.expression BinaryOp.or.precedence)) _ _ = _
  rw [Parser.bind, hrefused]

/-- An entry with a key needs a token behind its name. -/
theorem beyond_namedField
    (h : ∀ asked, Local tail tail' anyKind (deeper asked) (deeper asked))
    {token : Token}
    (hname : token.kind = .name) :
    (namedField deeper (token :: tail)).Beyond tail := by
  have hkeyed : Local tail tail' anyKind _ _ := local_keyed h token.text
  change Outcome.Beyond tail (((name : Parser Name) >>= _) (token :: tail))
  rw [bind_of_ok (name_of_kind hname tail)]
  exact hkeyed.beyond (Nat.le_refl _)

/-- An entry without a key goes beyond its name if expressions do. -/
theorem beyond_positionalField
    (h : PassesName deeper tail)
    {token : Token}
    (hname : token.kind = .name) :
    (positionalField deeper (token :: tail)).Beyond tail := by
  have hbeyond := h token hname
  change Outcome.Beyond tail (Parser.bind deeper.expression _ (token :: tail))
  unfold Parser.bind
  revert hbeyond
  cases deeper.expression (token :: tail) with
  | ok value rest => exact id
  | fail error rest => exact id

/-- The name is the last common token, so the runs may disagree on what stands behind it. -/
theorem local_fieldAtName_last
    (h : ∀ asked, Local tail tail' anyKind (deeper asked) (deeper asked))
    (hvalue : Refuses deeper ∨ PassesName deeper tail)
    {token : Token}
    (hname : token.kind = .name) :
    ((fieldAtName deeper : Parser Field) (token :: tail)).Local tail tail'
      ((fieldAtName deeper : Parser Field) (token :: tail')) := by
  obtain ⟨kind, hkind⟩ := exists_peekSecondKind (token :: tail)
  obtain ⟨kind', hkind'⟩ := exists_peekSecondKind (token :: tail')
  rw [fieldAtName_of_second deeper hkind, fieldAtName_of_second deeper hkind']
  by_cases hsign : kind = .symbol .eq
  · rw [if_pos hsign]
    exact .beyond (beyond_namedField h hname)
  · rw [if_neg hsign]
    obtain hrefuses | hpasses := hvalue
    · by_cases hsign' : kind' = .symbol .eq
      · obtain ⟨error, hdeep, hrefused⟩ := positionalField_of_refuses hrefuses (token :: tail)
        obtain ⟨other, rest, hother⟩ := namedField_of_refuses hrefuses hname tail'
        rw [if_pos hsign', hrefused, hother]
        exact .refused hdeep hname
      · have hpositional : Local tail tail' (· = .name) _ _ := local_positionalField h
        rw [if_neg hsign']
        exact hpositional.both token [] hname
    · exact .beyond (beyond_positionalField hpasses hname)

/-- The parser sees one token more than the name. -/
theorem local_fieldAtName
    (h : ∀ asked, Local tail tail' anyKind (deeper asked) (deeper asked))
    (hvalue : Refuses deeper ∨ PassesName deeper tail) :
    Local tail tail' (· = .name) (fieldAtName deeper) (fieldAtName deeper) := by
  have hnamed : Local tail tail' (· = .name) (namedField deeper) (namedField deeper) :=
    local_namedField h
  have hpositional : Local tail tail' (· = .name) (positionalField deeper)
      (positionalField deeper) := local_positionalField h
  refine ⟨fun tokens hfront => ?_, fun token ahead hname => ?_⟩
  · obtain ⟨kind, hkind⟩ := exists_peekSecondKind tokens
    rw [fieldAtName_of_second deeper hkind]
    split
    · exact hnamed.consumes tokens hfront
    · exact hpositional.consumes tokens hfront
  · cases ahead with
    | cons second ahead =>
        have hsecond (rest : List Token) : peekSecondKind (token :: second :: ahead ++ rest) =
            .ok second.kind (token :: second :: ahead ++ rest) := rfl
        rw [fieldAtName_of_second deeper (hsecond tail),
          fieldAtName_of_second deeper (hsecond tail')]
        split
        · exact hnamed.both token (second :: ahead) hname
        · exact hpositional.both token (second :: ahead) hname
    | nil => exact local_fieldAtName_last h hvalue hname

/-- What follows the name is read in front of `tail`, wherever that leads. -/
theorem beyond_expression
    (h : (Simulation.ofTails tail tail').Descends 0 deeper deeper)
    {token : Token}
    (hname : token.kind = .name)
    (least : Nat) :
    ((expression deeper least : Parser Expr) (token :: tail)).Beyond tail := by
  have hbehind : Local tail tail' anyKind _ _ :=
    (agree_suffixes h (.name token.text)).bind (agree_operators h least)
  rw [expression_of_name hname]
  exact hbehind.beyond (Nat.le_refl _)

end Local

/-! ## Phrases and programs -/

/-- All phrases are local, by induction on the levels that are left. -/
theorem descends_local (tail tail' : List Token) (limit budget : Nat) :
    (Simulation.ofTails tail tail').Descends 0 (phrase limit budget) (phrase limit budget) := by
  induction budget with
  | zero =>
      have hphrases : ∀ asked,
          Local tail tail' anyKind (phrase limit 0 asked) (phrase limit 0 asked) := fun _ =>
        ⟨fun _ _ => ⟨[], rfl, rfl⟩, fun token ahead _ => .fail _ token ahead⟩
      have hrefuses : Refuses (fun asked => phrase limit 0 asked) :=
        fun _ _ => ⟨_, ⟨limit, rfl⟩, rfl⟩
      exact ⟨hphrases, local_fieldAtName hphrases (.inl hrefuses)⟩
  | succ budget ih =>
      have hphrases : ∀ asked, Local tail tail' anyKind (phrase limit (budget + 1) asked)
          (phrase limit (budget + 1) asked) := by
        intro asked
        cases asked with
        | block => exact agree_blockAt ih
        | expression least => exact agree_expressionAt ih least
      have hpasses : PassesName (fun asked => phrase limit (budget + 1) asked) tail :=
        fun token hname => beyond_expression ih hname _
      exact ⟨hphrases, local_fieldAtName hphrases (.inr hpasses)⟩

/-- A program does not depend on the tokens behind those it looks at. -/
theorem local_chunk (tail tail' : List Token) (limit : Nat) :
    Local tail tail' anyKind (chunk limit) (chunk limit) :=
  agree_program (descends_local tail tail' limit limit)

end Grammar

end LuaView
