import LuaView.Grammar.Machine
import LuaView.Proofs.Parsing.Acceptance
import LuaView.Proofs.Parsing.Comparison

/-!
# A machine parses as a session does

A machine is related to a session on the tokens from its place on.  Whatever a reader of tokens
does, both do the same, and the machine is as deep behind it as before.  This is a simulation for
every depth, and one level of nesting leads from each depth to the next one.

With the results of the machine the simulation keeps what holds of its places: they are inside the
list and the limit, and never go back.
-/

namespace LuaView

open LuaView.Parser (anyKind Step)

/-- The index of the first end of the source. -/
def Token.endIndex (tokens : List Token) : Nat :=
  tokens.findIdx Token.isEof

/-- The end index of a closed list is inside the list. -/
theorem Token.Closed.endIndex_lt
    {tokens : List Token}
    (h : Token.Closed tokens) :
    Token.endIndex tokens < tokens.length := by
  obtain ⟨last, hlast, heof⟩ := h
  exact List.findIdx_lt_length.mpr ⟨last, List.mem_of_getLast? hlast, beq_iff_eq.mpr heof⟩

namespace Machine

/-- The tokens from the place of the machine on. -/
def rest (machine : Machine) : List Token :=
  machine.tokens.drop machine.place.current

/-- What a computation on a machine amounts to for a parser of the tokens that are left. -/
def outcome {α : Type} : Except ParseError α × Machine → Outcome α
  | (.ok value, machine) => .ok value machine.rest
  | (.error error, machine) => .fail error machine.rest

theorem outcome_of_error
    {α : Type}
    {result : Except ParseError α × Machine}
    {error : ParseError}
    (h : result.1 = .error error) :
    outcome result = .fail error result.2.rest := by
  rcases result with ⟨other | value, machine⟩
  · obtain rfl : other = error := Except.error.inj h
    rfl
  · cases h

theorem outcome_eq_ok
    {α : Type}
    {result : Except ParseError α × Machine}
    {value : α}
    {rest : List Token}
    (h : outcome result = .ok value rest) :
    result.1 = .ok value ∧ result.2.rest = rest := by
  rcases result with ⟨error | other, machine⟩
  · cases h
  · injection h with hvalue hrest
    exact ⟨congrArg Except.ok hvalue, hrest⟩

theorem outcome_eq_fail
    {α : Type}
    {result : Except ParseError α × Machine}
    {error : ParseError}
    {rest : List Token}
    (h : outcome result = .fail error rest) :
    result.1 = .error error ∧ result.2.rest = rest := by
  rcases result with ⟨other | value, machine⟩
  · injection h with herror hrest
    exact ⟨congrArg Except.error herror, hrest⟩
  · cases h

/-- All places are within the limit and not behind the first end of the source, and a later one is
never in front of an earlier one. -/
structure Orderly (machine : Machine) : Prop where
  levels : ∀ place ∈ machine.places, place.depth ≤ machine.limit
  inside : ∀ place ∈ machine.places, place.current ≤ Token.endIndex machine.tokens
  forward : machine.places.Pairwise fun later earlier => earlier.current ≤ later.current

/-- A machine stays orderly if it moves forward, not past the end and not above the limit. -/
theorem Orderly.moveTo
    {machine : Machine}
    (h : machine.Orderly)
    {place : Place}
    (hlevel : place.depth ≤ machine.limit)
    (hinside : place.current ≤ Token.endIndex machine.tokens)
    (hforward : machine.place.current ≤ place.current) :
    (machine.moveTo place).Orderly where
  levels := List.forall_mem_cons.mpr ⟨hlevel, h.levels⟩
  inside := List.forall_mem_cons.mpr ⟨hinside, h.inside⟩
  forward := by
    obtain ⟨hplace, -⟩ := List.pairwise_cons.mp h.forward
    refine List.pairwise_cons.mpr ⟨List.forall_mem_cons.mpr ⟨hforward, fun earlier hearlier => ?_⟩,
      h.forward⟩
    exact Nat.le_trans (hplace earlier hearlier) hforward

/-- The machine was `origin` before, and is now at a depth. -/
structure Continues (origin : Machine) (depth : Nat) (machine : Machine) : Prop where
  tokens_eq : machine.tokens = origin.tokens
  limit_eq : machine.limit = origin.limit
  depth_eq : machine.place.depth = depth
  closed : Token.Closed machine.tokens
  orderly : machine.Orderly
  history : origin.places <:+ machine.places

namespace Continues

variable {origin machine : Machine}
variable {depth : Nat}

theorem le_endIndex (h : Continues origin depth machine) :
    machine.place.current ≤ Token.endIndex machine.tokens :=
  h.orderly.inside machine.place List.mem_cons_self

theorem depth_le (h : Continues origin depth machine) : depth ≤ origin.limit := by
  rw [← h.depth_eq, ← h.limit_eq]
  exact h.orderly.levels machine.place List.mem_cons_self

/-- There is a token at the place of the machine. -/
theorem current_lt (h : Continues origin depth machine) :
    machine.place.current < machine.tokens.length :=
  Nat.lt_of_le_of_lt h.le_endIndex h.closed.endIndex_lt

/-- A move forward continues a machine, at the depth that is moved to. -/
theorem moveTo
    (h : Continues origin depth machine)
    {place : Place}
    {level : Nat}
    (hplace : place.depth = level)
    (hlevel : level ≤ origin.limit)
    (hinside : place.current ≤ Token.endIndex machine.tokens)
    (hforward : machine.place.current ≤ place.current) :
    Continues origin level (machine.moveTo place) where
  tokens_eq := h.tokens_eq
  limit_eq := h.limit_eq
  depth_eq := hplace
  closed := h.closed
  orderly := by
    refine h.orderly.moveTo ?_ hinside hforward
    rw [hplace, h.limit_eq]
    exact hlevel
  history := h.history.trans (List.suffix_cons place machine.places)

/-- One level deeper. -/
theorem enter
    (h : Continues origin depth machine)
    (hroom : depth < origin.limit) :
    Continues origin (depth + 1) machine.enter :=
  h.moveTo (congrArg Nat.succ h.depth_eq) hroom h.le_endIndex (Nat.le_refl _)

/-- And back. -/
theorem leave
    (h : Continues origin (depth + 1) machine) :
    Continues origin depth machine.leave := by
  have hdepth : machine.place.depth - 1 = depth := by rw [h.depth_eq, Nat.add_sub_cancel]
  exact h.moveTo hdepth (Nat.le_of_succ_le h.depth_le) h.le_endIndex (Nat.le_refl _)

/-! ## Reading tokens -/

theorem tokenAt_eq
    {index : Nat}
    (hindex : index < machine.tokens.length) :
    machine.tokenAt index = machine.tokens[index] := by
  have hmin : min index (machine.tokens.length - 1) = index := Nat.min_eq_left (by omega)
  rw [tokenAt, hmin, List.getD_eq_getElem?_getD, List.getElem?_eq_getElem hindex, Option.getD_some]

theorem drop_eq_cons
    {index : Nat}
    (hindex : index < machine.tokens.length) :
    machine.tokens.drop index = machine.tokenAt index :: machine.tokens.drop (index + 1) := by
  rw [List.drop_eq_getElem_cons hindex, tokenAt_eq hindex]

/-- What is left begins with the next token. -/
theorem rest_eq_cons (h : Continues origin depth machine) :
    machine.rest = machine.next :: machine.tokens.drop (machine.place.current + 1) :=
  drop_eq_cons h.current_lt

/-- The machine and the parser of the tokens that are left have the same next token. -/
theorem next_eq (h : Continues origin depth machine) : machine.next = nextToken machine.rest := by
  rw [h.rest_eq_cons]
  rfl

/-- The first end of the source is never passed. -/
theorem lt_endIndex
    (h : Continues origin depth machine)
    (hnext : machine.next.isEof = false) :
    machine.place.current < Token.endIndex machine.tokens := by
  refine Nat.lt_of_le_of_ne h.le_endIndex fun heq => ?_
  have hlt := h.closed.endIndex_lt
  have heof : (machine.tokens[Token.endIndex machine.tokens]).isEof = true :=
    List.findIdx_getElem
  rw [← tokenAt_eq hlt, ← heq] at heof
  exact Bool.noConfusion (hnext.symm.trans heof)

/-- Consuming a token continues the machine at the same depth. -/
theorem advance (h : Continues origin depth machine) :
    Continues origin depth machine.advance := by
  unfold Machine.advance
  split
  · exact h
  · rename_i hnext
    exact h.moveTo h.depth_eq h.depth_le (h.lt_endIndex (Bool.not_eq_true _ ▸ hnext))
      (Nat.le_succ _)

/-- The machine consumes what a parser does. -/
theorem advance_rest (h : Continues origin depth machine) :
    Parser.advance machine.rest = .ok machine.next machine.advance.rest := by
  rw [h.rest_eq_cons, Machine.advance, Parser.advance]
  split
  · rw [h.rest_eq_cons]
  · rfl

/-- The machine sees the same second token as the parser of the tokens that are left. -/
theorem second_rest (h : Continues origin depth machine) :
    Parser.peekSecondKind machine.rest =
      .ok (machine.tokenAt (machine.place.current + 1)).kind machine.rest := by
  rw [h.rest_eq_cons]
  by_cases hsecond : machine.place.current + 1 < machine.tokens.length
  · rw [drop_eq_cons hsecond]
    rfl
  · have hlast : machine.tokenAt (machine.place.current + 1) = machine.next := by
      have hlt := h.current_lt
      rw [next, tokenAt, tokenAt, Nat.min_eq_right (by omega), Nat.min_eq_left (by omega)]
      congr 1
      omega
    rw [List.drop_eq_nil_of_le (Nat.le_of_not_lt hsecond), hlast]
    rfl

end Continues
end Machine

namespace Act

variable {α β : Type}

theorem bind_apply (act : Act α) (next : α → Act β) (machine : Machine) :
    (act >>= next) machine =
      match act machine with
      | (.ok value, after) => next value after
      | (.error error, after) => (.error error, after) := by
  change StateT.bind (ExceptT.run act) (ExceptT.bindCont next) machine = _
  rw [StateT.bind]
  change ExceptT.bindCont next (act machine).1 (act machine).2 = _
  rcases act machine with ⟨_ | _, after⟩
  · rfl
  · rfl

/-- From wherever a machine is at a depth, the computation does what the parser does with the tokens
that are left, and the machine is at that depth again. -/
def Follows
    (origin : Machine)
    (depth : Nat)
    (front : Kind → Prop)
    (act : Act α)
    (parser : Parser α) : Prop :=
  ∀ machine, Machine.Continues origin depth machine → front machine.next.kind →
    Machine.outcome (act machine) = parser machine.rest ∧
      Machine.Continues origin depth (act machine).2

section Rules

variable {origin : Machine}
variable {depth : Nat}
variable {front : Kind → Prop}

theorem Follows.weaken
    {act : Act α}
    {parser : Parser α}
    (h : Follows origin depth anyKind act parser) :
    Follows origin depth front act parser :=
  fun machine hmachine _ => h machine hmachine trivial

theorem Follows.pure (value : α) :
    Follows origin depth front (Pure.pure value) (Pure.pure value) :=
  fun _ hmachine _ => ⟨rfl, hmachine⟩

/-- Two computations in a row follow two parsers in a row. -/
theorem Follows.bind
    {act : Act α}
    {parser : Parser α}
    {next : α → Act β}
    {next' : α → Parser β}
    (h : Follows origin depth front act parser)
    (hnext : ∀ value, Follows origin depth anyKind (next value) (next' value)) :
    Follows origin depth front (act >>= next) (parser >>= next') := by
  intro machine hmachine hfront
  obtain ⟨houtcome, hafter⟩ := h machine hmachine hfront
  change Machine.outcome ((act >>= next) machine) = Parser.bind parser next' machine.rest ∧ _
  rw [bind_apply, Parser.bind, ← houtcome]
  rcases hact : act machine with ⟨error | value, after⟩
  · rw [hact] at hafter
    exact ⟨rfl, hafter⟩
  · rw [hact] at hafter
    exact hnext value after hafter trivial

/-! ## Looking at tokens -/

theorem follows_peekKind_bind
    {next : Kind → Act β}
    {next' : Kind → Parser β}
    (h : ∀ kind, front kind → Follows origin depth (· = kind) (next kind) (next' kind)) :
    Follows origin depth front (TokenReader.peekKind >>= next) (Parser.peekKind >>= next') := by
  intro machine hmachine hfront
  have hkind := h machine.next.kind hfront machine hmachine rfl
  change Machine.outcome (next machine.next.kind machine) =
    next' (nextToken machine.rest).kind machine.rest ∧ _
  rw [← hmachine.next_eq]
  exact hkind

theorem follows_peek_bind
    {next : Token → Act β}
    {next' : Token → Parser β}
    (h : ∀ token, Follows origin depth front (next token) (next' token)) :
    Follows origin depth front (TokenReader.peek >>= next) (Parser.peek >>= next') := by
  intro machine hmachine hfront
  have htoken := h machine.next machine hmachine hfront
  change Machine.outcome (next machine.next machine) =
    next' (nextToken machine.rest) machine.rest ∧ _
  rw [← hmachine.next_eq]
  exact htoken

theorem follows_peekSecondKind_bind
    {next : Kind → Act β}
    {next' : Kind → Parser β}
    (h : ∀ kind, Follows origin depth front (next kind) (next' kind)) :
    Follows origin depth front (TokenReader.peekSecondKind >>= next)
      (Parser.peekSecondKind >>= next') := by
  intro machine hmachine hfront
  have hkind := h (machine.tokenAt (machine.place.current + 1)).kind machine hmachine hfront
  change Machine.outcome (next (machine.tokenAt (machine.place.current + 1)).kind machine) =
    Parser.bind Parser.peekSecondKind next' machine.rest ∧ _
  rw [Parser.bind, hmachine.second_rest]
  exact hkind

/-! ## Failing and consuming -/

theorem follows_fail (cause : ParseError.Cause) (span : Span) :
    Follows origin depth front (fail cause span : Act α) (Parser.fail cause span) :=
  fun _ hmachine _ => ⟨rfl, hmachine⟩

theorem follows_unexpected (expected : String) :
    Follows origin depth front (unexpected expected : Act α) (Parser.unexpected expected) := by
  intro machine hmachine _
  refine ⟨?_, hmachine⟩
  rw [Parser.unexpected, ← hmachine.next_eq]
  rfl

/-- The machine consumes the token that the parser takes off its list. -/
theorem follows_advance_bind
    {next : Token → Act β}
    {next' : Token → Parser β}
    (h : ∀ token, Follows origin depth anyKind (next token) (next' token)) :
    Follows origin depth front (TokenReader.advance >>= next) (Parser.advance >>= next') := by
  intro machine hmachine _
  have htoken := h machine.next machine.advance hmachine.advance trivial
  change Machine.outcome (next machine.next machine.advance) =
    Parser.bind Parser.advance next' machine.rest ∧ _
  rw [Parser.bind, hmachine.advance_rest]
  exact htoken

/-- A numeral without a value is the same error for both. -/
theorem follows_numeral :
    Follows origin depth front Grammar.numeral Grammar.numeral := by
  refine follows_advance_bind fun token => ?_
  split
  · exact .pure _
  · exact follows_fail _ _

/-! ## Repetition -/

/-- A loop of the machine follows the loop of the parser, by induction on the tokens left. -/
theorem follows_loop
    {step : α → Act (Step α)}
    {step' : α → Parser (Step α)}
    (hstep : ∀ value, Follows origin depth anyKind (step value) (step' value))
    (value : α) :
    Follows origin depth front (loop step value) (Parser.loop step' value) := by
  intro machine hmachine hfront
  clear hfront
  induction hleft : machine.left using Nat.strongRecOn generalizing machine value with
  | _ left ih =>
      obtain ⟨houtcome, hafter⟩ := hstep value machine hmachine trivial
      rw [loop, Parser.loop, ← houtcome]
      rcases hround : step value machine with ⟨error | ⟨result | result⟩, after⟩
      · rw [hround] at hafter
        exact ⟨rfl, hafter⟩
      · rw [hround] at hafter
        have hlength : ∀ machine : Machine, machine.rest.length = machine.left :=
          fun _ => List.length_drop ..
        simp only [Machine.outcome, hlength]
        by_cases hless : after.left < machine.left
        · rw [if_pos hless, if_pos hless]
          exact ih after.left (hleft ▸ hless) result after hafter rfl
        · rw [if_neg hless, if_neg hless]
          exact ⟨rfl, hafter⟩
      · rw [hround] at hafter
        exact ⟨rfl, hafter⟩

end Rules

/-- The machine from which others go on does at every depth what the parsers do. -/
def simulation (origin : Machine) (depth : Nat) : Simulation Act Parser where
  same := Eq
  Agree _ _ := Follows origin depth
  text_eq := congrArg Token.text
  weaken := Follows.weaken
  narrow h _ := h
  widen h _ := h
  pure value _ := .pure value
  bind := Follows.bind
  peekKind_bind := follows_peekKind_bind
  peek_bind h := follows_peek_bind fun token => h token token rfl
  unexpected := follows_unexpected
  notAssignable := by
    rintro α k n token _ rfl
    exact follows_fail _ _
  numeral := follows_numeral
  advance_bind _ h := follows_advance_bind fun token => (h token token rfl)
  advance_any_bind h := follows_advance_bind fun token => (h token token rfl)
  loop := follows_loop

/-! ## Levels -/

section Levels

variable {origin : Machine}
variable {depth : Nat}
variable {front : Kind → Prop}

/-- Where the limit is reached, both refuse at the next token. -/
theorem follows_refuse :
    Follows origin depth front (refuse : Act α) fun tokens =>
      .fail ⟨.tooDeep origin.limit, (nextToken tokens).span⟩ tokens := by
  intro machine hmachine _
  refine ⟨?_, hmachine⟩
  beta_reduce
  rw [← hmachine.next_eq, ← hmachine.limit_eq]
  rfl

/-- At the limit a deeper phrase is refused. -/
theorem nested_of_le
    {machine : Machine}
    (h : machine.limit ≤ machine.place.depth)
    (inner : Act α) :
    nested inner machine = (refuse : Act α) machine := by
  change (if machine.limit ≤ machine.place.depth then refuse else _ : Act α) machine = _
  rw [if_pos h]

/-- Below the limit a deeper phrase enters a level and leaves it again, also if it fails. -/
theorem nested_of_lt
    {machine : Machine}
    (h : machine.place.depth < machine.limit)
    (inner : Act α) :
    nested inner machine = ((inner machine.enter).1, (inner machine.enter).2.leave) := by
  change (if machine.limit ≤ machine.place.depth then refuse else _ : Act α) machine = _
  rw [if_neg (Nat.not_le_of_lt h)]
  rfl

/-- Below the last level nothing is computed. -/
theorem follows_nested_last (inner : Act α) :
    Follows origin origin.limit front (nested inner) fun tokens =>
      .fail ⟨.tooDeep origin.limit, (nextToken tokens).span⟩ tokens := by
  intro machine hmachine hfront
  have hlast : machine.limit ≤ machine.place.depth := by
    rw [hmachine.limit_eq, hmachine.depth_eq]
  rw [nested_of_le hlast]
  exact follows_refuse machine hmachine hfront

/-- Above it, what is done one level deeper is done here. -/
theorem follows_nested
    {inner : Act α}
    {parser : Parser α}
    (hroom : depth < origin.limit)
    (h : Follows origin (depth + 1) anyKind inner parser) :
    Follows origin depth front (nested inner) parser := by
  intro machine hmachine _
  have hlt : machine.place.depth < machine.limit := by
    rw [hmachine.limit_eq, hmachine.depth_eq]
    exact hroom
  obtain ⟨houtcome, hafter⟩ := h machine.enter (hmachine.enter hroom) trivial
  rw [nested_of_lt hlt]
  refine ⟨Eq.trans ?_ houtcome, hafter.leave⟩
  rcases inner machine.enter with ⟨_ | _, after⟩
  · rfl
  · rfl

/-- What follows on all deeper phrases is a simulation of them. -/
theorem descends_of_follows
    {deeper : Descent Act}
    {other : Descent}
    (h : ∀ asked, Follows origin depth anyKind (deeper asked) (other asked))
    (n : Nat) :
    (simulation origin depth).Descends n deeper other := by
  refine Grammar.descends_of_peekSecondKind h fun {next next'} hnext => ?_
  have hfollows : ∀ kind, Follows origin depth (· = .name) (next kind) (next' kind) := hnext
  exact follows_peekSecondKind_bind hfollows

/-- A phrase with as much room as is left below the limit, and one more that is never used. -/
theorem follows_phrase
    {budget : Nat}
    (hbudget : depth + budget = origin.limit)
    (asked : Phrase) :
    Follows origin depth anyKind (phrase (budget + 1) asked)
      (Grammar.phrase origin.limit budget asked) := by
  induction budget generalizing depth asked with
  | zero =>
      obtain rfl : depth = origin.limit := hbudget
      cases asked with
      | block => exact follows_nested_last _
      | expression least => exact follows_nested_last _
  | succ budget ih =>
      have hroom : depth < origin.limit := by omega
      have hdeeper : ∀ asked, Follows origin (depth + 1) anyKind (phrase (budget + 1) asked)
          (Grammar.phrase origin.limit budget asked) := ih (by omega)
      have hdescends := descends_of_follows hdeeper 0
      cases asked with
      | block => exact follows_nested hroom (Grammar.agree_blockAt hdescends)
      | expression least => exact follows_nested hroom (Grammar.agree_expressionAt hdescends least)

end Levels
end Act

/-! ## Behind a program -/

namespace Grammar

/-- At the end of the source there is an empty program. -/
theorem chunk_of_eof
    {limit : Nat}
    {tokens : List Token}
    (hlimit : 0 < limit)
    (heof : (nextToken tokens).kind = .eof) :
    chunk limit tokens = .ok ⟨[]⟩ tokens := by
  obtain ⟨budget, rfl⟩ := Nat.exists_eq_add_one_of_ne_zero (Nat.ne_of_gt hlimit)
  have hstep (deeper : Descent) :
      (blockStep deeper [] : Parser (Step Block)) tokens = .ok (.done []) tokens := by
    change (if (nextToken tokens).kind.endsBlock then _ else _ : Parser (Step Block)) tokens = _
    rw [heof]
    rfl
  have hblock (deeper : Descent) : (block deeper : Parser Block) tokens = .ok [] tokens := by
    change Parser.loop (blockStep deeper) [] tokens = _
    rw [Parser.loop, hstep]
  have hphrase : Descent.block (m := Parser) (phrase (budget + 1) (budget + 1)) tokens =
      .ok [] tokens := hblock _
  change Parser.bind (Descent.block (m := Parser) (phrase (budget + 1) (budget + 1))) _ _ = _
  rw [Parser.bind, hphrase]
  change (if (nextToken tokens).kind = .eof then _ else _ : Parser Chunk) tokens = _
  rw [if_pos heof]
  rfl

/-- Where there is a program there is a level. -/
theorem limit_pos_of_chunk
    {limit : Nat}
    {tokens rest : List Token}
    {program : Chunk}
    (h : chunk limit tokens = .ok program rest) :
    0 < limit := by
  cases limit with
  | zero => cases h
  | succ limit => exact Nat.succ_pos limit

end Grammar

/-! ## Attempts to parse -/

namespace Machine

variable {machine : Machine}

/-- What a machine is like between two attempts to parse. -/
structure Resting (machine : Machine) : Prop where
  closed : Token.Closed machine.tokens
  depth_eq : machine.place.depth = 0
  orderly : machine.Orderly

theorem Resting.continues (h : machine.Resting) : Continues machine 0 machine where
  tokens_eq := rfl
  limit_eq := rfl
  depth_eq := h.depth_eq
  closed := h.closed
  orderly := h.orderly
  history := List.suffix_refl _

theorem Continues.resting
    {origin : Machine}
    (h : Continues origin 0 machine) :
    machine.Resting :=
  ⟨h.closed, h.depth_eq, h.orderly⟩

/-- A machine that continues another one continues whatever that one continues. -/
theorem Continues.trans
    {origin middle : Machine}
    {depth depth' : Nat}
    (h : Continues origin depth middle)
    (h' : Continues middle depth' machine) :
    Continues origin depth' machine where
  tokens_eq := h'.tokens_eq.trans h.tokens_eq
  limit_eq := h'.limit_eq.trans h.limit_eq
  depth_eq := h'.depth_eq
  closed := h'.closed
  orderly := h'.orderly
  history := h.history.trans h'.history

theorem resting_ofTokens (tokens : List Token) (limit : Nat) : (ofTokens tokens limit).Resting where
  closed := Session.closed_ofTokens tokens limit
  depth_eq := rfl
  orderly := {
    levels := List.forall_mem_singleton.mpr (Nat.zero_le limit)
    inside := List.forall_mem_singleton.mpr (Nat.zero_le _)
    forward := List.pairwise_singleton _ _ }

/-- An attempt has the outcome of a parser on the tokens that are left. -/
theorem Resting.parse (h : machine.Resting) :
    outcome machine.parse = Grammar.chunk machine.limit machine.rest ∧
      Continues machine 0 machine.parse.2 := by
  have hphrase : ∀ asked, Act.Follows machine 0 anyKind (Act.phrase (machine.limit + 1) asked)
      (Grammar.phrase machine.limit machine.limit asked) :=
    Act.follows_phrase (Nat.zero_add _)
  have hprogram : Act.Follows machine 0 anyKind
      (Grammar.program (Act.phrase (machine.limit + 1))) (Grammar.chunk machine.limit) :=
    Grammar.agree_program (Act.descends_of_follows hphrase 0)
  exact hprogram machine h.continues trivial

/-- Any number of calls continue a resting machine. -/
theorem Resting.continues_after (h : machine.Resting) (calls : Nat) :
    Continues machine 0 (machine.after calls) := by
  induction calls generalizing machine with
  | zero => exact h.continues
  | succ calls ih =>
      have hparse := h.parse.2
      exact hparse.trans (ih hparse.resting)

/-- The tokens that are left, as a session. -/
def session (machine : Machine) : Session :=
  ⟨machine.rest, machine.limit⟩

theorem session_ofTokens (tokens : List Token) (limit : Nat) :
    (ofTokens tokens limit).session = Session.ofTokens tokens limit :=
  congrArg (Session.mk _) (Session.limit_ofTokens tokens limit).symm

/-- A call of the machine and a call of the session give the same result. -/
theorem Resting.session_parse (h : machine.Resting) :
    machine.session.parse = (machine.parse.1, machine.parse.2.session) := by
  obtain ⟨houtcome, hafter⟩ := h.parse
  have hlimit := hafter.limit_eq
  have hchunk : Grammar.chunk machine.session.limit machine.session.tokens =
      outcome machine.parse := houtcome.symm
  rw [Session.parse, hchunk]
  revert hlimit
  rcases machine.parse with ⟨error | program, after⟩
  · intro hlimit
    exact congrArg (fun limit => (Except.error error, Session.mk after.rest limit)) hlimit.symm
  · intro hlimit
    exact congrArg (fun limit => (Except.ok program, Session.mk after.rest limit)) hlimit.symm

/-- A machine has the results of a session. -/
theorem Resting.parseRepeatedly (h : machine.Resting) (calls : Nat) :
    machine.parseRepeatedly calls = machine.session.parseRepeatedly calls := by
  induction calls generalizing machine with
  | zero => rfl
  | succ calls ih =>
      rw [Machine.parseRepeatedly, Session.parseRepeatedly, h.session_parse]
      exact congrArg (machine.parse.1 :: ·) (ih h.parse.2.resting)

/-- A machine at the end of the source stays there. -/
theorem Resting.after_of_eof
    (h : machine.Resting)
    (hlimit : 0 < machine.limit)
    (heof : (nextToken machine.rest).kind = .eof)
    (calls : Nat) :
    (machine.after calls).parse.1 = .ok ⟨[]⟩ := by
  induction calls generalizing machine with
  | zero =>
      obtain ⟨houtcome, -⟩ := h.parse
      rw [Grammar.chunk_of_eof hlimit heof] at houtcome
      exact (outcome_eq_ok houtcome).1
  | succ calls ih =>
      obtain ⟨houtcome, hafter⟩ := h.parse
      rw [Grammar.chunk_of_eof hlimit heof] at houtcome
      refine ih hafter.resting ?_ ?_
      · rw [hafter.limit_eq]
        exact hlimit
      · rw [(outcome_eq_ok houtcome).2]
        exact heof

/-- Behind a program there are only empty ones. -/
theorem Resting.after_of_ok
    (h : machine.Resting)
    {program : Chunk}
    (hprogram : machine.parse.1 = .ok program)
    (calls : Nat) :
    (machine.parse.2.after calls).parse.1 = .ok ⟨[]⟩ := by
  obtain ⟨houtcome, hafter⟩ := h.parse
  have hchunk : Grammar.chunk machine.limit machine.rest = .ok program machine.parse.2.rest := by
    rw [← houtcome]
    revert hprogram
    rcases machine.parse with ⟨error | other, after⟩
    · exact nofun
    · rintro ⟨⟩
      rfl
  refine hafter.resting.after_of_eof ?_ (chunk_rest hchunk) calls
  rw [hafter.limit_eq]
  exact Grammar.limit_pos_of_chunk hchunk

/-- A machine keeps its invariants however often it is asked to parse, and however the attempts
end.  Before and after every call the list is the one it was made with, which ends with the end of
the source; the limit is the same; and the depth is zero.  At all places that it was ever at, within
the calls too, the depth is within the limit and the next token is in the list and not behind the
first end of the source; and it never goes back.  It has the results of a session, and after a call
that gave a program every later one gives the empty program. -/
theorem calls_keep_invariants (tokens : List Token) (limit calls : Nat) :
    let start := ofTokens tokens limit
    let machine := start.after calls
    (machine.tokens = start.tokens ∧ Token.Closed machine.tokens) ∧
      machine.limit = limit ∧
      machine.place.depth = 0 ∧
      (∀ place ∈ machine.places, place.depth ≤ limit ∧
        place.current ≤ Token.endIndex machine.tokens ∧ place.current < machine.tokens.length) ∧
      machine.places.Pairwise (fun later earlier => earlier.current ≤ later.current) ∧
      machine.places <:+ machine.parse.2.places ∧
      start.parseRepeatedly calls = (Session.ofTokens tokens limit).parseRepeatedly calls ∧
      ∀ program, machine.parse.1 = .ok program →
        ∀ later, (machine.parse.2.after later).parse.1 = .ok ⟨[]⟩ := by
  intro start machine
  have hstart : start.Resting := resting_ofTokens tokens limit
  have hmachine : Continues start 0 machine := hstart.continues_after calls
  have hresting := hmachine.resting
  refine ⟨⟨hmachine.tokens_eq, hmachine.closed⟩, hmachine.limit_eq, hmachine.depth_eq,
    fun place hplace => ?_, hmachine.orderly.forward, hresting.parse.2.history, ?_,
    fun program => hresting.after_of_ok⟩
  · have hlevel := hmachine.orderly.levels place hplace
    rw [hmachine.limit_eq] at hlevel
    have hinside := hmachine.orderly.inside place hplace
    exact ⟨hlevel, hinside, Nat.lt_of_le_of_lt hinside hmachine.closed.endIndex_lt⟩
  · rw [hstart.parseRepeatedly, session_ofTokens]

/-- The tokens of `x=0x break` and of another `break` behind the end of the source. -/
def interruptedTokens : List Token :=
  [⟨.name, "x", {}⟩, ⟨.symbol .eq, "=", {}⟩, ⟨.number, "0x", {}⟩, ⟨.keyword .break_, "break", {}⟩,
    Token.eof {}, ⟨.keyword .break_, "break", {}⟩]

/-- The first call fails at the numeral, the second one parses what stands behind it, and all
others find the end. -/
theorem calls_keep_invariants_interruptedTokens :
    let start := ofTokens interruptedTokens 2
    start.parse.1.isOk = false ∧
      ∃ program, (start.after 1).parse.1 = .ok program ∧ program.body.length = 1 ∧
        ∀ later, ((start.after 1).parse.2.after later).parse.1 = .ok ⟨[]⟩ := by
  intro start
  obtain ⟨-, -, -, -, -, -, -, hempty⟩ := calls_keep_invariants interruptedTokens 2 1
  have hlength : (start.after 1).parse.1.map (fun program => program.body.length) = .ok 1 := by
    decide +kernel
  refine ⟨by decide +kernel, ?_⟩
  cases hprogram : (start.after 1).parse.1 with
  | error error =>
      rw [hprogram] at hlength
      cases hlength
  | ok program =>
      rw [hprogram] at hlength
      exact ⟨program, rfl, Except.ok.inj hlength, hempty program hprogram⟩

end Machine
end LuaView
