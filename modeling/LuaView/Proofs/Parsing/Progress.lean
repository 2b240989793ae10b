import LuaView.Proofs.Lexing.Progress
import LuaView.Proofs.Parsing.PhraseCosts

/-!
# Progress of a parse

Wherever a machine is in a closed list, the phrases that begin with a token of their own consume one
if they succeed, every round of a loop consumes one or is the last round and finds nothing, and the
phrases inside a phrase are asked for behind a token.  A metered run never breaks down, and takes
four steps at most for each token that is consumed and two for the program itself.
-/

namespace LuaView

open LuaView.Parser (Step anyKind itemStep)

namespace Act

variable {α : Type}

/-- The computation, if it succeeds, consumes a token. -/
def Consumes (act : Act α) (machine : Machine) : Prop :=
  ∀ value, (act machine).1 = .ok value → machine.place.current < (act machine).2.place.current

/-- Whatever a loop has so far, a round of it that succeeds consumes a token, or ends the loop with
what there is. -/
def RoundConsumes (step : α → Act (Step α)) (machine : Machine) : Prop :=
  ∀ value outcome, (step value machine).1 = .ok outcome →
    machine.place.current < (step value machine).2.place.current ∨ outcome = .done value

end Act

/-- What a machine parses where it is makes progress: the phrases that begin with a token, the
rounds of all loops of the grammar, and the descent from phrase to phrase.  A phrase asks for deeper
ones from its own level and behind a token only, so what they are anywhere else makes no difference.
-/
structure Machine.Progress (machine : Machine) (deeper : Descent Act) : Prop where
  statement : (Grammar.statement deeper).Consumes machine
  returnStatement : (Grammar.returnStatement deeper).Consumes machine
  expression : ∀ least, (deeper (.expression least)).Consumes machine
  suffixed : (Grammar.suffixed deeper).Consumes machine
  field : (Grammar.field deeper).Consumes machine
  stmts : Act.RoundConsumes (Grammar.blockStep deeper) machine
  clauses : Act.RoundConsumes (Grammar.clauseStep deeper) machine
  operators : ∀ least, Act.RoundConsumes (Grammar.operatorStep deeper least) machine
  suffixes : Act.RoundConsumes (Grammar.suffixStep deeper) machine
  dotted : Act.RoundConsumes Grammar.dottedStep machine
  fields : Act.RoundConsumes (Grammar.fieldStep deeper) machine
  parameters : Act.RoundConsumes Grammar.parameterStep machine
  names : Act.RoundConsumes (itemStep Parser.name) machine
  expressions : Act.RoundConsumes (itemStep deeper.expression) machine
  targets : Act.RoundConsumes (itemStep (Grammar.target deeper)) machine
  descents : ∀ other : Descent Act,
    (∀ asked next, next.left < machine.left → next.place.depth = machine.place.depth →
      other asked next = deeper asked next) →
    Grammar.block other machine = Grammar.block deeper machine ∧
      ∀ least, Grammar.expression other least machine = Grammar.expression deeper least machine

section

variable {α : Type}
variable {site : Site}
variable {credit : Nat}
variable {machine : Machine}

/-- More credit than before comes from a token. -/
theorem Site.Pays.current_lt
    {saved : α → Nat}
    {result : Except ParseError α × Machine}
    {run : Nat → Except Breakdown ((Except ParseError α × Machine) × Nat)}
    (hholds : site.Holds machine)
    (h : site.Pays (machine.worth credit) saved result run)
    {value : α}
    (hvalue : result.1 = .ok value)
    (hsaved : credit < saved value) :
    machine.place.current < result.2.place.current := by
  obtain ⟨hafter, spent, hspent, -⟩ := h
  have hlength : result.2.tokens.length = machine.tokens.length :=
    congrArg List.length (hafter.tokens_eq.trans hholds.tokens_eq.symm)
  rw [hvalue] at hspent
  simp only [creditBehind, Machine.worth, Machine.left] at hspent
  omega

/-- A computation that ends with more credit than it began with has consumed a token. -/
theorem Affords.consumes
    {act : Act α}
    {metered : Metered α}
    {more : Nat}
    (h : Affords site credit anyKind act metered fun _ => more)
    (hmore : credit < more)
    (hholds : site.Holds machine)
    (hfund : machine.worth credit ≤ site.fund) :
    act.Consumes machine :=
  fun _ hvalue => (h machine hholds hfund trivial).current_lt hholds hvalue hmore

/-- A round that earns the step of the next one has consumed a token. -/
theorem Affords.roundConsumes
    {step : α → Act (Step α)}
    {step' : α → Metered (Step α)}
    (h : ∀ value, Affords site credit anyKind (step value) (step' value) (roundCredit credit value))
    (hholds : site.Holds machine)
    (hfund : machine.worth credit ≤ site.fund) :
    Act.RoundConsumes step machine := by
  intro value outcome houtcome
  by_cases hdone : outcome = .done value
  · exact .inr hdone
  · have hpays := h value machine hholds hfund trivial
    exact .inl (hpays.current_lt hholds houtcome (lt_roundCredit hdone))

end

namespace Machine

variable {machine : Machine}

/-- Where the machine is, inside a phrase that began some tokens before. -/
def site (machine : Machine) (hclosed : Token.Closed machine.tokens) (passed : Nat) : Site where
  tokens := machine.tokens
  closed := hclosed
  limit := machine.limit
  depth := machine.place.depth
  asking := machine.left + passed

section

variable (hclosed : Token.Closed machine.tokens)
variable {passed : Nat}

theorem holds_site : (machine.site hclosed passed).Holds machine :=
  ⟨rfl, rfl, rfl⟩

theorem descends_site
    {room : Nat}
    (hroom : machine.limit < machine.place.depth + room) :
    (machine.site hclosed passed).Descends (Act.phrase room)
      (Metered.phrase (machine.left + passed)) :=
  Site.descends_phrase hroom

theorem worth_le_fund
    {credit : Nat}
    (hcredit : credit ≤ 4 * passed + 1) :
    machine.worth credit ≤ (machine.site hclosed passed).fund := by
  change credit + 4 * machine.left ≤ 4 * (machine.left + passed) + 1
  omega

end

/-- A phrase that begins where the machine is has the step of its loop, and no other. -/
theorem descents_eq
    (hclosed : Token.Closed machine.tokens)
    {room : Nat}
    (hroom : machine.limit < machine.place.depth + room)
    {other : Descent Act}
    (hother : ∀ asked next, next.left < machine.left → next.place.depth = machine.place.depth →
      other asked next = Act.phrase room asked next) :
    Grammar.block other machine = Grammar.block (Act.phrase room) machine ∧
      ∀ least, Grammar.expression other least machine =
        Grammar.expression (Act.phrase room) least machine := by
  have hholds : (machine.site hclosed 0).Holds machine := holds_site hclosed
  have hfund : machine.worth 1 ≤ (machine.site hclosed 0).fund :=
    worth_le_fund hclosed (Nat.le_refl 1)
  have hdeeper : (machine.site hclosed 0).Descends (Act.phrase room)
      (Metered.phrase machine.left) := descends_site hclosed hroom
  have hsame := hdeeper.of_eq hother
  exact ⟨Affords.apply_eq (Grammar.affords_blockAt hdeeper) (Grammar.affords_blockAt hsame)
    hholds hfund, fun least =>
      Affords.apply_eq (Grammar.affords_expressionAt hdeeper least)
        (Grammar.affords_expressionAt hsame least) hholds hfund⟩

/-- Whoever has room for all levels that are left below the limit makes progress. -/
theorem progress
    (hclosed : Token.Closed machine.tokens)
    {room : Nat}
    (hroom : machine.limit < machine.place.depth + room) :
    machine.Progress (Act.phrase room) := by
  have hholds : (machine.site hclosed 1).Holds machine := holds_site hclosed
  have hdeeper : (machine.site hclosed 1).Descends (Act.phrase room)
      (Metered.phrase (machine.left + 1)) := descends_site hclosed hroom
  have hnone : machine.worth 0 ≤ (machine.site hclosed 1).fund := worth_le_fund hclosed (by omega)
  have htwo : machine.worth 2 ≤ (machine.site hclosed 1).fund := worth_le_fund hclosed (by omega)
  exact {
    statement := (Grammar.affords_statement hdeeper).consumes (by omega) hholds hnone
    returnStatement := (Grammar.affords_returnStatement hdeeper).consumes (by omega) hholds hnone
    expression := fun least => (hdeeper.expression least).consumes (by omega) hholds htwo
    suffixed := (Grammar.affords_suffixed hdeeper).consumes (by omega) hholds hnone
    field := (Grammar.affords_field hdeeper).consumes (by omega) hholds htwo
    stmts := Affords.roundConsumes (Grammar.affords_blockStep hdeeper) hholds hnone
    clauses := Affords.roundConsumes (Grammar.affords_clauseStep hdeeper) hholds hnone
    operators := fun least =>
      Affords.roundConsumes (Grammar.affords_operatorStep hdeeper least) hholds hnone
    suffixes := Affords.roundConsumes (Grammar.affords_suffixStep hdeeper) hholds hnone
    dotted := Affords.roundConsumes Grammar.affords_dottedStep hholds hnone
    fields := Affords.roundConsumes (Grammar.affords_fieldStep hdeeper) hholds htwo
    parameters := Affords.roundConsumes Grammar.affords_parameterStep hholds hnone
    names := Affords.roundConsumes (Grammar.affords_itemStep Grammar.affords_nameItem) hholds hnone
    expressions := Affords.roundConsumes
      (Grammar.affords_itemStep (Grammar.affords_expression hdeeper)) hholds hnone
    targets := Affords.roundConsumes
      (Grammar.affords_itemStep (Grammar.affords_targetItem hdeeper)) hholds hnone
    descents := fun _ => descents_eq hclosed hroom }

/-- The steps of a parse are paid with the tokens that it consumes. -/
theorem parseWithin_eq (hclosed : Token.Closed machine.tokens) :
    machine.parse.2.tokens = machine.tokens ∧
      ∃ spent, spent + 4 * machine.parse.2.left ≤ 4 * machine.left + 2 ∧
        ∀ supply, machine.parseWithin (spent + supply) = .ok (machine.parse, supply) := by
  have hprogram : Affords (machine.site hclosed 1) 2 anyKind
      (Grammar.program (Act.phrase (machine.limit + 1)))
      (Grammar.program (Metered.phrase (machine.left + 1))) fun _ => 0 :=
    Grammar.affords_program (descends_site hclosed (by omega))
  obtain ⟨hafter, spent, hspent, hrun⟩ :=
    hprogram machine (holds_site hclosed) (worth_le_fund hclosed (by omega)) trivial
  refine ⟨hafter.tokens_eq, spent, ?_, hrun⟩
  change spent + machine.parse.2.worth _ ≤ machine.worth 2 at hspent
  unfold worth at hspent
  omega

end Machine

/-- A session adds at most the end of the source to its tokens. -/
theorem Session.length_ofTokens_le (tokens : List Token) (limit : Nat) :
    (ofTokens tokens limit).tokens.length ≤ tokens.length + 1 := by
  unfold ofTokens
  split
  · exact Nat.le_add_left 1 _
  · simp only
    split
    · exact Nat.le_succ _
    · rw [List.length_append, List.length_singleton]

/-- Lexing and parsing always make progress.  In front of a character, a round that looks for a
token passes something, whatever it finds; so a scan never breaks down, and as many rounds as there
are bytes, and one more, are enough for it.  Wherever a machine is in a list of tokens, and however
deep, what begins with a token consumes one if it succeeds, every round of a loop consumes one or
ends the loop with what there is, and deeper phrases are asked for behind a token only.  A metered
run from there never breaks down: no round of a loop is idle, no phrase begins where the phrase
around it began, and it takes at most four steps for each token that is consumed and two more,
whatever the limit is.  Its result is that of the machine, which at the beginning of the list is
that of a session. -/
theorem tokenize_parse_progress
    (source : String)
    (tokens : List Token)
    (limit : Nat)
    (place : Place)
    (trail : List Place) :
    (∀ found before after, before ++ after = source.toList → after ≠ [] →
      ∃ outcome next, Scan.tokenRound found (Scanner.between before after) = .ok (outcome, next) ∧
        byteLength before < next.pos.byte) ∧
      scan source = .ok (tokenize source) ∧
      (∀ rounds, source.utf8ByteSize < rounds →
        scanWithin rounds source = .ok (some (tokenize source))) ∧
      (Session.ofTokens tokens limit).parse.1 = (Machine.ofTokens tokens limit).parse.1 ∧
      let machine := { Machine.ofTokens tokens limit with place, trail }
      (∀ room, limit < place.depth + room → machine.Progress (Act.phrase room)) ∧
        (∃ spent, spent ≤ 4 * (machine.parse.2.place.current - machine.place.current) + 2 ∧
          ∀ supply, machine.parseWithin (spent + supply) = .ok (machine.parse, supply)) ∧
        ∀ steps, 4 * tokens.length + 6 ≤ steps →
          ∃ rest, machine.parseWithin steps = .ok (machine.parse, rest) := by
  have hsession : (Session.ofTokens tokens limit).parse.1 =
      (Machine.ofTokens tokens limit).parse.1 := by
    have hparse := (Machine.resting_ofTokens tokens limit).session_parse
    rw [Machine.session_ofTokens] at hparse
    exact congrArg Prod.fst hparse
  refine ⟨fun found before after _ hafter => Scan.tokenRound_passes found before hafter,
    scan_eq_tokenize source, fun rounds => scanWithin_eq_tokenize, hsession, ?_⟩
  intro machine
  have hclosed : Token.Closed machine.tokens := Session.closed_ofTokens tokens limit
  obtain ⟨htokens, spent, hspent, hrun⟩ := machine.parseWithin_eq hclosed
  refine ⟨fun room => machine.progress hclosed, ⟨spent, ?_, hrun⟩, fun steps hsteps => ?_⟩
  · have hlength := congrArg List.length htokens
    unfold Machine.left at hspent
    omega
  · have hlength : machine.left ≤ tokens.length + 1 :=
      Nat.le_trans (Nat.sub_le _ _) (Session.length_ofTokens_le tokens limit)
    obtain ⟨rest, rfl⟩ : ∃ rest, steps = spent + rest := Nat.exists_eq_add_of_le (by omega)
    exact ⟨rest, hrun rest⟩

/-- The tokens of `f({,`, without an end of the source. -/
def brokenTokens : List Token :=
  [⟨.name, "f", {}⟩, ⟨.symbol .lparen, "(", {}⟩, ⟨.symbol .lbrace, "\x7b", {}⟩,
    ⟨.symbol .comma, ",", {}⟩]

/-- A comment that is never closed is passed in the round that finds it.  The parser fails in front
of the comma, and five steps would not have been enough for it. -/
theorem tokenize_parse_progress_brokenTokens :
    let machine := Machine.ofTokens brokenTokens 4
    (∃ outcome next,
      Scan.tokenRound [] (Scanner.between ['f'] "--[[".toList) = .ok (outcome, next) ∧
        byteLength ['f'] < next.pos.byte) ∧
      machine.Progress (Act.phrase 5) ∧
      machine.parse.1.isOk = false ∧
      (machine.parseWithin 5).isOk = false ∧
      ∃ rest, machine.parseWithin 22 = .ok (machine.parse, rest) := by
  obtain ⟨hround, -, -, -, hprogress, -, hsteps⟩ :=
    tokenize_parse_progress "f--[[" brokenTokens 4 {} []
  exact ⟨hround [] ['f'] "--[[".toList (by decide) (by decide), hprogress 5 (by decide),
    by decide +kernel, by decide +kernel, hsteps 22 (by decide)⟩

end LuaView
