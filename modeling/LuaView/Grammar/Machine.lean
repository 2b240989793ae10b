import LuaView.Grammar.Session

/-!
# Parsing in place

A machine parses where the tokens are: it keeps the whole list with the index of the next token,
and counts the levels that it is in.  It can be asked to parse again and again, and goes on from
where the last attempt stopped.

The machine reads by the same grammar as a session.  It writes down every place that it has been
at, so that one can say how it got to its results.
-/

namespace LuaView

/-- The index of the next token, and the number of levels around it. -/
structure Place where
  current : Nat := 0
  depth : Nat := 0
deriving DecidableEq, Repr

/-- A list of tokens with a place in it, a limit of nesting, and the places before, newest first. -/
structure Machine where
  tokens : List Token
  limit : Nat
  place : Place := {}
  trail : List Place := []

namespace Machine

/-- A machine on a list of tokens, which is closed with the end of the source if need be. -/
def ofTokens (tokens : List Token) (limit : Nat) : Machine where
  tokens := (Session.ofTokens tokens limit).tokens
  limit := limit

/-- Every place so far, newest first. -/
def places (machine : Machine) : List Place :=
  machine.place :: machine.trail

/-- The only way to another place. -/
def moveTo (machine : Machine) (place : Place) : Machine :=
  { machine with place, trail := machine.places }

/-- The token at an index; the last one if the index is too large. -/
def tokenAt (machine : Machine) (index : Nat) : Token :=
  machine.tokens.getD (min index (machine.tokens.length - 1)) (Token.eof {})

def next (machine : Machine) : Token :=
  machine.tokenAt machine.place.current

/-- Behind the next token, unless it is the end of the source. -/
def advance (machine : Machine) : Machine :=
  if machine.next.isEof then machine
  else machine.moveTo { machine.place with current := machine.place.current + 1 }

/-- One level deeper. -/
def enter (machine : Machine) : Machine :=
  machine.moveTo { machine.place with depth := machine.place.depth + 1 }

/-- One level less deep. -/
def leave (machine : Machine) : Machine :=
  machine.moveTo { machine.place with depth := machine.place.depth - 1 }

/-- The number of tokens that are left. -/
def left (machine : Machine) : Nat :=
  machine.tokens.length - machine.place.current

end Machine

/-- A computation on a machine.  A failure leaves the machine where it is. -/
abbrev Act := ExceptT ParseError (StateM Machine)

namespace Act

open LuaView.Parser (Step)

variable {α : Type}

def fail (cause : ParseError.Cause) (span : Span) : Act α :=
  throw ⟨cause, span⟩

/-- Fail at the next token, which is not what is expected. -/
def unexpected (expected : String) : Act α := do
  let token := (← get).next
  let cause : ParseError.Cause :=
    if token.isEof then .unexpectedEnd expected else .unexpectedToken token.text expected
  fail cause token.span

/-- Repeat a step until it is done.  A round that consumes no token is the last one. -/
def loop (step : α → Act (Step α)) (value : α) (machine : Machine) :
    Except ParseError α × Machine :=
  match step value machine with
  | (.error error, after) => (.error error, after)
  | (.ok (.done result), after) => (.ok result, after)
  | (.ok (.again result), after) =>
      if after.left < machine.left then loop step result after else (.ok result, after)
termination_by machine.left

instance : TokenReader Act where
  peek := return (← get).next
  peekKind := return (← get).next.kind
  peekSecondKind := do
    let machine ← get
    return (machine.tokenAt (machine.place.current + 1)).kind
  advance := modifyGet fun machine => (machine.next, machine.advance)
  fail := fail
  unexpected := unexpected
  loop := loop

/-- Fail at the next token, which is below the last level. -/
def refuse : Act α := do
  let machine ← get
  fail (.tooDeep machine.limit) machine.next.span

/-- Compute one level deeper, if there is one.  The level is left again in any case. -/
def nested (inner : Act α) : Act α := do
  let machine ← get
  if machine.limit ≤ machine.place.depth then refuse
  else
    ExceptT.mk do
      modify Machine.enter
      let result ← inner.run
      modify Machine.leave
      return result

/-- A phrase with at most `room` levels.  The limit refuses a phrase before there is no room. -/
def phrase : Nat → Descent Act
  | 0, _ => refuse
  | room + 1, .block => nested (Grammar.block (phrase room))
  | room + 1, .expression least => nested (Grammar.expression (phrase room) least)

end Act

namespace Machine

/-- Parse a program from where the machine is. -/
def parse (machine : Machine) : Except ParseError Chunk × Machine :=
  Grammar.program (Act.phrase (machine.limit + 1)) machine

/-- The machine after several attempts to parse. -/
def after : Nat → Machine → Machine
  | 0, machine => machine
  | calls + 1, machine => after calls machine.parse.2

/-- The results of several attempts, each of which goes on from the one before. -/
def parseRepeatedly : Nat → Machine → List (Except ParseError Chunk)
  | 0, _ => []
  | calls + 1, machine => machine.parse.1 :: parseRepeatedly calls machine.parse.2

end Machine
end LuaView
