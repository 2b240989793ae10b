import LuaView.Grammar.Machine

/-!
# Metered parsing

A machine that parses with a supply of steps.  Every round of a loop and every phrase takes one step
of the supply, and what is left of it is given back.  The run breaks down if no step is left.

It also breaks down where it would not come to an end with any supply: in a round that is to be
followed by another one but has consumed no token, and at a phrase in front of which no token has
been consumed since the phrase around it began.  The limit of nesting bounds nothing here; it only
refuses phrases, as it does in any other parse.
-/

namespace LuaView

/-- Why a metered run has no result. -/
inductive Breakdown where
  /-- No step is left. -/
  | exhausted
  /-- A round of a loop has consumed nothing and is not the last one. -/
  | idleRound
  /-- A phrase begins where the phrase around it began. -/
  | idleDescent
deriving DecidableEq, Repr

/-- A computation on a machine that takes its steps from a supply. -/
abbrev Metered := ExceptT ParseError (StateT Machine (StateT Nat (Except Breakdown)))

namespace Metered

open LuaView.Parser (Step)

variable {α : Type}

/-- A computation that takes no step. -/
def free (act : Act α) : Metered α := fun machine supply =>
  .ok (act machine, supply)

/-- Repeat a step until it is done. -/
def loop
    (step : α → Metered (Step α))
    (value : α)
    (machine : Machine) :
    Nat → Except Breakdown ((Except ParseError α × Machine) × Nat)
  | 0 => .error .exhausted
  | supply + 1 =>
      match step value machine supply with
      | .error breakdown => .error breakdown
      | .ok ((.error error, after), supply) => .ok ((.error error, after), supply)
      | .ok ((.ok (.done result), after), supply) => .ok ((.ok result, after), supply)
      | .ok ((.ok (.again result), after), supply) =>
          if after.left < machine.left then loop step result after supply else .error .idleRound
termination_by machine.left

instance : TokenReader Metered where
  peek := free TokenReader.peek
  peekKind := free TokenReader.peekKind
  peekSecondKind := free TokenReader.peekSecondKind
  advance := free TokenReader.advance
  fail cause span := free (Act.fail cause span)
  unexpected expected := free (Act.unexpected expected)
  loop := loop

/-- Compute one level deeper, if there is one. -/
def nested (inner : Metered α) : Metered α := do
  let machine ← get
  if machine.limit ≤ machine.place.depth then free Act.refuse
  else
    ExceptT.mk do
      modify Machine.enter
      let result ← inner.run
      modify Machine.leave
      return result

/-- Begin a phrase.  The phrase around it began in front of `asking` tokens, fewer of which must be
left; what comes then is told how many there are. -/
def descend (asking : Nat) (body : (left : Nat) → left < asking → Metered α) : Metered α
  | _, 0 => .error .exhausted
  | machine, supply + 1 =>
      if h : machine.left < asking then body machine.left h machine supply
      else .error .idleDescent

/-- The phrases inside one that began in front of `asking` tokens. -/
def phrase (asking : Nat) : Descent Metered
  | .block => nested (descend asking fun left _ => Grammar.block (phrase left))
  | .expression least =>
      nested (descend asking fun left _ => Grammar.expression (phrase left) least)
termination_by asking

end Metered

/-- Parse a program from where the machine is, within a number of steps. -/
def Machine.parseWithin (steps : Nat) (machine : Machine) :
    Except Breakdown ((Except ParseError Chunk × Machine) × Nat) :=
  Grammar.program (Metered.phrase (machine.left + 1)) machine steps

end LuaView
