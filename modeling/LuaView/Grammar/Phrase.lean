import LuaView.Grammar.Parser

/-!
# Phrases

Blocks and expressions are the two phrases that a program nests in each other.  Whatever parses
one level of a phrase is given a `Descent`, which parses the phrases one level deeper.  All
recursion of the grammar goes through it, so the number of levels is bounded by whoever provides
the descents.
-/

namespace LuaView

/-- The phrases that count as a level of nesting.  An expression is asked for with the least
precedence that its operators may have. -/
inductive Phrase where
  | block
  | expression (least : Nat)
deriving DecidableEq, Repr

/-- What a phrase is parsed to. -/
abbrev Phrase.Tree : Phrase → Type
  | .block => Block
  | .expression _ => Expr

/-- A parser for every phrase one level deeper. -/
abbrev Descent (m : Type → Type := Parser) := (phrase : Phrase) → m phrase.Tree

namespace Descent

variable {m : Type → Type} [TokenReader m]

def block (deeper : Descent m) : m Block := deeper .block

/-- An expression whose operators have at least the given precedence. -/
def operation (deeper : Descent m) (least : Nat) : m Expr := deeper (.expression least)

/-- An expression with any operators. -/
def expression (deeper : Descent m) : m Expr := deeper.operation BinaryOp.or.precedence

def expressionList (deeper : Descent m) : m (List Expr) :=
  Parser.commaSeparated deeper.expression

end Descent
end LuaView
