import LuaView.Grammar.Phrase
import LuaView.Number.Numeral

/-!
# Expressions

```text
expression  ::= operand {binary-op expression}
operand     ::= unary-op expression | simple
simple      ::= nil | true | false | `...` | Number | String | function body | table | suffixed
suffixed    ::= primary {`.` Name | `[` expression `]` | `:` Name arguments | arguments}
primary     ::= Name | `(` expression `)`
arguments   ::= `(` [expressions] `)` | table | String
table       ::= `{` [field {separator field} [separator]] `}`
field       ::= `[` expression `]` `=` expression | Name `=` expression | expression
body        ::= `(` [parameters] `)` block end
parameters  ::= Name {`,` Name} [`,` `...`] | `...`
```

Operators are grouped by precedence: the right operand of an operator takes only operators that
bind tighter, or as tight if the operator groups to the right.
-/

namespace LuaView

/-- The binary operator that a token stands for. -/
def Kind.binaryOp? : Kind → Option BinaryOp
  | .keyword .or_ => some .or
  | .keyword .and_ => some .and
  | .symbol .lt => some .lt
  | .symbol .gt => some .gt
  | .symbol .ltEq => some .le
  | .symbol .gtEq => some .ge
  | .symbol .tildeEq => some .ne
  | .symbol .eqEq => some .eq
  | .symbol .pipe => some .bitOr
  | .symbol .tilde => some .bitXor
  | .symbol .amp => some .bitAnd
  | .symbol .ltLt => some .shiftLeft
  | .symbol .gtGt => some .shiftRight
  | .symbol .dotDot => some .concat
  | .symbol .plus => some .add
  | .symbol .minus => some .sub
  | .symbol .star => some .mul
  | .symbol .slash => some .div
  | .symbol .slashSlash => some .floorDiv
  | .symbol .percent => some .mod
  | .symbol .caret => some .pow
  | _ => none

/-- The unary operator that a token stands for. -/
def Kind.unaryOp? : Kind → Option UnaryOp
  | .symbol .minus => some .neg
  | .keyword .not_ => some .not
  | .symbol .hash => some .len
  | .symbol .tilde => some .bitNot
  | _ => none

namespace Grammar

open TokenReader
open LuaView.Parser hiding peek peekKind peekSecondKind advance fail unexpected loop

variable {m : Type → Type} [TokenReader m] (deeper : Descent m)

/-- One more parameter; `...` is the last one. -/
def parameterStep (parameters : List Expr) : m (Step (List Expr)) := do
  match ← peekKind with
  | .symbol .ellipsis =>
      let _ ← advance
      return .done (parameters ++ [.varargs])
  | .name =>
      let parameters := parameters ++ [.name (← name)]
      if ← acceptSymbol .comma then return .again parameters else return .done parameters
  | _ => unexpected "name or '...'"

/-- The parameters and the body of a function. -/
def functionBody : m (List Expr × Block) := do
  expectSymbol .lparen
  let parameters ← if (← peekKind) = .symbol .rparen then pure [] else loop parameterStep []
  expectSymbol .rparen
  let body ← deeper.block
  expectWord .end_
  return (parameters, body)

/-- One entry of a table that starts with a name.  The name is a key if `=` stands behind it. -/
def fieldAtName : m Field := do
  if (← peekSecondKind) = .symbol .eq then
    let key ← name
    let _ ← advance
    let value ← deeper.expression
    return .named key value
  else return .positional (← deeper.expression)

/-- One entry of a table. -/
def field : m Field := do
  match ← peekKind with
  | .symbol .lbracket =>
      let _ ← advance
      let key ← deeper.expression
      expectSymbol .rbracket
      expectSymbol .eq
      let value ← deeper.expression
      return .bracketed key value
  | .name => fieldAtName deeper
  | _ => return .positional (← deeper.expression)

/-- One more entry, unless the table ends here; an entry without a separator is the last one. -/
def fieldStep (fields : List Field) : m (Step (List Field)) := do
  if (← peekKind) = .symbol .rbrace then return .done fields
  else
    let fields := fields ++ [← field deeper]
    if ← acceptSymbol .comma then return .again fields
    else if ← acceptSymbol .semicolon then return .again fields
    else return .done fields

def table : m Expr := do
  expectSymbol .lbrace
  let fields ← loop (fieldStep deeper) []
  expectSymbol .rbrace
  return .table fields

/-- The arguments of a call. -/
def arguments : m (List Expr) := do
  match ← peekKind with
  | .symbol .lparen =>
      let _ ← advance
      let values ← if (← peekKind) = .symbol .rparen then pure [] else deeper.expressionList
      expectSymbol .rparen
      return values
  | .symbol .lbrace => return [← table deeper]
  | .string delimiter =>
      let token ← advance
      return [.string token.text delimiter]
  | _ => unexpected "function arguments"

/-- What suffixes are attached to. -/
def primary : m Expr := do
  match ← peekKind with
  | .name => return .name (← name)
  | .symbol .lparen =>
      let _ ← advance
      let value ← deeper.expression
      expectSymbol .rparen
      return value
  | _ => unexpected "expression"

/-- One more suffix, if there is one. -/
def suffixStep (value : Expr) : m (Step Expr) := do
  match ← peekKind with
  | .symbol .dot =>
      let _ ← advance
      return .again (.dot value (← name))
  | .symbol .lbracket =>
      let _ ← advance
      let key ← deeper.expression
      expectSymbol .rbracket
      return .again (.bracket value key)
  | .symbol .colon =>
      let _ ← advance
      let method ← name
      return .again (.invoke value method (← arguments deeper))
  | .symbol .lparen | .symbol .lbrace | .string _ =>
      return .again (.call value (← arguments deeper))
  | _ => return .done value

/-- An expression of accesses and calls. -/
def suffixed : m Expr := do
  let value ← primary deeper
  loop (suffixStep deeper) value

/-- A numeral.  One that has no value is an error at the numeral itself. -/
def numeral : m Expr := do
  let token ← advance
  match Number.ofNumeral? token.text.toList with
  | some number => return .number number
  | none => fail (.malformedNumber token.text) token.span

/-- An expression without operators of its own. -/
def simple : m Expr := do
  match ← peekKind with
  | .keyword .nil_ =>
      let _ ← advance
      return .nil
  | .keyword .true_ =>
      let _ ← advance
      return .boolean true
  | .keyword .false_ =>
      let _ ← advance
      return .boolean false
  | .symbol .ellipsis =>
      let _ ← advance
      return .varargs
  | .number => numeral
  | .string delimiter =>
      let token ← advance
      return .string token.text delimiter
  | .keyword .function_ =>
      expectWord .function_
      let (parameters, body) ← functionBody deeper
      return .function parameters body
  | .symbol .lbrace => table deeper
  | _ => suffixed deeper

/-- A unary operator with its operand, or a simple expression. -/
def operand : m Expr := do
  match (← peekKind).unaryOp? with
  | some op =>
      let _ ← advance
      return .unary op (← deeper.operation UnaryOp.precedence)
  | none => simple deeper

/-- One more binary operator with its right operand, if it binds tight enough. -/
def operatorStep (least : Nat) (left : Expr) : m (Step Expr) := do
  match (← peekKind).binaryOp? with
  | some op =>
      if op.precedence < least then return .done left
      else
        let _ ← advance
        return .again (.binary op left (← deeper.operation op.rightPrecedence))
  | none => return .done left

/-- An expression whose operators have at least the given precedence. -/
def expression (least : Nat) : m Expr := do
  let left ← operand deeper
  loop (operatorStep deeper least) left

end Grammar
end LuaView
