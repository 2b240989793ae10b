import LuaView.Grammar.Expression

/-!
# Statements

```text
block      ::= {statement} [return [expressions] [`;`]]
statement  ::= `;` | `::` Name `::` | break | goto Name
             | while expression do block end | do block end | repeat block until expression
             | if expression then block {elseif expression then block} [else block] end
             | for Name `=` expression `,` expression [`,` expression] do block end
             | for names in expressions do block end
             | function Name {`.` Name} [`:` Name] body
             | local function Name body | local names [`=` expressions]
             | targets `=` expressions | call
```

An assignment target is a name or an index expression, and an expression that stands alone is a
call.  Each target is checked as soon as it is read.
-/

namespace LuaView
namespace Grammar

open TokenReader
open LuaView.Parser hiding peek peekKind peekSecondKind advance fail unexpected loop

variable {m : Type → Type} [TokenReader m] (deeper : Descent m)

/-- The body of a loop. -/
def loopBody : m Block := do
  expectWord .do_
  let body ← deeper.block
  expectWord .end_
  return body

def whileStatement : m Stmt := do
  expectWord .while_
  let test ← deeper.expression
  let body ← loopBody deeper
  return .whileLoop test body

def doStatement : m Stmt := do
  let body ← loopBody deeper
  return .doBlock body

def repeatStatement : m Stmt := do
  expectWord .repeat_
  let body ← deeper.block
  expectWord .until_
  let test ← deeper.expression
  return .repeatLoop body test

/-- A condition and what depends on it. -/
def guarded : m (Expr × Block) := do
  let test ← deeper.expression
  expectWord .then_
  let body ← deeper.block
  return (test, body)

/-- One more clause of a chain of conditions, if there is one. -/
def clauseStep (clauses : List (Expr × Block)) : m (Step (List (Expr × Block))) := do
  if ← acceptWord .elseif_ then return .again (clauses ++ [← guarded deeper])
  else return .done clauses

/-- The last alternative of a chain of conditions, if there is one. -/
def lastAlternative : m (Option ElseBranch) := do
  if ← acceptWord .else_ then return some (.final (← deeper.block)) else return none

/-- The clauses of a chain, each of which is the alternative of the one before it. -/
def chain (clauses : List (Expr × Block)) (last : Option ElseBranch) : Option ElseBranch :=
  clauses.foldr (fun clause orelse => some (.elseIf clause.1 clause.2 orelse)) last

def ifStatement : m Stmt := do
  expectWord .if_
  let (test, body) ← guarded deeper
  let clauses ← loop (clauseStep deeper) []
  let last ← lastAlternative deeper
  expectWord .end_
  return .ifThen test body (chain clauses last)

/-- The step of a numeric loop, which is one if it is not written. -/
def loopStep : m Expr := do
  if ← acceptSymbol .comma then deeper.expression else return .int 1

def forStatement : m Stmt := do
  expectWord .for_
  let first ← name
  match ← peekKind with
  | .symbol .eq =>
      let _ ← advance
      let start ← deeper.expression
      expectSymbol .comma
      let stop ← deeper.expression
      let step ← loopStep deeper
      let body ← loopBody deeper
      return .numericFor first start stop step body
  | .symbol .comma | .keyword .in_ =>
      let names ← moreItems name [first]
      expectWord .in_
      let iterators ← deeper.expressionList
      let body ← loopBody deeper
      return .genericFor names iterators body
  | _ => unexpected "'=' or 'in'"

/-- One more part of the dotted name of a function, if there is one. -/
def dottedStep (value : Expr) : m (Step Expr) := do
  if ← acceptSymbol .dot then return .again (.dot value (← name)) else return .done value

def functionStatement : m Stmt := do
  expectWord .function_
  let first ← name
  let path ← loop dottedStep (.name first)
  if ← acceptSymbol .colon then
    let method ← name
    let (parameters, body) ← functionBody deeper
    return .method path method parameters body
  else
    let (parameters, body) ← functionBody deeper
    return .function path parameters body

def localFunction : m Stmt := do
  let id ← name
  let (parameters, body) ← functionBody deeper
  return .localFunction id parameters body

/-- The values of a declaration, if there are any. -/
def initialValues : m (List Expr) := do
  if ← acceptSymbol .eq then deeper.expressionList else return []

def localAssignment : m Stmt := do
  let names ← commaSeparated name
  let values ← initialValues deeper
  return .localAssign (names.map .name) values

def localStatement : m Stmt := do
  expectWord .local_
  if ← acceptWord .function_ then localFunction deeper else localAssignment deeper

def labelStatement : m Stmt := do
  expectSymbol .colonColon
  let id ← name
  expectSymbol .colonColon
  return .label id

/-- Refuse an expression that cannot be assigned to; the error is at its first token. -/
def checkTarget (value : Expr) (span : Span) : m Expr :=
  if value.isAssignable then pure value else fail .notAssignable span

/-- An assignment target. -/
def target : m Expr := do
  let start ← peek
  let value ← suffixed deeper
  checkTarget value start.span

/-- An assignment or a call. -/
def expressionStatement : m Stmt := do
  let start ← peek
  let value ← suffixed deeper
  match ← peekKind with
  | .symbol .eq | .symbol .comma =>
      let first ← checkTarget value start.span
      let targets ← moreItems (target deeper) [first]
      expectSymbol .eq
      let values ← deeper.expressionList
      return .assign targets values
  | _ => if value.isCall then return .expr value else unexpected "'='"

def statement : m Stmt := do
  match ← peekKind with
  | .symbol .semicolon =>
      let _ ← advance
      return .semicolon
  | .symbol .colonColon => labelStatement
  | .keyword .break_ =>
      let _ ← advance
      return .breakLoop
  | .keyword .goto_ =>
      let _ ← advance
      return .goto (← name)
  | .keyword .while_ => whileStatement deeper
  | .keyword .do_ => doStatement deeper
  | .keyword .repeat_ => repeatStatement deeper
  | .keyword .if_ => ifStatement deeper
  | .keyword .for_ => forStatement deeper
  | .keyword .function_ => functionStatement deeper
  | .keyword .local_ => localStatement deeper
  | _ => expressionStatement deeper

/-- The values of a `return`, if there are any. -/
def returnedValues : m (List Expr) := do
  let kind ← peekKind
  if kind.endsBlock || kind = .symbol .semicolon then return [] else deeper.expressionList

def returnStatement : m Stmt := do
  expectWord .return_
  let values ← returnedValues deeper
  let _ ← acceptSymbol .semicolon
  return .returnValues values

/-- One more statement, unless the block ends here; a `return` is the last one. -/
def blockStep (stmts : Block) : m (Step Block) := do
  let kind ← peekKind
  if kind.endsBlock then return .done stmts
  else if kind = .keyword .return_ then return .done (stmts ++ [← returnStatement deeper])
  else return .again (stmts ++ [← statement deeper])

def block : m Block :=
  loop (blockStep deeper) []

/-- A whole program, which is a block that ends with the source. -/
def program : m Chunk := do
  let body ← deeper.block
  if (← peekKind) = .eof then return ⟨body⟩ else unexpected "end of file"

end Grammar
end LuaView
