import LuaView.Grammar.Session

/-!
# The grammar of plain texts

A plain text has no parentheses around a literal, a table or a function that is accessed or called,
while an argument always has its parentheses.  With `wide` set, the parsers below read such texts:
suffixes may follow anything but an operation, and a string or a table is not an argument.  Without
it they are those of the grammar.
-/

namespace LuaView
namespace Kind

/-- The kind starts a literal, a table or a function. -/
def startsLiteral : Kind → Bool
  | .keyword .nil_ | .keyword .true_ | .keyword .false_ | .keyword .function_ => true
  | .symbol .ellipsis | .symbol .lbrace | .number | .string _ => true
  | _ => false

/-- The kind starts an argument without parentheses. -/
def startsArgument : Kind → Bool
  | .symbol .lbrace | .string _ => true
  | _ => false

/-- The kind starts a statement that is neither an assignment nor a call. -/
def startsStatement : Kind → Bool
  | .symbol .semicolon | .symbol .colonColon => true
  | .keyword .break_ | .keyword .goto_ | .keyword .while_ | .keyword .do_ => true
  | .keyword .repeat_ | .keyword .if_ | .keyword .for_ | .keyword .function_ => true
  | .keyword .local_ => true
  | _ => false

end Kind

namespace PlainGrammar

open LuaView.Parser

variable (wide : Bool) (deeper : Descent)

/-- What suffixes are attached to. -/
def head : Parser Expr := do
  if wide && (← peekKind).startsLiteral then Grammar.simple deeper else Grammar.primary deeper

/-- One more suffix, if there is one. -/
def suffixStep (value : Expr) : Parser (Step Expr) := do
  if wide && (← peekKind).startsArgument then return .done value
  else Grammar.suffixStep deeper value

def suffixed : Parser Expr := do
  let value ← head wide deeper
  loop (suffixStep wide deeper) value

def simple : Parser Expr :=
  if wide then suffixed wide deeper else Grammar.simple deeper

def operand : Parser Expr := do
  match (← peekKind).unaryOp? with
  | some op =>
      let _ ← advance
      return .unary op (← deeper.operation UnaryOp.precedence)
  | none => simple wide deeper

def expression (least : Nat) : Parser Expr := do
  let left ← operand wide deeper
  loop (Grammar.operatorStep deeper least) left

def target : Parser Expr := do
  let start ← peek
  let value ← suffixed wide deeper
  Grammar.checkTarget value start.span

/-- An assignment or a call. -/
def expressionStatement : Parser Stmt := do
  let start ← peek
  let value ← suffixed wide deeper
  match ← peekKind with
  | .symbol .eq | .symbol .comma =>
      let first ← Grammar.checkTarget value start.span
      let targets ← moreItems (target wide deeper) [first]
      expectSymbol .eq
      let values ← deeper.expressionList
      return .assign targets values
  | _ => if value.isCall then return .expr value else unexpected "'='"

/-- A function without a name starts a call. -/
def statement : Parser Stmt := do
  let kind ← peekKind
  let second ← peekSecondKind
  if kind.startsStatement &&
      !(wide && decide (kind = .keyword .function_) && decide (second = .symbol .lparen)) then
    Grammar.statement deeper
  else expressionStatement wide deeper

def blockStep (stmts : Block) : Parser (Step Block) := do
  let kind ← peekKind
  if kind.endsBlock then return .done stmts
  else if kind = .keyword .return_ then
    return .done (stmts ++ [← Grammar.returnStatement deeper])
  else return .again (stmts ++ [← statement wide deeper])

def block : Parser Block :=
  loop (blockStep wide deeper) []

/-- A phrase within a budget of levels. -/
def phrase (limit : Nat) : Nat → (phrase : Phrase) → List Token → Outcome phrase.Tree
  | 0, _, tokens => .fail ⟨.tooDeep limit, (nextToken tokens).span⟩ tokens
  | budget + 1, .block, tokens => block wide (fun deeper => phrase limit budget deeper) tokens
  | budget + 1, .expression least, tokens =>
      expression wide (fun deeper => phrase limit budget deeper) least tokens

/-! ## Without the extension -/

/-- Without the wide rule expressions are those of the grammar. -/
theorem expression_false (least : Nat) :
    expression false deeper least = Grammar.expression deeper least :=
  rfl

theorem expressionStatement_false :
    expressionStatement false deeper = Grammar.expressionStatement deeper :=
  rfl

/-- A statement of no other kind is an assignment or a call. -/
theorem statement_of_not_startsStatement
    {tokens : List Token}
    (h : (nextToken tokens).kind.startsStatement = false) :
    Grammar.statement deeper tokens = Grammar.expressionStatement deeper tokens := by
  unfold Grammar.statement
  change Parser.bind peekKind _ tokens = _
  simp only [Parser.bind, peekKind]
  generalize (nextToken tokens).kind = kind at h ⊢
  cases kind with
  | keyword word => cases word <;> first | rfl | cases h
  | symbol symbol => cases symbol <;> first | rfl | cases h
  | _ => rfl

/-- Without the wide rule statements are those of the grammar. -/
theorem statement_false : statement false deeper = Grammar.statement deeper := by
  funext tokens
  have hstatement : statement false deeper tokens =
      if (nextToken tokens).kind.startsStatement then Grammar.statement deeper tokens
      else Grammar.expressionStatement deeper tokens := by
    unfold statement
    change Parser.bind peekKind _ tokens = _
    simp only [Parser.bind, peekKind]
    change Parser.bind peekSecondKind _ tokens = _
    have hsecond : ∃ second, peekSecondKind tokens = .ok second tokens := by
      unfold peekSecondKind
      split <;> exact ⟨_, rfl⟩
    obtain ⟨second, hsecond⟩ := hsecond
    simp only [Parser.bind, hsecond, Bool.false_and, Bool.not_false, Bool.and_true,
      expressionStatement_false]
    split <;> rfl
  rw [hstatement]
  cases h : (nextToken tokens).kind.startsStatement with
  | true => rfl
  | false => exact (statement_of_not_startsStatement deeper h).symm

/-- Without the wide rule blocks are those of the grammar. -/
theorem block_false : block false deeper = Grammar.block deeper := by
  have hstep : blockStep false deeper = Grammar.blockStep deeper := by
    funext stmts
    unfold blockStep Grammar.blockStep
    rw [statement_false]
    rfl
  rw [block, hstep]
  rfl

/-- Without the wide rule every phrase is that of the grammar, under any limit. -/
theorem phrase_false (limit budget : Nat) (phrase : Phrase) (tokens : List Token) :
    PlainGrammar.phrase false limit budget phrase tokens =
      Grammar.phrase limit budget phrase tokens := by
  induction budget generalizing phrase tokens with
  | zero => rfl
  | succ budget ih =>
      have hdeeper : (fun deeper => PlainGrammar.phrase false limit budget deeper) =
          fun deeper => Grammar.phrase limit budget deeper := by
        funext deeper tokens
        exact ih deeper tokens
      cases phrase with
      | block =>
          rw [PlainGrammar.phrase, Grammar.phrase, hdeeper]
          exact congrFun (block_false _) tokens
      | expression least =>
          rw [PlainGrammar.phrase, Grammar.phrase, hdeeper]
          exact congrFun (expression_false _ least) tokens

end PlainGrammar
end LuaView
