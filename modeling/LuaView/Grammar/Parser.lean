import LuaView.Program.Tree
import LuaView.Token.Stream

/-!
# Parsers

A parser takes the tokens that are left and gives back either a tree or an error, and in both
cases the tokens that are left then: a parser that failed can be asked to go on from where it
stopped.  The end of the source is never consumed, so whoever looks for another token finds it
again.

Repetition is always `Parser.loop`, which goes on only as long as tokens are consumed.
-/

namespace LuaView

/-- What a parser gives back. -/
inductive Outcome (α : Type) where
  | ok (value : α) (rest : List Token)
  | fail (error : ParseError) (rest : List Token)

/-- A function from the tokens that are left to an outcome. -/
def Parser (α : Type) := List Token → Outcome α

/-- The next token; the end of the source if there is none. -/
def nextToken : List Token → Token
  | [] => Token.eof {}
  | token :: _ => token

namespace Parser

protected def pure {α : Type} (value : α) : Parser α :=
  fun tokens => .ok value tokens

protected def bind {α β : Type} (parser : Parser α) (next : α → Parser β) : Parser β :=
  fun tokens =>
    match parser tokens with
    | .ok value rest => next value rest
    | .fail error rest => .fail error rest

instance : Monad Parser where
  pure := Parser.pure
  bind := Parser.bind

instance : LawfulMonad Parser := by
  refine LawfulMonad.mk' Parser ?_ (fun _ _ => rfl) ?_
  · intro α parser
    funext tokens
    change Parser.bind parser Parser.pure tokens = parser tokens
    unfold Parser.bind
    cases parser tokens <;> rfl
  · intro α β γ parser next last
    funext tokens
    change Parser.bind (Parser.bind parser next) last tokens =
      Parser.bind parser (fun value => Parser.bind (next value) last) tokens
    simp only [Parser.bind]
    cases parser tokens <;> rfl

/-- Fail without consuming anything. -/
def fail {α : Type} (cause : ParseError.Cause) (span : Span) : Parser α :=
  fun tokens => .fail ⟨cause, span⟩ tokens

/-- The next token, left in place. -/
def peek : Parser Token :=
  fun tokens => .ok (nextToken tokens) tokens

/-- The kind of the next token. -/
def peekKind : Parser Kind :=
  fun tokens => .ok (nextToken tokens).kind tokens

/-- The kind of the token behind the next one, or of the last token if there is only one. -/
def peekSecondKind : Parser Kind :=
  fun tokens =>
    match tokens with
    | _ :: second :: _ => .ok second.kind tokens
    | _ => .ok (nextToken tokens).kind tokens

/-- Consume the next token, unless it is the end of the source. -/
def advance : Parser Token :=
  fun tokens =>
    match tokens with
    | [] => .ok (nextToken tokens) tokens
    | token :: rest => .ok token (if token.isEof then tokens else rest)

/-- Fail at the next token, which is not what is expected. -/
def unexpected {α : Type} (expected : String) : Parser α :=
  fun tokens =>
    let token := nextToken tokens
    let cause : ParseError.Cause :=
      if token.isEof then .unexpectedEnd expected else .unexpectedToken token.text expected
    .fail ⟨cause, token.span⟩ tokens

/-- What a round of a loop decides. -/
inductive Step (α : Type) where
  | again (value : α)
  | done (value : α)

/-- Repeat a step until it is done.  A round that consumes no token is the last one. -/
def loop {α : Type} (step : α → Parser (Step α)) (value : α) (tokens : List Token) : Outcome α :=
  match step value tokens with
  | .fail error rest => .fail error rest
  | .ok (.done result) rest => .ok result rest
  | .ok (.again result) rest =>
      if rest.length < tokens.length then loop step result rest else .ok result rest
termination_by tokens.length

end Parser

open LuaView.Parser (Step) in
/-- What the grammar asks for when it reads tokens: to look at the next ones, to consume one, to
fail, and to repeat a step. -/
class TokenReader (m : Type → Type) extends Monad m where
  peek : m Token
  peekKind : m Kind
  peekSecondKind : m Kind
  advance : m Token
  fail {α : Type} : ParseError.Cause → Span → m α
  unexpected {α : Type} : String → m α
  loop {α : Type} : (α → m (Step α)) → α → m α

instance : TokenReader Parser where
  peek := Parser.peek
  peekKind := Parser.peekKind
  peekSecondKind := Parser.peekSecondKind
  advance := Parser.advance
  fail := Parser.fail
  unexpected := Parser.unexpected
  loop := Parser.loop

namespace Parser

variable {m : Type → Type} [TokenReader m]

/-- Consume a token of a kind, or fail. -/
def expect (kind : Kind) : m Unit := do
  if (← TokenReader.peekKind) = kind then
    let _ ← TokenReader.advance
  else TokenReader.unexpected ("'" ++ kind.display ++ "'")

/-- Consume the next token if it is of a kind, and say whether it was. -/
def accept (kind : Kind) : m Bool := do
  if (← TokenReader.peekKind) = kind then
    let _ ← TokenReader.advance
    return true
  else return false

def expectWord (word : Keyword) : m Unit := expect (.keyword word)

def expectSymbol (symbol : Symbol) : m Unit := expect (.symbol symbol)

def acceptWord (word : Keyword) : m Bool := accept (.keyword word)

def acceptSymbol (symbol : Symbol) : m Bool := accept (.symbol symbol)

/-- Consume a name. -/
def name : m Name := do
  if (← TokenReader.peekKind) = .name then return (← TokenReader.advance).text
  else TokenReader.unexpected "name"

/-- More items, each behind a comma. -/
def moreItems {α : Type} (item : m α) : List α → m (List α) :=
  TokenReader.loop fun items => do
    if ← acceptSymbol .comma then
      let next ← item
      return .again (items ++ [next])
    else return .done items

/-- One or more items with commas between them. -/
def commaSeparated {α : Type} (item : m α) : m (List α) := do
  let first ← item
  moreItems item [first]

end Parser
end LuaView
