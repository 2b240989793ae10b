import LuaView.Grammar.Statement

/-!
# Sessions

`Grammar.phrase limit budget` parses a phrase that may nest `budget` levels; a phrase one level
below the last one is an error, which names the whole limit.  A program is a block that ends with
the source.

A session keeps the tokens that are left between two attempts to parse a program from them, so
that an attempt after a failed one goes on from where that one stopped.
-/

namespace LuaView
namespace Grammar

/-- A phrase within a budget of levels. -/
def phrase (limit : Nat) : Nat → (phrase : Phrase) → List Token → Outcome phrase.Tree
  | 0, _, tokens => .fail ⟨.tooDeep limit, (nextToken tokens).span⟩ tokens
  | budget + 1, .block, tokens =>
      block (m := Parser) (fun deeper => phrase limit budget deeper) tokens
  | budget + 1, .expression least, tokens =>
      expression (m := Parser) (fun deeper => phrase limit budget deeper) least tokens

/-- A whole program within the limit. -/
def chunk (limit : Nat) : Parser Chunk :=
  program (m := Parser) (phrase limit limit)

end Grammar

/-- The tokens that are left to parse, and the number of levels they may nest. -/
structure Session where
  tokens : List Token
  limit : Nat

namespace Session

/-- A session on a list of tokens, which is closed with the end of the source if need be. -/
def ofTokens (tokens : List Token) (limit : Nat) : Session :=
  match tokens.getLast? with
  | none => ⟨[Token.eof {}], limit⟩
  | some last => ⟨if last.isEof then tokens else tokens ++ [Token.eof last.span.stop], limit⟩

/-- Parse a program from the tokens that are left. -/
def parse (session : Session) : Except ParseError Chunk × Session :=
  match Grammar.chunk session.limit session.tokens with
  | .ok chunk rest => (.ok chunk, { session with tokens := rest })
  | .fail error rest => (.error error, { session with tokens := rest })

/-- The results of several attempts, each of which goes on from the one before. -/
def parseRepeatedly : Nat → Session → List (Except ParseError Chunk)
  | 0, _ => []
  | n + 1, session =>
      let (result, next) := session.parse
      result :: parseRepeatedly n next

end Session

/-- The program that a source holds, if it nests at most `limit` levels. -/
def parse (source : String) (limit : Nat) : Except ParseError Chunk := do
  let tokens ← tokenize source
  (Session.ofTokens tokens limit).parse.1

end LuaView
