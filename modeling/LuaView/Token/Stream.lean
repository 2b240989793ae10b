import LuaView.Source.Cursor
import LuaView.Token.Lexeme

/-!
# Token streams

A source is cut into tokens with their spans; the last token, and only that one, is the end of the
source.  If the first two characters of a source are `#!`, its first line is skipped.
-/

namespace LuaView

/-- A lexeme with its place in a source. -/
structure Token where
  kind : Kind
  text : String := ""
  span : Span := {}
deriving DecidableEq, Repr

namespace Token

/-- The end of a source. -/
def eof (pos : Position) : Token where
  kind := .eof
  span := Span.empty pos

def isEof (token : Token) : Bool :=
  token.kind == .eof

end Token

namespace Cursor

/-- Behind the first line if it is addressed to the system and not part of the program. -/
def skipShebang (cursor : Cursor) : Cursor :=
  match cursor.rest with
  | '#' :: '!' :: _ => cursor.advanceWhile (· != '\n')
  | _ => cursor

/-- Behind the blanks and comments that follow. -/
def skipGap (cursor : Cursor) : Cursor :=
  advanceBy (Lexeme.gap cursor.rest).length cursor

theorem rest_advance (cursor : Cursor) : cursor.advance.rest = cursor.rest.drop 1 := by
  unfold advance
  split <;> simp_all

theorem rest_advanceBy (n : Nat) (cursor : Cursor) :
    (advanceBy n cursor).rest = cursor.rest.drop n := by
  induction n generalizing cursor with
  | zero => rfl
  | succ n ih => rw [advanceBy, ih, rest_advance, List.drop_drop, Nat.add_comm]

theorem length_rest_skipGap_le (cursor : Cursor) :
    cursor.skipGap.rest.length ≤ cursor.rest.length := by
  simp [skipGap, rest_advanceBy]

/-- The tokens from a cursor to the end of the source. -/
def tokens (cursor : Cursor) : Except ParseError (List Token) :=
  match _hrest : cursor.skipGap.rest with
  | [] => .ok [Token.eof cursor.skipGap.pos]
  | first :: cs =>
      match Lexeme.read first cs with
      | .error (cause, extent) =>
          .error ⟨cause, cursor.skipGap.pos, (advanceBy extent.length cursor.skipGap).pos⟩
      | .ok lexeme => do
          let next := advanceBy lexeme.spelling.length cursor.skipGap
          let rest ← next.tokens
          pure (⟨lexeme.kind, String.ofList lexeme.text, cursor.skipGap.pos, next.pos⟩ :: rest)
termination_by cursor.rest.length
decreasing_by
  have hspelling := List.length_pos_iff.mpr lexeme.spelling_ne_nil
  have hpos : 0 < cursor.skipGap.rest.length := by simp [_hrest]
  have hgap := length_rest_skipGap_le cursor
  simp only [rest_advanceBy, List.length_drop]
  omega

end Cursor

/-- The tokens of a source, or the first error in it. -/
def tokenize (source : String) : Except ParseError (List Token) :=
  (Cursor.ofText source).skipShebang.tokens

end LuaView
