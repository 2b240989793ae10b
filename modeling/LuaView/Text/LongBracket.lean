/-!
# Long brackets

A long bracket of level `n` opens with `[`, `n` equals signs and `[`, and is closed by the first
occurrence of `]`, `n` equals signs and `]`.  A line break right behind the opening is no part of
its content.  Long brackets hold strings and comments.

`LongBracket.levelFor` chooses the level that a given content is written with: the least one whose
closing bracket does not occur in the content, nor across its end.
-/

namespace LuaView

/-- A closed long bracket: its level, the line break that is left out, and its content. -/
structure LongBracket where
  level : Nat
  lineBreak : List Char
  content : List Char
deriving DecidableEq, Repr

namespace LongBracket

def opening (level : Nat) : List Char :=
  '[' :: List.replicate level '=' ++ ['[']

def closing (level : Nat) : List Char :=
  ']' :: List.replicate level '=' ++ [']']

/-- All characters of a long bracket. -/
def spelling (bracket : LongBracket) : List Char :=
  opening bracket.level ++ bracket.lineBreak ++ bracket.content ++ closing bracket.level

/-- The level of the long bracket that opens at the front of a text. -/
def level? : List Char → Option Nat
  | '[' :: cs =>
      let level := (cs.takeWhile (· == '=')).length
      if cs[level]? = some '[' then some level else none
  | _ => none

/-- The line break at the front of a text: one or two characters, or none. -/
def leadingBreak : List Char → List Char
  | '\r' :: '\n' :: _ => ['\r', '\n']
  | '\r' :: _ => ['\r']
  | '\n' :: _ => ['\n']
  | _ => []

/-- What stands before the first occurrence of a mark. -/
def before? (mark : List Char) : List Char → Option (List Char)
  | [] => if mark.isEmpty then some [] else none
  | c :: cs =>
      if mark.isPrefixOf (c :: cs) then some []
      else (before? mark cs).map (c :: ·)

/-- The long bracket of a level at the front of a text, unless it is never closed. -/
def read? (level : Nat) (cs : List Char) : Option LongBracket :=
  let inner := cs.drop (level + 2)
  let lineBreak := leadingBreak inner
  (before? (closing level) (inner.drop lineBreak.length)).map fun content =>
    ⟨level, lineBreak, content⟩

/-- The closing bracket of a level occurs in a content, or begins in it and ends with the first
bracket behind it. -/
def closesWithin (content : List Char) (level : Nat) : Bool :=
  (before? (closing level) (content ++ [']'])).isSome

/-- The least level that a content can be written with.  A closing bracket longer than the content
does not occur in it, so the search ends at the length of the content. -/
def levelFor (content : List Char) : Nat :=
  ((List.range content.length).find? fun level => !closesWithin content level).getD content.length

/-- A content between the brackets of the least possible level. -/
def quote (content : List Char) : List Char :=
  let level := levelFor content
  opening level ++ content ++ closing level

end LongBracket
end LuaView
