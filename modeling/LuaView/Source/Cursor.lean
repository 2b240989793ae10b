import LuaView.Source.Position

/-!
# Cursors

A cursor is a position in a source together with the characters that follow it.  It moves
forward only, one character at a time, and stays where it is at the end of the source.
-/

namespace LuaView

/-- A position and what stands behind it. -/
structure Cursor where
  pos : Position
  rest : List Char

namespace Cursor

/-- The cursor in front of a source. -/
def ofText (source : String) : Cursor :=
  ⟨{}, source.toList⟩

/-- Nothing is left. -/
def atEnd (cursor : Cursor) : Bool :=
  cursor.rest.isEmpty

/-- The next character. -/
def peek? (cursor : Cursor) : Option Char :=
  cursor.rest.head?

/-- The character with `n` others before it. -/
def peekNth? (cursor : Cursor) (n : Nat) : Option Char :=
  cursor.rest[n]?

/-- One character further. -/
def advance (cursor : Cursor) : Cursor :=
  match cursor.rest with
  | [] => cursor
  | c :: rest => ⟨cursor.pos.after c, rest⟩

/-- The given number of characters further, or at the end if there are fewer. -/
def advanceBy : Nat → Cursor → Cursor
  | 0, cursor => cursor
  | n + 1, cursor => advanceBy n cursor.advance

/-- Behind the longest run of characters of a class. -/
def advanceWhile (cls : Char → Bool) (cursor : Cursor) : Cursor :=
  advanceBy (cursor.rest.takeWhile cls).length cursor

/-- Behind `c` if that is the next character. -/
def eat? (cursor : Cursor) (c : Char) : Option Cursor :=
  if cursor.peek? = some c then some cursor.advance else none

/-- The characters between a cursor and a later one on the same source. -/
def textUntil (cursor later : Cursor) : List Char :=
  cursor.rest.take (cursor.rest.length - later.rest.length)

end Cursor
end LuaView
