/-!
# Positions and spans

A position counts what stands before it in a source: bytes of its UTF-8 form, line feeds, and
characters since the last line feed.  All three counts start at zero.  A span is a pair of
positions; it is empty when it covers no byte.
-/

namespace LuaView

/-- A place between two characters of a source. -/
structure Position where
  byte : Nat := 0
  line : Nat := 0
  column : Nat := 0
deriving DecidableEq, Repr, Inhabited

namespace Position

/-- The position behind `c`, if `c` stands right after the given one. -/
def after (pos : Position) (c : Char) : Position where
  byte := pos.byte + c.utf8Size
  line := if c = '\n' then pos.line + 1 else pos.line
  column := if c = '\n' then 0 else pos.column + 1

/-- The position behind a run of characters. -/
def afterAll (pos : Position) (cs : List Char) : Position :=
  cs.foldl after pos

end Position

/-- A stretch of a source, from one position to another. -/
structure Span where
  start : Position := {}
  stop : Position := {}
deriving DecidableEq, Repr, Inhabited

namespace Span

/-- The empty span at a position. -/
def empty (pos : Position) : Span :=
  ⟨pos, pos⟩

/-- The span between two byte offsets of the first line, with no column kept. -/
def ofBytes (start stop : Nat) : Span :=
  ⟨{ byte := start }, { byte := stop }⟩

/-- The number of bytes covered; a span that runs backwards covers none. -/
def length (span : Span) : Nat :=
  span.stop.byte - span.start.byte

/-- No byte is covered. -/
def isEmpty (span : Span) : Bool :=
  span.length == 0

end Span
end LuaView
