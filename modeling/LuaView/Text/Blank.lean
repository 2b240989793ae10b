import LuaView.Text.CharClass

/-!
# Blank characters

The characters with the Unicode property `White_Space`.  Blanks separate tokens, follow `\z`
inside a quoted string, and are dropped from the front of a nested block of plain text.
-/

namespace LuaView

/-- The ranges of the property `White_Space`, twenty-five characters in all. -/
def blankRanges : List (Nat × Nat) :=
  [(0x09, 0x0D), (0x20, 0x20), (0x85, 0x85), (0xA0, 0xA0), (0x1680, 0x1680), (0x2000, 0x200A),
    (0x2028, 0x2029), (0x202F, 0x202F), (0x205F, 0x205F), (0x3000, 0x3000)]

/-- A character that is blank space in any script. -/
def isBlank (c : Char) : Bool :=
  CharClass.inRanges blankRanges c

example : (blankRanges.map fun range => range.2 + 1 - range.1).sum = 25 := by decide

end LuaView
