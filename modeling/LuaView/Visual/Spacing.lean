import LuaView.Text.Alphabetic
import LuaView.Visual.Element

/-!
# Spacing of inline runs

The children of a container that is set in a line are separated by single spaces, but for two
exceptions: punctuation is attached to its neighbours, and a compact container has no spaces at
all.  Labels are compact, and so are operations with one operand, unless the operator is a word.
-/

namespace LuaView
namespace Element

/-- A text run that no space stands before. -/
def attachesBefore : Element → Bool
  | .text run => [")", "]", ",", ".", ":", "(", "[", ";"].contains run
  | _ => false

/-- A text run that no space stands behind. -/
def attachesAfter : Element → Bool
  | .text run => ["(", "[", ".", ":"].contains run
  | _ => false

/-- Two neighbours are separated by a space. -/
def spaceBetween (left right : Element) : Bool :=
  !right.attachesBefore && !left.attachesAfter

/-- A leaf whose word has alphabetic characters only. -/
def isWordLeaf : Element → Bool
  | .leaf word _ => word.toList.all isAlphabetic
  | _ => false

/-- The children of a container of this role are not separated. -/
def isCompact (role : Role) (children : List Element) : Bool :=
  match role with
  | .label => true
  | .unaryOp => !children.head?.any isWordLeaf
  | _ => false

/-- The space in front of a child, given the one before it. -/
def leadingSpace (compact : Bool) (previous : Option Element) (child : Element) : List Char :=
  if !compact && previous.any fun left => spaceBetween left child then [' '] else []

end Element
end LuaView
