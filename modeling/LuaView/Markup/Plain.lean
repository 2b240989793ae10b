import LuaView.Text.Blank
import LuaView.Visual.Spacing

/-!
# Plain text

A visual tree as plain text.  The text is first laid out as a skeleton: characters, and marks of
indentation with a level.  The skeleton does not depend on the width of a level; writing it puts
that many spaces in place of every mark.

A container set as a block takes a line for each child, and the body of a compound statement is
one level deeper than the lines around it.  A table takes a line for each row.  All other
containers are set in a line, where an operation inside another one stands in parentheses.  A
block in the middle of a line continues that line, so its first indentation is dropped.
-/

namespace LuaView
namespace Plain

/-- A character, or the indentation of a level. -/
inductive Piece where
  | char (c : Char)
  | indent (level : Nat)
deriving DecidableEq, Repr

/-- Text whose indentation is not yet measured. -/
abbrev Skeleton := List Piece

namespace Skeleton

def ofChars (cs : List Char) : Skeleton :=
  cs.map .char

def ofText (text : String) : Skeleton :=
  ofChars text.toList

/-- A mark of indentation or a blank character. -/
def isSpace : Piece → Bool
  | .char c => isBlank c
  | .indent _ => true

/-- A skeleton without the space at its front. -/
def trimStart (skeleton : Skeleton) : Skeleton :=
  skeleton.dropWhile isSpace

/-- Several lines as one skeleton. -/
def joinLines (lines : List Skeleton) : Skeleton :=
  [Piece.char '\n'].intercalate lines

/-- A piece with the given number of spaces per level. -/
def writePiece (width : Nat) : Piece → List Char
  | .char c => [c]
  | .indent level => List.replicate (level * width) ' '

/-- The text of a skeleton with the given number of spaces per level. -/
def write (width : Nat) (skeleton : Skeleton) : List Char :=
  skeleton.flatMap (writePiece width)

/-- A skeleton in parentheses if it has to be grouped. -/
def group (grouped : Bool) (skeleton : Skeleton) : Skeleton :=
  if grouped then .char '(' :: skeleton ++ [.char ')'] else skeleton

end Skeleton

open Skeleton (ofText ofChars)

/-- The depth of the lines of a child: one more for a body, except for that of a whole program. -/
def childDepth (parent : Role) (depth : Nat) (child : Option Role) : Nat :=
  if child = some .block ∧ parent ≠ .chunk then depth + 1 else depth

mutual

/-- An element in the middle of a line. -/
def inline (depth : Nat) : Element → Skeleton
  | .text run => ofText run
  | .leaf word _ => ofText word
  | .container role .block children =>
      (Skeleton.joinLines (childLines role depth children)).trimStart
  | .container _ .table [] => ofText "\x7b\x7d"
  | .container _ .table (row :: rows) =>
      .char '\x7b' :: tableRows (depth + 1) (row :: rows) ++
        [.char '\n', .indent depth, .char '\x7d']
  | .container role _ children =>
      run depth role (Element.isCompact role children) none children

/-- The children of a container on one line, behind the given one. -/
def run (depth : Nat) (role : Role) (compact : Bool) (previous : Option Element) :
    List Element → Skeleton
  | [] => []
  | child :: rest =>
      ofChars (Element.leadingSpace compact previous child) ++
        Skeleton.group (role.isOperator && child.isOperator) (inline depth child) ++
        run depth role compact (some child) rest

/-- The rows of a table, each on a line of its own. -/
def tableRows (depth : Nat) : List Element → Skeleton
  | [] => []
  | row :: rows =>
      .char '\n' :: .indent depth :: inline depth row ++ .char ',' :: tableRows depth rows

/-- The lines of the children of a container that is set as a block. -/
def childLines (parent : Role) (depth : Nat) : List Element → List Skeleton
  | [] => []
  | .container role .block children :: rest =>
      childLines role (childDepth parent depth (some role)) children ++
        childLines parent depth rest
  | child :: rest =>
      (.indent (childDepth parent depth child.role?) ::
          inline (childDepth parent depth child.role?) child) ::
        childLines parent depth rest

end

/-- The lines of an element. -/
def lines : Element → List Skeleton
  | .container role .block children => childLines role 0 children
  | element => [.indent 0 :: inline 0 element]

/-- The layout of an element, whatever the width of a level. -/
def skeleton (element : Element) : Skeleton :=
  Skeleton.joinLines (lines element)

end Plain

/-- An element as plain text. -/
def Element.toPlain (indent : Nat) (element : Element) : String :=
  String.ofList ((Plain.skeleton element).write indent)

end LuaView
