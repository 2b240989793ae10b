import LuaView.Markup.Plain

/-!
# Plain text written at once

A writer of plain text that is given the number of spaces per level and works on finished texts from
the start.  It indents each line with spaces, joins the lines of a block, and where a block
continues a line it takes all blank characters off the front of the joined text, be they indentation
or part of a word.
-/

namespace LuaView
namespace Plain
namespace Writer

/-- The spaces in front of a line. -/
def indentation (width depth : Nat) : List Char :=
  List.replicate (depth * width) ' '

/-- A text without the blank characters at its front. -/
def trimStart (text : List Char) : List Char :=
  text.dropWhile isBlank

/-- A text in parentheses if it has to be grouped. -/
def group (grouped : Bool) (text : List Char) : List Char :=
  if grouped then '(' :: text ++ [')'] else text

mutual

/-- An element in the middle of a line. -/
def inline (width depth : Nat) : Element → List Char
  | .text run => run.toList
  | .leaf word _ => word.toList
  | .container role .block children =>
      trimStart (['\n'].intercalate (childLines width role depth children))
  | .container _ .table [] => ['\x7b', '\x7d']
  | .container _ .table (row :: rows) =>
      '\x7b' :: tableRows width (depth + 1) (row :: rows) ++
        '\n' :: indentation width depth ++ ['\x7d']
  | .container role _ children =>
      run width depth role (Element.isCompact role children) none children

/-- The children of a container on one line, behind the given one. -/
def run (width depth : Nat) (role : Role) (compact : Bool) (previous : Option Element) :
    List Element → List Char
  | [] => []
  | child :: rest =>
      Element.leadingSpace compact previous child ++
        group (role.isOperator && child.isOperator) (inline width depth child) ++
        run width depth role compact (some child) rest

/-- The rows of a table, each on a line of its own. -/
def tableRows (width depth : Nat) : List Element → List Char
  | [] => []
  | row :: rows =>
      '\n' :: indentation width depth ++ inline width depth row ++
        ',' :: tableRows width depth rows

/-- The lines of the children of a container that is set as a block. -/
def childLines (width : Nat) (parent : Role) (depth : Nat) : List Element → List (List Char)
  | [] => []
  | .container role .block children :: rest =>
      childLines width role (childDepth parent depth (some role)) children ++
        childLines width parent depth rest
  | child :: rest =>
      (indentation width (childDepth parent depth child.role?) ++
          inline width (childDepth parent depth child.role?) child) ::
        childLines width parent depth rest

end

/-- The lines of an element. -/
def lines (width : Nat) : Element → List (List Char)
  | .container role .block children => childLines width role 0 children
  | element => [indentation width 0 ++ inline width 0 element]

/-- An element as plain text. -/
def text (width : Nat) (element : Element) : List Char :=
  ['\n'].intercalate (lines width element)

end Writer
end Plain
end LuaView
