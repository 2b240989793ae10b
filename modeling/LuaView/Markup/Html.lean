import LuaView.Visual.Spacing

/-!
# Hypertext

A visual tree as HTML.  Containers set as blocks, tables, rows and cells are written on lines of
their own, with the tag of their layout.  Everything inside a cell or in a line is a `span`; its
class is the role of the container or the emphasis of the leaf, and a container that would
otherwise have a line of its own says so with a second class.

The writer works on pieces: tags, and runs of text that are escaped when they are written.
-/

namespace LuaView
namespace Html

/-- The elements in use. -/
inductive Tag where
  | div | span | table | tr | td
deriving DecidableEq, Repr

def Tag.name : Tag → String
  | .div => "div"
  | .span => "span"
  | .table => "table"
  | .tr => "tr"
  | .td => "td"

/-- The tag of a container on lines of its own. -/
def Tag.ofLayout : Layout → Tag
  | .block => .div
  | .inline => .span
  | .table => .table
  | .row => .tr
  | .cell => .td

/-- A part of a document. -/
inductive Piece where
  | opening (tag : Tag) (classes : String)
  | closing (tag : Tag)
  | text (cs : List Char)
deriving DecidableEq, Repr

/-- A character as it is written in a text. -/
def escapeChar : Char → List Char
  | '&' => ['&', 'a', 'm', 'p', ';']
  | '<' => ['&', 'l', 't', ';']
  | '>' => ['&', 'g', 't', ';']
  | '"' => ['&', 'q', 'u', 'o', 't', ';']
  | '\'' => ['&', '#', '3', '9', ';']
  | c => [c]

def escape (cs : List Char) : List Char :=
  cs.flatMap escapeChar

def Piece.write : Piece → List Char
  | .opening tag classes =>
      '<' :: tag.name.toList ++ " class=\"".toList ++ classes.toList ++ ['"', '>']
  | .closing tag => '<' :: '/' :: tag.name.toList ++ ['>']
  | .text cs => escape cs

/-- The text of a sequence of pieces. -/
def write (pieces : List Piece) : List Char :=
  pieces.flatMap Piece.write

/-- The indentation of a level. -/
def indentation (width depth : Nat) : Piece :=
  .text (List.replicate (depth * width) ' ')

def lineBreak : Piece :=
  .text ['\n']

/-- The classes of a container inside a line. -/
def inlineClasses (role : Role) (layout : Layout) : String :=
  match layout with
  | .inline => role.className
  | _ => role.className ++ " layout-" ++ layout.key

mutual

/-- An element inside a line. -/
def inline : Element → List Piece
  | .text run => [.text run.toList]
  | .leaf word emphasis => [.opening .span emphasis.key, .text word.toList, .closing .span]
  | .container role layout children =>
      .opening .span (inlineClasses role layout) ::
        run (Element.isCompact role children) none children ++ [.closing .span]

/-- The children of a container on one line, behind the given one. -/
def run (compact : Bool) (previous : Option Element) : List Element → List Piece
  | [] => []
  | child :: rest =>
      .text (Element.leadingSpace compact previous child) :: inline child ++
        run compact (some child) rest

end

mutual

/-- An element on lines of its own. -/
def block (width depth : Nat) : Element → List Piece
  | .container role .cell children =>
      indentation width depth :: .opening .td role.className ::
        run (Element.isCompact role children) none children ++ [.closing .td, lineBreak]
  | .container role .inline children =>
      indentation width depth :: inline (.container role .inline children) ++ [lineBreak]
  | .container role layout [] =>
      [indentation width depth, .opening (Tag.ofLayout layout) role.className,
        .closing (Tag.ofLayout layout), lineBreak]
  | .container role layout (child :: children) =>
      indentation width depth :: .opening (Tag.ofLayout layout) role.className :: lineBreak ::
        blocks width (depth + 1) (child :: children) ++
        [indentation width depth, .closing (Tag.ofLayout layout), lineBreak]
  | element => indentation width depth :: inline element ++ [lineBreak]

def blocks (width depth : Nat) : List Element → List Piece
  | [] => []
  | child :: rest => block width depth child ++ blocks width depth rest

end

/-- A text without the line breaks at its end. -/
def trimBreaks (cs : List Char) : List Char :=
  (cs.reverse.dropWhile (· == '\n')).reverse

/-- The markup of an element alone. -/
def fragment (width : Nat) (element : Element) : List Char :=
  trimBreaks (write (block width 0 element))

/-- A rule of a style sheet. -/
structure StyleRule where
  selectors : List String
  declarations : List String
  /-- The declarations have a line of their own. -/
  broken : Bool := false

def StyleRule.write (rule : StyleRule) : String :=
  let (before, after) := if rule.broken then ("\n    ", "\n") else (" ", " ")
  ", ".intercalate rule.selectors ++ " \x7b" ++ before ++ "; ".intercalate rule.declarations ++
    ";" ++ after ++ "\x7d\n"

/-- The style sheet of a document. -/
def styleRules : List StyleRule :=
  [
    { selectors := ["body"], declarations := ["font-family: monospace"] },
    { selectors := ["div.block", "span.block"]
      declarations :=
        ["margin-left: 2em", "border-left: 1px dotted #bbb", "padding-left: 0.5em"] },
    { selectors := ["div.chunk > div.block"]
      declarations := ["margin-left: 0", "border-left: none"] },
    { selectors :=
        ["div.function", "div.local-function", "div.method", "span.anonymous-function"]
      declarations :=
        ["border: 1px solid #9ab", "border-radius: 4px", "padding: 0.2em", "margin: 0.2em 0"]
      broken := true },
    { selectors := ["span.layout-block"]
      declarations := ["display: inline-block", "vertical-align: top"] },
    { selectors := ["span.layout-block > *"], declarations := ["display: block"] },
    { selectors := ["table.table", "span.layout-table"]
      declarations :=
        ["display: inline-table", "border-collapse: collapse", "vertical-align: top"] },
    { selectors := ["span.layout-row"], declarations := ["display: table-row"] },
    { selectors := ["table.table td", "span.layout-cell"]
      declarations := ["display: table-cell", "border: 1px solid #ddd", "padding: 0 0.3em"] },
    { selectors := ["span.binary-op", "span.unary-op"]
      declarations := ["background: rgba(0, 0, 0, 0.04)", "border-radius: 3px"] },
    { selectors := [".keyword"], declarations := ["color: #a626a4", "font-weight: bold"] },
    { selectors := [".operator"], declarations := ["color: #0184bc"] },
    { selectors := [".nil", ".boolean"], declarations := ["color: #c18401"] },
    { selectors := [".number"], declarations := ["color: #986801"] },
    { selectors := [".string"], declarations := ["color: #50a14f"] },
    { selectors := [".name"], declarations := ["color: #383a42"] },
    { selectors := [".label"], declarations := ["color: #e45649"] },
    { selectors := [".varargs"], declarations := ["color: #4078f2"] }
  ]

/-- What stands before the fragment of a document. -/
def documentHead : String :=
  "<!DOCTYPE html>\n<html>\n<head>\n<meta charset=\"utf-8\">\n<title>vlua</title>\n<style>\n" ++
    String.join (styleRules.map StyleRule.write) ++ "</style>\n</head>\n<body>\n"

/-- What stands behind the fragment of a document. -/
def documentFoot : String :=
  "\n</body>\n</html>"

end Html

/-- An element as HTML, alone or as a whole document. -/
def Element.toHtml (indent : Nat) (standalone : Bool) (element : Element) : String :=
  let fragment := String.ofList (Html.fragment indent element)
  if standalone then Html.documentHead ++ fragment ++ Html.documentFoot else fragment

end LuaView
