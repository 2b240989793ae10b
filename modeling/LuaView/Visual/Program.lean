import LuaView.Program.Tree
import LuaView.Visual.Element

/-!
# Programs as visual trees

Every construct of a program has its container.  A compound statement is set as a block: a header,
its body, and what closes it.  Everything else is set inline, except tables, whose entries are
rows of a key cell and a value cell.

Parentheses around operands are no part of a visual tree; whoever writes the tree puts them back
where one operation stands inside another.
-/

namespace LuaView

open Element (keyword inline)

namespace Element

/-- Elements with commas between them. -/
def separate (elements : List Element) : List Element :=
  elements.intersperse (.text ",")

/-- The first line of a compound statement. -/
def header (children : List Element) : Element :=
  inline .header children

/-- A compound statement that ends with `end`. -/
def withBody (role : Role) (head : List Element) (body : Element) : Element :=
  Element.block role [header head, body, keyword "end"]

/-- A function; its parameters follow what names it. -/
def functionUnit (role : Role) (head parameters : List Element) (body : Element) : Element :=
  withBody role (head ++ [.text "(", inline .parameters (separate parameters), .text ")"]) body

/-- The arguments of a call, with their parentheses. -/
def callArguments (arguments : List Element) : List Element :=
  [.text "(", inline .arguments (separate arguments), .text ")"]

/-- A list of expressions. -/
def exprList (elements : List Element) : Element :=
  inline .exprList (separate elements)

/-- A list of expressions behind what introduces it; nothing at all if the list is empty. -/
def exprListAfter (words elements : List Element) : List Element :=
  if elements.isEmpty then [] else words ++ [exprList elements]

/-- An assignment behind the given words. -/
def assignment (role : Role) (words targets values : List Element) : Element :=
  inline role (words ++ [exprList targets] ++ exprListAfter [.text "="] values)

/-- A sequence of statements, each in a container of its own. -/
def statements (elements : List Element) : Element :=
  Element.block .block (elements.map fun element => Element.block .statement [element])

end Element

open Element (header withBody functionUnit callArguments exprList exprListAfter assignment
  statements)

def Name.toElement (id : Name) : Element :=
  .leaf id .name

/-- The key of a table entry. -/
def Field.keyElement (key : Element) (bracketed : Bool) : Element :=
  .container .fieldKey .cell
    (if bracketed then [.text "[", key, .text "]", .text "="] else [key, .text "="])

/-- A row of a table, with or without a key. -/
def Field.row (key : List Element) (value : Element) : Element :=
  .container .field .row (key ++ [.container .fieldValue .cell [value]])

mutual

def Expr.toElement : Expr → Element
  | .nil => .leaf "nil" .nil
  | .boolean true => .leaf "true" .boolean
  | .boolean false => .leaf "false" .boolean
  | .varargs => .leaf "..." .varargs
  | .number value => .leaf value.text .number
  | .string text delimiter => .leaf (delimiter.quote text) .string
  | .name id => Name.toElement id
  | .table fields => .container .table .table (Field.elements fields)
  | .function parameters body =>
      functionUnit .anonymousFunction [keyword "function"] (Expr.elements parameters)
        (statements (Stmt.elements body))
  | .index value key .dot => inline .index [value.toElement, .text ".", key.toElement]
  | .index value key .bracket =>
      inline .index [value.toElement, .text "[", key.toElement, .text "]"]
  | .call callee arguments =>
      inline .call (callee.toElement :: callArguments (Expr.elements arguments))
  | .invoke receiver method arguments =>
      inline .invoke (receiver.toElement :: .text ":" :: Name.toElement method ::
        callArguments (Expr.elements arguments))
  | .binary op left right =>
      inline .binaryOp [left.toElement, .leaf op.symbol .operator, right.toElement]
  | .unary op operand => inline .unaryOp [.leaf op.symbol .operator, operand.toElement]

def Expr.elements : List Expr → List Element
  | [] => []
  | value :: values => value.toElement :: Expr.elements values

def Field.toElement : Field → Element
  | .mk none value _ => Field.row [] value.toElement
  | .mk (some key) value bracketed =>
      Field.row [Field.keyElement key.toElement bracketed] value.toElement

def Field.elements : List Field → List Element
  | [] => []
  | field :: fields => field.toElement :: Field.elements fields

def Stmt.toElement : Stmt → Element
  | .assign targets values =>
      assignment .assign [] (Expr.elements targets) (Expr.elements values)
  | .localAssign targets values =>
      assignment .localAssign [keyword "local"] (Expr.elements targets) (Expr.elements values)
  | .whileLoop test body =>
      withBody .whileLoop [keyword "while", test.toElement, keyword "do"]
        (statements (Stmt.elements body))
  | .doBlock body => withBody .doBlock [keyword "do"] (statements (Stmt.elements body))
  | .repeatLoop body test =>
      Element.block .repeatLoop
        [header [keyword "repeat"], statements (Stmt.elements body),
          inline .footer [keyword "until", test.toElement]]
  | .ifThen test body none =>
      Element.block .ifThen
        [header [keyword "if", test.toElement, keyword "then"],
          statements (Stmt.elements body), keyword "end"]
  | .ifThen test body (some orelse) =>
      Element.block .ifThen
        [header [keyword "if", test.toElement, keyword "then"],
          statements (Stmt.elements body), orelse.toElement, keyword "end"]
  | .label id => inline .label [.text "::", .leaf id .label, .text "::"]
  | .goto id => inline .goto [keyword "goto", .leaf id .label]
  | .breakLoop => keyword "break"
  | .returnValues values =>
      inline .returnValues (keyword "return" :: exprListAfter [] (Expr.elements values))
  | .numericFor counter start stop step body =>
      withBody .forNum
        ([keyword "for", Name.toElement counter, .text "=", start.toElement, .text ",",
            stop.toElement] ++
          (if step.isDefaultStep then [] else [.text ",", step.toElement]) ++ [keyword "do"])
        (statements (Stmt.elements body))
  | .genericFor names iterators body =>
      withBody .forIn
        [keyword "for", exprList (names.map Name.toElement), keyword "in",
          exprList (Expr.elements iterators), keyword "do"]
        (statements (Stmt.elements body))
  | .function name parameters body =>
      functionUnit .function [keyword "function", name.toElement] (Expr.elements parameters)
        (statements (Stmt.elements body))
  | .localFunction name parameters body =>
      functionUnit .localFunction [keyword "local", keyword "function", Name.toElement name]
        (Expr.elements parameters) (statements (Stmt.elements body))
  | .method receiver name parameters body =>
      functionUnit .method
        [keyword "function",
          inline .methodName [receiver.toElement, .text ":", Name.toElement name]]
        (Expr.elements parameters) (statements (Stmt.elements body))
  | .expr value => value.toElement
  | .semicolon => .text ";"

def Stmt.elements : List Stmt → List Element
  | [] => []
  | stmt :: stmts => stmt.toElement :: Stmt.elements stmts

def ElseBranch.toElement : ElseBranch → Element
  | .elseIf test body none =>
      Element.block .elseIf
        [header [keyword "elseif", test.toElement, keyword "then"],
          statements (Stmt.elements body)]
  | .elseIf test body (some orelse) =>
      Element.block .elseIf
        [header [keyword "elseif", test.toElement, keyword "then"],
          statements (Stmt.elements body), orelse.toElement]
  | .final body =>
      Element.block .elseBlock [header [keyword "else"], statements (Stmt.elements body)]

end

def Block.toElement (block : Block) : Element :=
  statements (Stmt.elements block)

def Chunk.toElement (chunk : Chunk) : Element :=
  Element.block .chunk [Block.toElement chunk.body]

end LuaView
