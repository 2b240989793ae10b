/-!
# Visual elements

A visual tree shows a program as nested boxes.  A container says what it stands for (its role) and
how its children are set (its layout).  What is read in it are text runs, which hold punctuation,
and leaves, which hold a word of the program with an emphasis.
-/

namespace LuaView

/-- What a container stands for. -/
inductive Role where
  | chunk | block | statement | assign | localAssign | whileLoop
  | doBlock | repeatLoop | ifThen | elseIf | elseBlock | header
  | footer | label | goto | returnValues | forNum | forIn
  | function | localFunction | method | methodName | anonymousFunction | parameters
  | call | invoke | arguments | exprList | table | field
  | fieldKey | fieldValue | binaryOp | unaryOp | index
deriving DecidableEq, Repr

namespace Role

def all : List Role :=
  [.chunk, .block, .statement, .assign, .localAssign, .whileLoop, .doBlock, .repeatLoop,
    .ifThen, .elseIf, .elseBlock, .header, .footer, .label, .goto, .returnValues, .forNum,
    .forIn, .function, .localFunction, .method, .methodName, .anonymousFunction, .parameters,
    .call, .invoke, .arguments, .exprList, .table, .field, .fieldKey, .fieldValue, .binaryOp,
    .unaryOp, .index]

/-- The name of a role in the JSON form of an element. -/
def key : Role → String
  | .chunk => "chunk"
  | .block => "block"
  | .statement => "statement"
  | .assign => "assign"
  | .localAssign => "local-assign"
  | .whileLoop => "while"
  | .doBlock => "do"
  | .repeatLoop => "repeat"
  | .ifThen => "if"
  | .elseIf => "else-if"
  | .elseBlock => "else"
  | .header => "header"
  | .footer => "footer"
  | .label => "label"
  | .goto => "goto"
  | .returnValues => "return"
  | .forNum => "for-num"
  | .forIn => "for-in"
  | .function => "function"
  | .localFunction => "local-function"
  | .method => "method"
  | .methodName => "method-name"
  | .anonymousFunction => "anonymous-function"
  | .parameters => "parameters"
  | .call => "call"
  | .invoke => "invoke"
  | .arguments => "arguments"
  | .exprList => "expr-list"
  | .table => "table"
  | .field => "field"
  | .fieldKey => "field-key"
  | .fieldValue => "field-value"
  | .binaryOp => "binary-op"
  | .unaryOp => "unary-op"
  | .index => "index"

/-- The class that a role has in a style sheet: its key, except that `elseif` is one word. -/
def className : Role → String
  | .elseIf => "elseif"
  | role => role.key

def ofKey? (key : String) : Option Role :=
  all.find? fun role => role.key == key

/-- The container is an operation, which stands in parentheses inside another one. -/
def isOperator : Role → Bool
  | .binaryOp | .unaryOp => true
  | _ => false

end Role

/-- How the children of a container are set. -/
inductive Layout where
  | block | inline | table | row | cell
deriving DecidableEq, Repr

namespace Layout

def all : List Layout :=
  [.block, .inline, .table, .row, .cell]

/-- The name of a layout, both as a class and in the JSON form of an element. -/
def key : Layout → String
  | .block => "block"
  | .inline => "inline"
  | .table => "table"
  | .row => "row"
  | .cell => "cell"

def ofKey? (key : String) : Option Layout :=
  all.find? fun layout => layout.key == key

end Layout

/-- What kind of word a leaf holds. -/
inductive Emphasis where
  | keyword | operator | nil | boolean | number | string | name | label | varargs
deriving DecidableEq, Repr

namespace Emphasis

def all : List Emphasis :=
  [.keyword, .operator, .nil, .boolean, .number, .string, .name, .label, .varargs]

/-- The name of an emphasis, both as a class and in the JSON form of an element. -/
def key : Emphasis → String
  | .keyword => "keyword"
  | .operator => "operator"
  | .nil => "nil"
  | .boolean => "boolean"
  | .number => "number"
  | .string => "string"
  | .name => "name"
  | .label => "label"
  | .varargs => "varargs"

def ofKey? (key : String) : Option Emphasis :=
  all.find? fun emphasis => emphasis.key == key

end Emphasis

/-- A node of a visual tree. -/
inductive Element where
  | container (role : Role) (layout : Layout) (children : List Element)
  | text (run : String)
  | leaf (word : String) (emphasis : Emphasis)

namespace Element

def block (role : Role) (children : List Element) : Element :=
  .container role .block children

def inline (role : Role) (children : List Element) : Element :=
  .container role .inline children

/-- A leaf that holds a reserved word. -/
def keyword (word : String) : Element :=
  .leaf word .keyword

def role? : Element → Option Role
  | .container role _ _ => some role
  | _ => none

/-- The element is an operation. -/
def isOperator (element : Element) : Bool :=
  element.role?.any Role.isOperator

def children : Element → List Element
  | .container _ _ children => children
  | _ => []

mutual

/-- The texts of all runs and leaves, in reading order. -/
def tokens : Element → List String
  | .container _ _ children => tokensOfAll children
  | .text run => [run]
  | .leaf word _ => [word]

def tokensOfAll : List Element → List String
  | [] => []
  | child :: rest => child.tokens ++ tokensOfAll rest

end

mutual

/-- The containers of a role, each before those inside it. -/
def findAll (role : Role) : Element → List (Layout × List Element)
  | .container own layout children =>
      (if own = role then [(layout, children)] else []) ++ findAllIn role children
  | _ => []

def findAllIn (role : Role) : List Element → List (Layout × List Element)
  | [] => []
  | child :: rest => child.findAll role ++ findAllIn role rest

end
end Element
end LuaView
