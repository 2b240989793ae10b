/-!
# Operators

The operators of the language, how they are written, and the key that names each of them in the
JSON form of a program.
-/

namespace LuaView

/-- Operators with two operands. -/
inductive BinaryOp where
  | add | sub | mul | div | floorDiv | mod | pow
  | bitAnd | bitOr | bitXor | shiftRight | shiftLeft
  | lt | gt | le | ge | eq | ne
  | and | or
  | concat
deriving DecidableEq, Repr

namespace BinaryOp

def all : List BinaryOp :=
  [.add, .sub, .mul, .div, .floorDiv, .mod, .pow, .bitAnd, .bitOr, .bitXor, .shiftRight,
    .shiftLeft, .lt, .gt, .le, .ge, .eq, .ne, .and, .or, .concat]

def symbol : BinaryOp → String
  | .add => "+"
  | .sub => "-"
  | .mul => "*"
  | .div => "/"
  | .floorDiv => "//"
  | .mod => "%"
  | .pow => "^"
  | .bitAnd => "&"
  | .bitOr => "|"
  | .bitXor => "~"
  | .shiftRight => ">>"
  | .shiftLeft => "<<"
  | .lt => "<"
  | .gt => ">"
  | .le => "<="
  | .ge => ">="
  | .eq => "=="
  | .ne => "~="
  | .and => "and"
  | .or => "or"
  | .concat => ".."

/-- The name of an operator in the JSON form of a program. -/
def key : BinaryOp → String
  | .add => "add"
  | .sub => "sub"
  | .mul => "mul"
  | .div => "div"
  | .floorDiv => "floor_div"
  | .mod => "mod"
  | .pow => "pow"
  | .bitAnd => "b_and"
  | .bitOr => "b_or"
  | .bitXor => "b_xor"
  | .shiftRight => "shr"
  | .shiftLeft => "shl"
  | .lt => "lt"
  | .gt => "gt"
  | .le => "le"
  | .ge => "ge"
  | .eq => "eq"
  | .ne => "ne"
  | .and => "and"
  | .or => "or"
  | .concat => "concat"

def ofKey? (key : String) : Option BinaryOp :=
  all.find? fun op => op.key == key

/-- A chain of the operator groups to the right. -/
def isRightAssociative : BinaryOp → Bool
  | .concat | .pow => true
  | _ => false

/-- How tightly an operator binds, from `or` at one to `^` at twelve. -/
def precedence : BinaryOp → Nat
  | .or => 1
  | .and => 2
  | .lt | .gt | .le | .ge | .eq | .ne => 3
  | .bitOr => 4
  | .bitXor => 5
  | .bitAnd => 6
  | .shiftLeft | .shiftRight => 7
  | .concat => 8
  | .add | .sub => 9
  | .mul | .div | .floorDiv | .mod => 10
  | .pow => 12

/-- The least precedence that an operator in the right operand may have without parentheses. -/
def rightPrecedence (op : BinaryOp) : Nat :=
  if op.isRightAssociative then op.precedence else op.precedence + 1

end BinaryOp

/-- Operators with one operand, which they precede. -/
inductive UnaryOp where
  | neg | bitNot | not | len
deriving DecidableEq, Repr

namespace UnaryOp

def all : List UnaryOp :=
  [.neg, .bitNot, .not, .len]

def symbol : UnaryOp → String
  | .neg => "-"
  | .bitNot => "~"
  | .not => "not"
  | .len => "#"

/-- The name of an operator in the JSON form of a program. -/
def key : UnaryOp → String
  | .neg => "neg"
  | .bitNot => "b_not"
  | .not => "not"
  | .len => "len"

def ofKey? (key : String) : Option UnaryOp :=
  all.find? fun op => op.key == key

/-- How tightly a unary operator binds: tighter than `*` and looser than `^`. -/
def precedence : Nat := 11

end UnaryOp
end LuaView
