import LuaView.Number.Basic
import LuaView.Program.Delimiter
import LuaView.Program.Operator

/-!
# Programs

The tree of a program.  Expressions and statements contain each other, through function bodies on
one side and through operands on the other, so their types are declared together.

The tree admits more than the grammar does: any expression may be an assignment target, a
parameter or a key.  What a program read from a source can hold is a property of reading.
-/

namespace LuaView

/-- An identifier. -/
abbrev Name := String

/-- How the key of an index expression is written. -/
inductive IndexStyle where
  | dot
  | bracket
deriving DecidableEq, Repr

mutual

/-- Expressions. -/
inductive Expr where
  | nil
  | boolean (value : Bool)
  | varargs
  | number (value : Number)
  | string (text : String) (delimiter : Delimiter)
  | name (id : Name)
  | table (fields : List Field)
  | function (parameters : List Expr) (body : List Stmt)
  | index (value : Expr) (key : Expr) (style : IndexStyle)
  | call (callee : Expr) (arguments : List Expr)
  | invoke (receiver : Expr) (method : Name) (arguments : List Expr)
  | binary (op : BinaryOp) (left : Expr) (right : Expr)
  | unary (op : UnaryOp) (operand : Expr)

/-- Entries of a table: a value, `key = value`, or `[key] = value` if `bracketed`. -/
inductive Field where
  | mk (key : Option Expr) (value : Expr) (bracketed : Bool)

/-- Statements. -/
inductive Stmt where
  | assign (targets : List Expr) (values : List Expr)
  | localAssign (targets : List Expr) (values : List Expr)
  | whileLoop (test : Expr) (body : List Stmt)
  | doBlock (body : List Stmt)
  | repeatLoop (body : List Stmt) (test : Expr)
  | ifThen (test : Expr) (body : List Stmt) (orelse : Option ElseBranch)
  | label (id : Name)
  | goto (id : Name)
  | breakLoop
  | returnValues (values : List Expr)
  | numericFor (counter : Name) (start : Expr) (stop : Expr) (step : Expr) (body : List Stmt)
  | genericFor (names : List Name) (iterators : List Expr) (body : List Stmt)
  | function (name : Expr) (parameters : List Expr) (body : List Stmt)
  | localFunction (name : Name) (parameters : List Expr) (body : List Stmt)
  | method (receiver : Expr) (name : Name) (parameters : List Expr) (body : List Stmt)
  | expr (value : Expr)
  | semicolon

/-- What follows the body of a condition: another condition, or the last alternative. -/
inductive ElseBranch where
  | elseIf (test : Expr) (body : List Stmt) (orelse : Option ElseBranch)
  | final (body : List Stmt)

end

/-- A sequence of statements. -/
abbrev Block := List Stmt

/-- A whole program. -/
structure Chunk where
  body : Block

namespace Expr

def int (value : Int64) : Expr := .number (.int value)

def float (value : Binary64) : Expr := .number (.float value)

/-- The expression `value.key`. -/
def dot (value : Expr) (key : Name) : Expr := .index value (.name key) .dot

/-- The expression `value[key]`. -/
def bracket (value key : Expr) : Expr := .index value key .bracket

/-- The expression may stand on the left of `=`. -/
def isAssignable : Expr → Bool
  | .name _ | .index _ _ _ => true
  | _ => false

/-- The expression may stand alone as a statement. -/
def isCall : Expr → Bool
  | .call _ _ | .invoke _ _ _ => true
  | _ => false

/-- The step that a numeric loop has if none is written: a literal one. -/
def isDefaultStep : Expr → Bool
  | .number value => value.isOne
  | _ => false

end Expr

namespace Field

/-- The entry `value`. -/
def positional (value : Expr) : Field := ⟨none, value, false⟩

/-- The entry `key = value`. -/
def named (key : Name) (value : Expr) : Field := ⟨some (.name key), value, false⟩

/-- The entry `[key] = value`. -/
def bracketed (key value : Expr) : Field := ⟨some key, value, true⟩

end Field
end LuaView
