import LuaView.Json.Writer
import LuaView.Program.Tree

/-!
# Programs as JSON

The JSON form of a program.  A node with several parts is an object; the alternatives of a type
are objects with one member, whose name tells them apart, or a mere string if there is nothing to
say besides the name.  A finite float is a number with a fraction or an exponent, and all others
are `null`.  Which numeral stands for a float is a parameter.
-/

namespace LuaView

/-- The numerals that floats are written with, and the floats that numerals are read as. -/
structure FloatNumerals where
  write : Binary64 → String
  read? : String → Option Binary64

namespace Json

/-- An alternative with a payload. -/
def variant (tag : String) (payload : Json) : Json :=
  .object [(tag, payload)]

end Json

open Json (variant)

def Delimiter.key : Delimiter → String
  | .single => "SingleQuote"
  | .double => "DoubleQuote"
  | .long => "LongBracket"

def IndexStyle.key : IndexStyle → String
  | .dot => "Dot"
  | .bracket => "Bracket"

def Name.toJson (id : Name) : Json :=
  .object [("id", .string id)]

section Numerals

variable (floats : FloatNumerals)

def Number.toJson : Number → Json
  | .int value => variant "Int" (.integer value.toInt)
  | .float value =>
      variant "Float" (if value.isFinite then .decimal (floats.write value) else .null)

mutual

def Expr.toJson : Expr → Json
  | .nil => .string "Nil"
  | .boolean true => .string "True"
  | .boolean false => .string "False"
  | .varargs => .string "Varargs"
  | .number value => variant "Number" (value.toJson floats)
  | .string text delimiter =>
      variant "String" (.object [("value", .string text), ("delimiter", .string delimiter.key)])
  | .name id => variant "Name" (Name.toJson id)
  | .table fields => variant "Table" (.object [("fields", .array (Field.listToJson fields))])
  | .function parameters body =>
      variant "AnonymousFunction" (.object
        [("args", .array (Expr.listToJson parameters)),
          ("body", .object [("body", .array (Stmt.listToJson body))])])
  | .index value key style =>
      variant "Index" (.object
        [("value", value.toJson), ("idx", key.toJson), ("notation", .string style.key)])
  | .call callee arguments =>
      variant "Call" (.object
        [("func", callee.toJson), ("args", .array (Expr.listToJson arguments))])
  | .invoke receiver method arguments =>
      variant "Invoke" (.object
        [("source", receiver.toJson), ("func", Name.toJson method),
          ("args", .array (Expr.listToJson arguments))])
  | .binary op left right =>
      variant "BinaryOp" (.object
        [("op", .string op.key), ("left", left.toJson), ("right", right.toJson)])
  | .unary op operand =>
      variant "UnaryOp" (.object [("op", .string op.key), ("operand", operand.toJson)])

def Expr.listToJson : List Expr → List Json
  | [] => []
  | value :: values => value.toJson :: Expr.listToJson values

def Field.toJson : Field → Json
  | .mk none value bracketed =>
      .object [("key", .null), ("value", value.toJson), ("bracketed", .bool bracketed)]
  | .mk (some key) value bracketed =>
      .object [("key", key.toJson), ("value", value.toJson), ("bracketed", .bool bracketed)]

def Field.listToJson : List Field → List Json
  | [] => []
  | field :: fields => field.toJson :: Field.listToJson fields

def Stmt.toJson : Stmt → Json
  | .assign targets values =>
      variant "Assign" (.object
        [("targets", .array (Expr.listToJson targets)),
          ("values", .array (Expr.listToJson values))])
  | .localAssign targets values =>
      variant "LocalAssign" (.object
        [("targets", .array (Expr.listToJson targets)),
          ("values", .array (Expr.listToJson values))])
  | .whileLoop test body =>
      variant "While" (.object
        [("test", test.toJson), ("body", .object [("body", .array (Stmt.listToJson body))])])
  | .doBlock body =>
      variant "Do" (.object [("body", .array (Stmt.listToJson body))])
  | .repeatLoop body test =>
      variant "Repeat" (.object
        [("body", .object [("body", .array (Stmt.listToJson body))]), ("test", test.toJson)])
  | .ifThen test body none =>
      variant "If" (.object
        [("test", test.toJson), ("body", .object [("body", .array (Stmt.listToJson body))]),
          ("orelse", .null)])
  | .ifThen test body (some orelse) =>
      variant "If" (.object
        [("test", test.toJson), ("body", .object [("body", .array (Stmt.listToJson body))]),
          ("orelse", orelse.toJson)])
  | .label id => variant "Label" (Name.toJson id)
  | .goto id => variant "Goto" (Name.toJson id)
  | .breakLoop => .string "Break"
  | .returnValues values => variant "Return" (.array (Expr.listToJson values))
  | .numericFor counter start stop step body =>
      variant "Fornum" (.object
        [("target", Name.toJson counter), ("start", start.toJson), ("stop", stop.toJson),
          ("step", step.toJson), ("body", .object [("body", .array (Stmt.listToJson body))])])
  | .genericFor names iterators body =>
      variant "Forin" (.object
        [("targets", .array (names.map Name.toJson)),
          ("iter", .array (Expr.listToJson iterators)),
          ("body", .object [("body", .array (Stmt.listToJson body))])])
  | .function name parameters body =>
      variant "Function" (.object
        [("name", name.toJson), ("args", .array (Expr.listToJson parameters)),
          ("body", .object [("body", .array (Stmt.listToJson body))])])
  | .localFunction name parameters body =>
      variant "LocalFunction" (.object
        [("name", Name.toJson name), ("args", .array (Expr.listToJson parameters)),
          ("body", .object [("body", .array (Stmt.listToJson body))])])
  | .method receiver name parameters body =>
      variant "Method" (.object
        [("source", receiver.toJson), ("name", Name.toJson name),
          ("args", .array (Expr.listToJson parameters)),
          ("body", .object [("body", .array (Stmt.listToJson body))])])
  | .expr value => variant "Expr" value.toJson
  | .semicolon => .string "SemiColon"

def Stmt.listToJson : List Stmt → List Json
  | [] => []
  | stmt :: stmts => stmt.toJson :: Stmt.listToJson stmts

def ElseBranch.toJson : ElseBranch → Json
  | .elseIf test body none =>
      variant "ElseIf" (.object
        [("test", test.toJson), ("body", .object [("body", .array (Stmt.listToJson body))]),
          ("orelse", .null)])
  | .elseIf test body (some orelse) =>
      variant "ElseIf" (.object
        [("test", test.toJson), ("body", .object [("body", .array (Stmt.listToJson body))]),
          ("orelse", orelse.toJson)])
  | .final body => variant "Else" (.object [("body", .array (Stmt.listToJson body))])

end

def Block.toJson (block : Block) : Json :=
  .object [("body", .array (Stmt.listToJson floats block))]

def Chunk.toJson (chunk : Chunk) : Json :=
  .object [("body", Block.toJson floats chunk.body)]

end Numerals

end LuaView
