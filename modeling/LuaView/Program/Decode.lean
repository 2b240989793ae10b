import LuaView.Json.Part
import LuaView.Program.Encode
import LuaView.Text.CharClass

/-!
# Programs from JSON

Decoding the JSON form of a program.  Members may stand in any order and members of other names
are ignored.  A missing member is an error, except for `orelse` and `key`, where it stands for
`null`.  An alternative with a payload is an object with exactly one member; integers have to fit
64 bits, and a float may be written like an integer.
-/

namespace LuaView

open Json (Part)

-- powers are those of the core library, also where there are others
attribute [local instance (high)] instPowNat

def Delimiter.ofKey? : String → Option Delimiter
  | "SingleQuote" => some .single
  | "DoubleQuote" => some .double
  | "LongBracket" => some .long
  | _ => none

def IndexStyle.ofKey? : String → Option IndexStyle
  | "Dot" => some .dot
  | "Bracket" => some .bracket
  | _ => none

/-- An integer that fits 64 bits. -/
def Json.int64? (json : Json) : Option Int64 := do
  let value ← json.int?
  if -2 ^ (63 : Nat) ≤ value ∧ value < 2 ^ (63 : Nat) then some (Int64.ofInt value) else none

def Name.ofJson? (json : Json) : Option Name := do
  let id ← json.get? "id"
  id.string?

section Numerals

variable (floats : FloatNumerals)

/-- The float that a number stands for. -/
def Json.binary64? : Json → Option Binary64
  | .decimal text => floats.read? text
  | .integer value => floats.read? value.repr
  | _ => none

def Number.ofJson? : Json → Option Number
  | .object [("Int", payload)] => payload.int64?.map .int
  | .object [("Float", payload)] => (payload.binary64? floats).map .float
  | _ => none

mutual

def Expr.ofJson? : Json → Option Expr
  | .string tag =>
      match tag with
      | "Nil" => some .nil
      | "True" => some (.boolean true)
      | "False" => some (.boolean false)
      | "Varargs" => some .varargs
      | _ => none
  | .object [(tag, payload)] =>
      match tag with
      | "Number" => (Number.ofJson? floats payload).map .number
      | "String" => do
          let text ← (← payload.get? "value").string?
          let delimiter ← Delimiter.ofKey? (← (← payload.get? "delimiter").string?)
          pure (.string text delimiter)
      | "Name" => (Name.ofJson? payload).map .name
      | "Table" => do
          let fields ← payload.itemsOf? "fields"
          pure (.table (← fields.mapM fun field => Field.ofJson? field.val))
      | "AnonymousFunction" => do
          let parameters ← payload.itemsOf? "args"
          let parameters ← parameters.mapM fun parameter => Expr.ofJson? parameter.val
          let body ← payload.part? "body"
          pure (.function parameters (← Block.ofJson? body.val))
      | "Index" => do
          let value ← payload.part? "value"
          let value ← Expr.ofJson? value.val
          let key ← payload.part? "idx"
          let key ← Expr.ofJson? key.val
          let style ← IndexStyle.ofKey? (← (← payload.get? "notation").string?)
          pure (.index value key style)
      | "Call" => do
          let callee ← payload.part? "func"
          let callee ← Expr.ofJson? callee.val
          let arguments ← payload.itemsOf? "args"
          pure (.call callee (← arguments.mapM fun argument => Expr.ofJson? argument.val))
      | "Invoke" => do
          let receiver ← payload.part? "source"
          let receiver ← Expr.ofJson? receiver.val
          let method ← Name.ofJson? (← payload.get? "func")
          let arguments ← payload.itemsOf? "args"
          pure (.invoke receiver method
            (← arguments.mapM fun argument => Expr.ofJson? argument.val))
      | "BinaryOp" => do
          let op ← BinaryOp.ofKey? (← (← payload.get? "op").string?)
          let left ← payload.part? "left"
          let left ← Expr.ofJson? left.val
          let right ← payload.part? "right"
          pure (.binary op left (← Expr.ofJson? right.val))
      | "UnaryOp" => do
          let op ← UnaryOp.ofKey? (← (← payload.get? "op").string?)
          let operand ← payload.part? "operand"
          pure (.unary op (← Expr.ofJson? operand.val))
      | _ => none
  | _ => none
termination_by json => sizeOf json
decreasing_by all_goals exact Part.sizeOf_lt_variant _

def Field.ofJson? (json : Json) : Option Field := do
  let key ← match json.optionalPart "key" with
    | none => pure none
    | some key => (Expr.ofJson? key.val).map some
  let value ← json.part? "value"
  let value ← Expr.ofJson? value.val
  let bracketed ← (← json.get? "bracketed").bool?
  pure (.mk key value bracketed)
termination_by sizeOf json
decreasing_by all_goals exact Part.sizeOf_lt _

def Block.ofJson? (json : Json) : Option Block := do
  let stmts ← json.itemsOf? "body"
  stmts.mapM fun stmt => Stmt.ofJson? stmt.val
termination_by sizeOf json
decreasing_by all_goals exact Part.sizeOf_lt _

def Stmt.ofJson? : Json → Option Stmt
  | .string tag =>
      match tag with
      | "Break" => some .breakLoop
      | "SemiColon" => some .semicolon
      | _ => none
  | .object [(tag, payload)] =>
      match tag with
      | "Assign" => do
          let targets ← payload.itemsOf? "targets"
          let targets ← targets.mapM fun target => Expr.ofJson? target.val
          let values ← payload.itemsOf? "values"
          pure (.assign targets (← values.mapM fun value => Expr.ofJson? value.val))
      | "LocalAssign" => do
          let targets ← payload.itemsOf? "targets"
          let targets ← targets.mapM fun target => Expr.ofJson? target.val
          let values ← payload.itemsOf? "values"
          pure (.localAssign targets (← values.mapM fun value => Expr.ofJson? value.val))
      | "While" => do
          let test ← payload.part? "test"
          let test ← Expr.ofJson? test.val
          let body ← payload.part? "body"
          pure (.whileLoop test (← Block.ofJson? body.val))
      | "Do" => (Block.ofJson? payload).map .doBlock
      | "Repeat" => do
          let body ← payload.part? "body"
          let body ← Block.ofJson? body.val
          let test ← payload.part? "test"
          pure (.repeatLoop body (← Expr.ofJson? test.val))
      | "If" => do
          let test ← payload.part? "test"
          let test ← Expr.ofJson? test.val
          let body ← payload.part? "body"
          let body ← Block.ofJson? body.val
          match payload.optionalPart "orelse" with
          | none => pure (.ifThen test body none)
          | some orelse => pure (.ifThen test body (some (← ElseBranch.ofJson? orelse.val)))
      | "Label" => (Name.ofJson? payload).map .label
      | "Goto" => (Name.ofJson? payload).map .goto
      | "Return" => do
          let values ← payload.items?
          pure (.returnValues (← values.mapM fun value => Expr.ofJson? value.val))
      | "Fornum" => do
          let counter ← Name.ofJson? (← payload.get? "target")
          let start ← payload.part? "start"
          let start ← Expr.ofJson? start.val
          let stop ← payload.part? "stop"
          let stop ← Expr.ofJson? stop.val
          let step ← payload.part? "step"
          let step ← Expr.ofJson? step.val
          let body ← payload.part? "body"
          pure (.numericFor counter start stop step (← Block.ofJson? body.val))
      | "Forin" => do
          let names ← (← payload.get? "targets").list? Name.ofJson?
          let iterators ← payload.itemsOf? "iter"
          let iterators ← iterators.mapM fun value => Expr.ofJson? value.val
          let body ← payload.part? "body"
          pure (.genericFor names iterators (← Block.ofJson? body.val))
      | "Function" => do
          let name ← payload.part? "name"
          let name ← Expr.ofJson? name.val
          let parameters ← payload.itemsOf? "args"
          let parameters ← parameters.mapM fun parameter => Expr.ofJson? parameter.val
          let body ← payload.part? "body"
          pure (.function name parameters (← Block.ofJson? body.val))
      | "LocalFunction" => do
          let name ← Name.ofJson? (← payload.get? "name")
          let parameters ← payload.itemsOf? "args"
          let parameters ← parameters.mapM fun parameter => Expr.ofJson? parameter.val
          let body ← payload.part? "body"
          pure (.localFunction name parameters (← Block.ofJson? body.val))
      | "Method" => do
          let receiver ← payload.part? "source"
          let receiver ← Expr.ofJson? receiver.val
          let name ← Name.ofJson? (← payload.get? "name")
          let parameters ← payload.itemsOf? "args"
          let parameters ← parameters.mapM fun parameter => Expr.ofJson? parameter.val
          let body ← payload.part? "body"
          pure (.method receiver name parameters (← Block.ofJson? body.val))
      | "Expr" => (Expr.ofJson? payload).map .expr
      | _ => none
  | _ => none
termination_by json => sizeOf json
decreasing_by
  all_goals first
    | exact Part.sizeOf_lt_variant _
    | exact Json.sizeOf_lt_variant _ _

def ElseBranch.ofJson? : Json → Option ElseBranch
  | .object [(tag, payload)] =>
      match tag with
      | "ElseIf" => do
          let test ← payload.part? "test"
          let test ← Expr.ofJson? test.val
          let body ← payload.part? "body"
          let body ← Block.ofJson? body.val
          match payload.optionalPart "orelse" with
          | none => pure (.elseIf test body none)
          | some orelse => pure (.elseIf test body (some (← ElseBranch.ofJson? orelse.val)))
      | "Else" => (Block.ofJson? payload).map .final
      | _ => none
  | _ => none
termination_by json => sizeOf json
decreasing_by
  all_goals first
    | exact Part.sizeOf_lt_variant _
    | exact Json.sizeOf_lt_variant _ _

end

def Chunk.ofJson? (json : Json) : Option Chunk := do
  let body ← json.get? "body"
  return ⟨← Block.ofJson? floats body⟩

end Numerals

end LuaView
