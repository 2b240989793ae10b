import LuaView.Grammar.Expression
import LuaView.Proofs.Lexing.Spelling
import LuaView.Proofs.Program.Laws
import LuaView.Visual.Program

/-!
# The marks of a program

The marks that a program is written with as plain text, in their order and without regard to
layout.  An operation inside another one is grouped, the arguments of a call are always in
parentheses, and every entry of a table is followed by a comma.

`Law.readable` says when these marks determine the program.  With `wide` set, anything but an
operation may have suffixes, numerals are decimal integers, and any text may stand in long brackets.
-/

namespace LuaView

open Mark (word sign)

namespace Mark

/-- Lists of marks with commas between them. -/
def commas : List (List Mark) → List Mark
  | [] => []
  | [marks] => marks
  | marks :: rest => marks ++ sign .comma :: commas rest

/-- Marks in parentheses, if they have to be grouped. -/
def group (grouped : Bool) (marks : List Mark) : List Mark :=
  if grouped then sign .lparen :: (marks ++ [sign .rparen]) else marks

/-- The parameters and the body of a function. -/
def functionBody (parameters : List (List Mark)) (body : List Mark) : List Mark :=
  sign .lparen :: (commas parameters ++ sign .rparen :: (body ++ [word .end_]))

/-- The arguments of a call. -/
def arguments (values : List (List Mark)) : List Mark :=
  sign .lparen :: (commas values ++ [sign .rparen])

/-- The body of a loop. -/
def loopBody (body : List Mark) : List Mark :=
  word .do_ :: (body ++ [word .end_])

end Mark

def BinaryOp.mark : BinaryOp → Mark
  | .add => sign .plus
  | .sub => sign .minus
  | .mul => sign .star
  | .div => sign .slash
  | .floorDiv => sign .slashSlash
  | .mod => sign .percent
  | .pow => sign .caret
  | .bitAnd => sign .amp
  | .bitOr => sign .pipe
  | .bitXor => sign .tilde
  | .shiftRight => sign .gtGt
  | .shiftLeft => sign .ltLt
  | .lt => sign .lt
  | .gt => sign .gt
  | .le => sign .ltEq
  | .ge => sign .gtEq
  | .eq => sign .eqEq
  | .ne => sign .tildeEq
  | .and => word .and_
  | .or => word .or_
  | .concat => sign .dotDot

def UnaryOp.mark : UnaryOp → Mark
  | .neg => sign .minus
  | .bitNot => sign .tilde
  | .not => word .not_
  | .len => sign .hash

/-- The expression is an operation. -/
def Expr.isOperation : Expr → Bool
  | .binary _ _ _ | .unary _ _ => true
  | _ => false

mutual

def Expr.marks : Expr → List Mark
  | .nil => [word .nil_]
  | .boolean true => [word .true_]
  | .boolean false => [word .false_]
  | .varargs => [sign .ellipsis]
  | .number value => [⟨.number, value.text⟩]
  | .string text delimiter => [⟨.string delimiter, text⟩]
  | .name id => [Mark.name id]
  | .table fields => sign .lbrace :: (Field.marksOfAll fields ++ [sign .rbrace])
  | .function parameters body =>
      word .function_ :: Mark.functionBody (Expr.marksOfEach parameters) (Stmt.marksOfAll body)
  | .index value key .dot => value.marks ++ sign .dot :: key.marks
  | .index value key .bracket =>
      value.marks ++ sign .lbracket :: (key.marks ++ [sign .rbracket])
  | .call callee arguments => callee.marks ++ Mark.arguments (Expr.marksOfEach arguments)
  | .invoke receiver method arguments =>
      receiver.marks ++ sign .colon :: Mark.name method ::
        Mark.arguments (Expr.marksOfEach arguments)
  | .binary op left right =>
      Mark.group left.isOperation left.marks ++
        op.mark :: Mark.group right.isOperation right.marks
  | .unary op operand => op.mark :: Mark.group operand.isOperation operand.marks

def Expr.marksOfEach : List Expr → List (List Mark)
  | [] => []
  | value :: values => value.marks :: Expr.marksOfEach values

def Field.marks : Field → List Mark
  | .mk none value _ => value.marks
  | .mk (some key) value true =>
      sign .lbracket :: (key.marks ++ sign .rbracket :: sign .eq :: value.marks)
  | .mk (some key) value false => key.marks ++ sign .eq :: value.marks

/-- The entries of a table, each with the comma behind it. -/
def Field.marksOfAll : List Field → List Mark
  | [] => []
  | field :: fields => field.marks ++ sign .comma :: Field.marksOfAll fields

def Stmt.marks : Stmt → List Mark
  | .assign targets values =>
      Mark.commas (Expr.marksOfEach targets) ++
        sign .eq :: Mark.commas (Expr.marksOfEach values)
  | .localAssign targets [] => word .local_ :: Mark.commas (Expr.marksOfEach targets)
  | .localAssign targets (value :: values) =>
      word .local_ :: (Mark.commas (Expr.marksOfEach targets) ++
        sign .eq :: Mark.commas (value.marks :: Expr.marksOfEach values))
  | .whileLoop test body =>
      word .while_ :: (test.marks ++ Mark.loopBody (Stmt.marksOfAll body))
  | .doBlock body => Mark.loopBody (Stmt.marksOfAll body)
  | .repeatLoop body test =>
      word .repeat_ :: (Stmt.marksOfAll body ++ word .until_ :: test.marks)
  | .ifThen test body none =>
      word .if_ :: (test.marks ++ word .then_ :: (Stmt.marksOfAll body ++ [word .end_]))
  | .ifThen test body (some orelse) =>
      word .if_ :: (test.marks ++ word .then_ ::
        (Stmt.marksOfAll body ++ (orelse.marks ++ [word .end_])))
  | .label id => [sign .colonColon, Mark.name id, sign .colonColon]
  | .goto id => [word .goto_, Mark.name id]
  | .breakLoop => [word .break_]
  | .returnValues values => word .return_ :: Mark.commas (Expr.marksOfEach values)
  | .numericFor counter start stop step body =>
      word .for_ :: Mark.name counter :: sign .eq :: (start.marks ++ sign .comma ::
        (stop.marks ++ ((if step.isDefaultStep then [] else sign .comma :: step.marks) ++
          Mark.loopBody (Stmt.marksOfAll body))))
  | .genericFor names iterators body =>
      word .for_ :: (Mark.commas (names.map fun id => [Mark.name id]) ++ word .in_ ::
        (Mark.commas (Expr.marksOfEach iterators) ++ Mark.loopBody (Stmt.marksOfAll body)))
  | .function name parameters body =>
      word .function_ :: (name.marks ++
        Mark.functionBody (Expr.marksOfEach parameters) (Stmt.marksOfAll body))
  | .localFunction name parameters body =>
      word .local_ :: word .function_ :: Mark.name name ::
        Mark.functionBody (Expr.marksOfEach parameters) (Stmt.marksOfAll body)
  | .method receiver name parameters body =>
      word .function_ :: (receiver.marks ++ sign .colon :: Mark.name name ::
        Mark.functionBody (Expr.marksOfEach parameters) (Stmt.marksOfAll body))
  | .expr value => value.marks
  | .semicolon => [sign .semicolon]

def Stmt.marksOfAll : List Stmt → List Mark
  | [] => []
  | stmt :: stmts => stmt.marks ++ Stmt.marksOfAll stmts

def ElseBranch.marks : ElseBranch → List Mark
  | .elseIf test body none =>
      word .elseif_ :: (test.marks ++ word .then_ :: Stmt.marksOfAll body)
  | .elseIf test body (some orelse) =>
      word .elseif_ :: (test.marks ++ word .then_ :: (Stmt.marksOfAll body ++ orelse.marks))
  | .final body => word .else_ :: Stmt.marksOfAll body

end

/-! ## Readable programs -/

/-- Names, and what is accessed or called, may have suffixes; with `wide` set, so may everything
that is not an operation. -/
def Expr.isHead (wide : Bool) : Expr → Bool
  | .name _ | .index _ _ _ | .call _ _ | .invoke _ _ _ => true
  | .binary _ _ _ | .unary _ _ => false
  | _ => wide

/-- What takes suffixes in a readable program is no operation. -/
theorem Expr.isOperation_of_isHead
    {wide : Bool}
    {value : Expr}
    (h : value.isHead wide = true) :
    value.isOperation = false := by
  cases value with
  | binary op left right => cases h
  | unary op operand => cases h
  | _ => rfl

def Expr.isName : Expr → Bool
  | .name _ => true
  | _ => false

/-- The first mark of the expression is a long bracket. -/
def Expr.opensLong : Expr → Bool
  | .string _ .long => true
  | .index value _ _ => value.opensLong
  | .call callee _ => callee.opensLong
  | .invoke receiver _ _ => receiver.opensLong
  | .binary _ left _ => !left.isOperation && left.opensLong
  | _ => false

/-- Names, and then `...` or nothing. -/
def Expr.areParameters : List Expr → Bool
  | [] => true
  | [.varargs] => true
  | .name _ :: parameters => Expr.areParameters parameters
  | _ => false

/-- A name and names behind points. -/
def Expr.isDotted : Expr → Bool
  | .name _ => true
  | .index value (.name _) .dot => value.isDotted
  | _ => false

def Stmt.isReturn : Stmt → Bool
  | .returnValues _ => true
  | _ => false

/-- What the grammar asks of a statement: lists of targets, names and values are not empty where
there have to be some, a function has a name with points and names as its parameters, and only calls
stand alone.  A loop whose step is one has the step that is meant if none is written. -/
def Stmt.IsGrammatical : Stmt → Prop
  | .assign targets values =>
      targets ≠ [] ∧ values ≠ [] ∧ targets.all Expr.isAssignable = true
  | .localAssign targets _ => targets ≠ [] ∧ targets.all Expr.isName = true
  | .label id | .goto id => IsName id.toList
  | .numericFor counter _ _ step _ =>
      IsName counter.toList ∧ (step.isDefaultStep = true → step = .int 1)
  | .genericFor names iterators _ =>
      names ≠ [] ∧ iterators ≠ [] ∧ ∀ id ∈ names, IsName id.toList
  | .function name parameters _ =>
      name.isDotted = true ∧ Expr.areParameters parameters = true
  | .localFunction name parameters _ =>
      IsName name.toList ∧ Expr.areParameters parameters = true
  | .method receiver name parameters _ =>
      receiver.isDotted = true ∧ IsName name.toList ∧ Expr.areParameters parameters = true
  | .expr value => value.isCall = true
  | _ => True

/-- A `return` is the last statement. -/
def Block.ReturnsLast (stmts : Block) : Prop :=
  stmts.dropLast.all (fun stmt => !stmt.isReturn) = true

/-- Names are names, literals read back as they are, and suffixes stand behind what may have them;
what the grammar asks of statements holds. -/
def Law.readable (wide : Bool) : Law where
  expr
    | .name id => (Mark.name id).Valid
    | .number value =>
        value.ReadsBack ∧ (wide = true → ∀ c ∈ value.text.toList, c.isDigit = true)
    | .string text delimiter => (Mark.mk (.string delimiter) text).Admitted wide
    | .function parameters _ => Expr.areParameters parameters = true
    | .index value key .dot => value.isHead wide = true ∧ key.isName = true
    | .index value key .bracket => value.isHead wide = true ∧ key.opensLong = false
    | .call callee _ => callee.isHead wide = true
    | .invoke receiver method _ => receiver.isHead wide = true ∧ (Mark.name method).Valid
    | _ => True
  field
    | .mk none _ bracketed => bracketed = false
    | .mk (some key) _ true => key.opensLong = false
    | .mk (some key) _ false => key.isName = true
  stmt := Stmt.IsGrammatical
  block := Block.ReturnsLast

end LuaView
