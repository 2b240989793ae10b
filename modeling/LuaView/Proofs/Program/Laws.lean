import LuaView.Program.Tree

/-!
# Laws of programs

A law is a condition on every node of a program, stated one node at a time: what it says of a node
may look at the children, but it is asked of the children again in their own right.  A program obeys
a law if all its nodes do.

Sequences of statements are nodes of their own, since a condition such as "a `return` is the last
statement" is one on the sequence.
-/

namespace LuaView

/-- A condition on the nodes of a program. -/
structure Law where
  expr : Expr → Prop
  field : Field → Prop
  stmt : Stmt → Prop
  block : Block → Prop

mutual

/-- The expression and everything in it obeys the law. -/
def Expr.Obeys (law : Law) : Expr → Prop
  | .nil => law.expr .nil
  | .boolean value => law.expr (.boolean value)
  | .varargs => law.expr .varargs
  | .number value => law.expr (.number value)
  | .string text delimiter => law.expr (.string text delimiter)
  | .name id => law.expr (.name id)
  | .table fields => law.expr (.table fields) ∧ Field.AllObey law fields
  | .function parameters body =>
      law.expr (.function parameters body) ∧ Expr.AllObey law parameters ∧
        law.block body ∧ Stmt.AllObey law body
  | .index value key style =>
      law.expr (.index value key style) ∧ value.Obeys law ∧ key.Obeys law
  | .call callee arguments =>
      law.expr (.call callee arguments) ∧ callee.Obeys law ∧ Expr.AllObey law arguments
  | .invoke receiver method arguments =>
      law.expr (.invoke receiver method arguments) ∧ receiver.Obeys law ∧
        Expr.AllObey law arguments
  | .binary op left right =>
      law.expr (.binary op left right) ∧ left.Obeys law ∧ right.Obeys law
  | .unary op operand => law.expr (.unary op operand) ∧ operand.Obeys law

def Expr.AllObey (law : Law) : List Expr → Prop
  | [] => True
  | value :: values => value.Obeys law ∧ Expr.AllObey law values

/-- The entry and everything in it obeys the law. -/
def Field.Obeys (law : Law) : Field → Prop
  | .mk none value bracketed => law.field (.mk none value bracketed) ∧ value.Obeys law
  | .mk (some key) value bracketed =>
      law.field (.mk (some key) value bracketed) ∧ key.Obeys law ∧ value.Obeys law

def Field.AllObey (law : Law) : List Field → Prop
  | [] => True
  | field :: fields => field.Obeys law ∧ Field.AllObey law fields

/-- The statement and everything in it obeys the law. -/
def Stmt.Obeys (law : Law) : Stmt → Prop
  | .assign targets values =>
      law.stmt (.assign targets values) ∧ Expr.AllObey law targets ∧ Expr.AllObey law values
  | .localAssign targets values =>
      law.stmt (.localAssign targets values) ∧ Expr.AllObey law targets ∧ Expr.AllObey law values
  | .whileLoop test body =>
      law.stmt (.whileLoop test body) ∧ test.Obeys law ∧ law.block body ∧ Stmt.AllObey law body
  | .doBlock body => law.stmt (.doBlock body) ∧ law.block body ∧ Stmt.AllObey law body
  | .repeatLoop body test =>
      law.stmt (.repeatLoop body test) ∧ law.block body ∧ Stmt.AllObey law body ∧ test.Obeys law
  | .ifThen test body none =>
      law.stmt (.ifThen test body none) ∧ test.Obeys law ∧ law.block body ∧ Stmt.AllObey law body
  | .ifThen test body (some orelse) =>
      law.stmt (.ifThen test body (some orelse)) ∧ test.Obeys law ∧ law.block body ∧
        Stmt.AllObey law body ∧ orelse.Obeys law
  | .label id => law.stmt (.label id)
  | .goto id => law.stmt (.goto id)
  | .breakLoop => law.stmt .breakLoop
  | .returnValues values => law.stmt (.returnValues values) ∧ Expr.AllObey law values
  | .numericFor counter start stop step body =>
      law.stmt (.numericFor counter start stop step body) ∧ start.Obeys law ∧ stop.Obeys law ∧
        step.Obeys law ∧ law.block body ∧ Stmt.AllObey law body
  | .genericFor names iterators body =>
      law.stmt (.genericFor names iterators body) ∧ Expr.AllObey law iterators ∧
        law.block body ∧ Stmt.AllObey law body
  | .function name parameters body =>
      law.stmt (.function name parameters body) ∧ name.Obeys law ∧
        Expr.AllObey law parameters ∧ law.block body ∧ Stmt.AllObey law body
  | .localFunction name parameters body =>
      law.stmt (.localFunction name parameters body) ∧ Expr.AllObey law parameters ∧
        law.block body ∧ Stmt.AllObey law body
  | .method receiver name parameters body =>
      law.stmt (.method receiver name parameters body) ∧ receiver.Obeys law ∧
        Expr.AllObey law parameters ∧ law.block body ∧ Stmt.AllObey law body
  | .expr value => law.stmt (.expr value) ∧ value.Obeys law
  | .semicolon => law.stmt .semicolon

def Stmt.AllObey (law : Law) : List Stmt → Prop
  | [] => True
  | stmt :: stmts => stmt.Obeys law ∧ Stmt.AllObey law stmts

/-- The alternative and everything in it obeys the law. -/
def ElseBranch.Obeys (law : Law) : ElseBranch → Prop
  | .elseIf test body none => test.Obeys law ∧ law.block body ∧ Stmt.AllObey law body
  | .elseIf test body (some orelse) =>
      test.Obeys law ∧ law.block body ∧ Stmt.AllObey law body ∧ orelse.Obeys law
  | .final body => law.block body ∧ Stmt.AllObey law body

end

/-- The block and everything in it obeys the law. -/
def Block.Obeys (law : Law) (block : Block) : Prop :=
  law.block block ∧ Stmt.AllObey law block

/-- Everything in the program obeys the law. -/
def Chunk.Obeys (law : Law) (chunk : Chunk) : Prop :=
  Block.Obeys law chunk.body

/-- A law holds of expressions if and only if it holds of each of them. -/
theorem Expr.allObey_iff
    {law : Law}
    {values : List Expr} :
    Expr.AllObey law values ↔ ∀ value ∈ values, value.Obeys law := by
  induction values with
  | nil => exact iff_of_true trivial nofun
  | cons value values ih => rw [List.forall_mem_cons, Expr.AllObey, ih]

theorem Field.allObey_iff
    {law : Law}
    {fields : List Field} :
    Field.AllObey law fields ↔ ∀ field ∈ fields, field.Obeys law := by
  induction fields with
  | nil => exact iff_of_true trivial nofun
  | cons field fields ih => rw [List.forall_mem_cons, Field.AllObey, ih]

/-- A law holds of statements if and only if it holds of each of them. -/
theorem Stmt.allObey_iff
    {law : Law}
    {stmts : List Stmt} :
    Stmt.AllObey law stmts ↔ ∀ stmt ∈ stmts, stmt.Obeys law := by
  induction stmts with
  | nil => exact iff_of_true trivial nofun
  | cons stmt stmts ih => rw [List.forall_mem_cons, Stmt.AllObey, ih]

/-! ## Laws that follow from others -/

/-- Every node that obeys `law` and `other` together with all that is in it satisfies `result`. -/
structure Law.Gives (law other result : Law) : Prop where
  expr : ∀ value : Expr, value.Obeys law → value.Obeys other → result.expr value
  field : ∀ field : Field, field.Obeys law → field.Obeys other → result.field field
  stmt : ∀ stmt : Stmt, stmt.Obeys law → stmt.Obeys other → result.stmt stmt
  block : ∀ block : Block, Block.Obeys law block → Block.Obeys other block → result.block block

section Gives

variable {law other result : Law}

mutual

/-- Two laws that give a third one at every node give it of every expression. -/
theorem Expr.Obeys.of_gives
    (hlaws : law.Gives other result) :
    ∀ {value : Expr}, value.Obeys law → value.Obeys other → value.Obeys result
  | .nil, h, h' => hlaws.expr .nil h h'
  | .boolean value, h, h' => hlaws.expr (.boolean value) h h'
  | .varargs, h, h' => hlaws.expr .varargs h h'
  | .number value, h, h' => hlaws.expr (.number value) h h'
  | .string text delimiter, h, h' => hlaws.expr (.string text delimiter) h h'
  | .name id, h, h' => hlaws.expr (.name id) h h'
  | .table fields, h, h' =>
      ⟨hlaws.expr (.table fields) h h', Field.AllObey.of_gives hlaws h.2 h'.2⟩
  | .function parameters body, h, h' =>
      ⟨hlaws.expr (.function parameters body) h h', Expr.AllObey.of_gives hlaws h.2.1 h'.2.1,
        hlaws.block body h.2.2 h'.2.2, Stmt.AllObey.of_gives hlaws h.2.2.2 h'.2.2.2⟩
  | .index value key style, h, h' =>
      ⟨hlaws.expr (.index value key style) h h', Expr.Obeys.of_gives hlaws h.2.1 h'.2.1,
        Expr.Obeys.of_gives hlaws h.2.2 h'.2.2⟩
  | .call callee arguments, h, h' =>
      ⟨hlaws.expr (.call callee arguments) h h', Expr.Obeys.of_gives hlaws h.2.1 h'.2.1,
        Expr.AllObey.of_gives hlaws h.2.2 h'.2.2⟩
  | .invoke receiver method arguments, h, h' =>
      ⟨hlaws.expr (.invoke receiver method arguments) h h',
        Expr.Obeys.of_gives hlaws h.2.1 h'.2.1, Expr.AllObey.of_gives hlaws h.2.2 h'.2.2⟩
  | .binary op left right, h, h' =>
      ⟨hlaws.expr (.binary op left right) h h', Expr.Obeys.of_gives hlaws h.2.1 h'.2.1,
        Expr.Obeys.of_gives hlaws h.2.2 h'.2.2⟩
  | .unary op operand, h, h' =>
      ⟨hlaws.expr (.unary op operand) h h', Expr.Obeys.of_gives hlaws h.2 h'.2⟩

theorem Expr.AllObey.of_gives
    (hlaws : law.Gives other result) :
    ∀ {values : List Expr}, Expr.AllObey law values → Expr.AllObey other values →
      Expr.AllObey result values
  | [], _, _ => trivial
  | _ :: _, h, h' => ⟨Expr.Obeys.of_gives hlaws h.1 h'.1, Expr.AllObey.of_gives hlaws h.2 h'.2⟩

/-- Two laws that give a third one at every node give it of every entry. -/
theorem Field.Obeys.of_gives
    (hlaws : law.Gives other result) :
    ∀ {field : Field}, field.Obeys law → field.Obeys other → field.Obeys result
  | .mk none value bracketed, h, h' =>
      ⟨hlaws.field (.mk none value bracketed) h h', Expr.Obeys.of_gives hlaws h.2 h'.2⟩
  | .mk (some key) value bracketed, h, h' =>
      ⟨hlaws.field (.mk (some key) value bracketed) h h',
        Expr.Obeys.of_gives hlaws h.2.1 h'.2.1, Expr.Obeys.of_gives hlaws h.2.2 h'.2.2⟩

theorem Field.AllObey.of_gives
    (hlaws : law.Gives other result) :
    ∀ {fields : List Field}, Field.AllObey law fields → Field.AllObey other fields →
      Field.AllObey result fields
  | [], _, _ => trivial
  | _ :: _, h, h' => ⟨Field.Obeys.of_gives hlaws h.1 h'.1, Field.AllObey.of_gives hlaws h.2 h'.2⟩

/-- Two laws that give a third one at every node give it of every statement. -/
theorem Stmt.Obeys.of_gives
    (hlaws : law.Gives other result) :
    ∀ {stmt : Stmt}, stmt.Obeys law → stmt.Obeys other → stmt.Obeys result
  | .assign targets values, h, h' =>
      ⟨hlaws.stmt (.assign targets values) h h', Expr.AllObey.of_gives hlaws h.2.1 h'.2.1,
        Expr.AllObey.of_gives hlaws h.2.2 h'.2.2⟩
  | .localAssign targets values, h, h' =>
      ⟨hlaws.stmt (.localAssign targets values) h h', Expr.AllObey.of_gives hlaws h.2.1 h'.2.1,
        Expr.AllObey.of_gives hlaws h.2.2 h'.2.2⟩
  | .whileLoop test body, h, h' =>
      ⟨hlaws.stmt (.whileLoop test body) h h', Expr.Obeys.of_gives hlaws h.2.1 h'.2.1,
        hlaws.block body h.2.2 h'.2.2, Stmt.AllObey.of_gives hlaws h.2.2.2 h'.2.2.2⟩
  | .doBlock body, h, h' =>
      ⟨hlaws.stmt (.doBlock body) h h', hlaws.block body h.2 h'.2,
        Stmt.AllObey.of_gives hlaws h.2.2 h'.2.2⟩
  | .repeatLoop body test, h, h' =>
      ⟨hlaws.stmt (.repeatLoop body test) h h',
        hlaws.block body ⟨h.2.1, h.2.2.1⟩ ⟨h'.2.1, h'.2.2.1⟩,
        Stmt.AllObey.of_gives hlaws h.2.2.1 h'.2.2.1, Expr.Obeys.of_gives hlaws h.2.2.2 h'.2.2.2⟩
  | .ifThen test body none, h, h' =>
      ⟨hlaws.stmt (.ifThen test body none) h h', Expr.Obeys.of_gives hlaws h.2.1 h'.2.1,
        hlaws.block body h.2.2 h'.2.2, Stmt.AllObey.of_gives hlaws h.2.2.2 h'.2.2.2⟩
  | .ifThen test body (some orelse), h, h' =>
      ⟨hlaws.stmt (.ifThen test body (some orelse)) h h', Expr.Obeys.of_gives hlaws h.2.1 h'.2.1,
        hlaws.block body ⟨h.2.2.1, h.2.2.2.1⟩ ⟨h'.2.2.1, h'.2.2.2.1⟩,
        Stmt.AllObey.of_gives hlaws h.2.2.2.1 h'.2.2.2.1,
        ElseBranch.Obeys.of_gives hlaws h.2.2.2.2 h'.2.2.2.2⟩
  | .label id, h, h' => hlaws.stmt (.label id) h h'
  | .goto id, h, h' => hlaws.stmt (.goto id) h h'
  | .breakLoop, h, h' => hlaws.stmt .breakLoop h h'
  | .returnValues values, h, h' =>
      ⟨hlaws.stmt (.returnValues values) h h', Expr.AllObey.of_gives hlaws h.2 h'.2⟩
  | .numericFor counter start stop step body, h, h' =>
      ⟨hlaws.stmt (.numericFor counter start stop step body) h h',
        Expr.Obeys.of_gives hlaws h.2.1 h'.2.1, Expr.Obeys.of_gives hlaws h.2.2.1 h'.2.2.1,
        Expr.Obeys.of_gives hlaws h.2.2.2.1 h'.2.2.2.1, hlaws.block body h.2.2.2.2 h'.2.2.2.2,
        Stmt.AllObey.of_gives hlaws h.2.2.2.2.2 h'.2.2.2.2.2⟩
  | .genericFor names iterators body, h, h' =>
      ⟨hlaws.stmt (.genericFor names iterators body) h h',
        Expr.AllObey.of_gives hlaws h.2.1 h'.2.1, hlaws.block body h.2.2 h'.2.2,
        Stmt.AllObey.of_gives hlaws h.2.2.2 h'.2.2.2⟩
  | .function name parameters body, h, h' =>
      ⟨hlaws.stmt (.function name parameters body) h h', Expr.Obeys.of_gives hlaws h.2.1 h'.2.1,
        Expr.AllObey.of_gives hlaws h.2.2.1 h'.2.2.1, hlaws.block body h.2.2.2 h'.2.2.2,
        Stmt.AllObey.of_gives hlaws h.2.2.2.2 h'.2.2.2.2⟩
  | .localFunction name parameters body, h, h' =>
      ⟨hlaws.stmt (.localFunction name parameters body) h h',
        Expr.AllObey.of_gives hlaws h.2.1 h'.2.1, hlaws.block body h.2.2 h'.2.2,
        Stmt.AllObey.of_gives hlaws h.2.2.2 h'.2.2.2⟩
  | .method receiver name parameters body, h, h' =>
      ⟨hlaws.stmt (.method receiver name parameters body) h h',
        Expr.Obeys.of_gives hlaws h.2.1 h'.2.1, Expr.AllObey.of_gives hlaws h.2.2.1 h'.2.2.1,
        hlaws.block body h.2.2.2 h'.2.2.2, Stmt.AllObey.of_gives hlaws h.2.2.2.2 h'.2.2.2.2⟩
  | .expr value, h, h' =>
      ⟨hlaws.stmt (.expr value) h h', Expr.Obeys.of_gives hlaws h.2 h'.2⟩
  | .semicolon, h, h' => hlaws.stmt .semicolon h h'

theorem Stmt.AllObey.of_gives
    (hlaws : law.Gives other result) :
    ∀ {stmts : List Stmt}, Stmt.AllObey law stmts → Stmt.AllObey other stmts →
      Stmt.AllObey result stmts
  | [], _, _ => trivial
  | _ :: _, h, h' => ⟨Stmt.Obeys.of_gives hlaws h.1 h'.1, Stmt.AllObey.of_gives hlaws h.2 h'.2⟩

/-- Two laws that give a third one at every node give it of every alternative. -/
theorem ElseBranch.Obeys.of_gives
    (hlaws : law.Gives other result) :
    ∀ {orelse : ElseBranch}, orelse.Obeys law → orelse.Obeys other → orelse.Obeys result
  | .elseIf _ body none, h, h' =>
      ⟨Expr.Obeys.of_gives hlaws h.1 h'.1, hlaws.block body h.2 h'.2,
        Stmt.AllObey.of_gives hlaws h.2.2 h'.2.2⟩
  | .elseIf _ body (some _), h, h' =>
      ⟨Expr.Obeys.of_gives hlaws h.1 h'.1,
        hlaws.block body ⟨h.2.1, h.2.2.1⟩ ⟨h'.2.1, h'.2.2.1⟩,
        Stmt.AllObey.of_gives hlaws h.2.2.1 h'.2.2.1,
        ElseBranch.Obeys.of_gives hlaws h.2.2.2 h'.2.2.2⟩
  | .final body, h, h' => ⟨hlaws.block body h h', Stmt.AllObey.of_gives hlaws h.2 h'.2⟩

end

/-- A program obeys what its laws give. -/
theorem Chunk.Obeys.of_gives
    (hlaws : law.Gives other result)
    {chunk : Chunk}
    (h : chunk.Obeys law)
    (h' : chunk.Obeys other) :
    chunk.Obeys result :=
  ⟨hlaws.block chunk.body h h', Stmt.AllObey.of_gives hlaws h.2 h'.2⟩

end Gives

end LuaView
