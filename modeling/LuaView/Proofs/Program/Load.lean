import LuaView.Program.Tree
import Mathlib.Algebra.Group.Basic

/-!
# The load of a program

How many levels of nesting a program needs at least, and how many opening parentheses a source of it
has at least.  The two are kept together: where a source has a pair of parentheses more than it has
to, the parser may need one level more.

Not every part of a program is one level below the whole.  An operand on the left of an operator,
the value in front of a suffix and the next condition of a chain are on the level of what they
belong to, however many of them follow one another.
-/

namespace LuaView

/-- Levels of nesting and opening parentheses. -/
@[ext] structure Load where
  levels : Nat
  parens : Nat
deriving DecidableEq, Repr

namespace Load

/-- A pair of parentheses. -/
def paren : Load := ⟨0, 1⟩

/-- The same one level deeper. -/
def below (load : Load) : Load :=
  ⟨load.levels + 1, load.parens⟩

instance : Zero Load := ⟨⟨0, 0⟩⟩

/-- Side by side the deeper one counts, and there are the parentheses of both. -/
instance : Add Load :=
  ⟨fun load other => ⟨max load.levels other.levels, load.parens + other.parens⟩⟩

@[simp] theorem levels_zero : (0 : Load).levels = 0 := rfl

@[simp] theorem parens_zero : (0 : Load).parens = 0 := rfl

/-- Side by side the larger number of levels counts. -/
@[simp] theorem levels_add (load other : Load) :
    (load + other).levels = max load.levels other.levels := rfl

/-- Side by side all parentheses count. -/
@[simp] theorem parens_add (load other : Load) :
    (load + other).parens = load.parens + other.parens := rfl

@[simp] theorem levels_below (load : Load) : load.below.levels = load.levels + 1 := rfl

@[simp] theorem parens_below (load : Load) : load.below.parens = load.parens := rfl

@[simp] theorem levels_paren : paren.levels = 0 := rfl

@[simp] theorem parens_paren : paren.parens = 1 := rfl

instance : AddCommMonoid Load where
  add_assoc a b c := by
    ext
    · simp only [levels_add, Nat.max_assoc]
    · simp only [parens_add, Nat.add_assoc]
  zero_add a := by ext <;> simp
  add_zero a := by ext <;> simp
  add_comm a b := by
    ext
    · simp only [levels_add, Nat.max_comm]
    · simp only [parens_add, Nat.add_comm]
  nsmul := nsmulRec

/-- The arguments of a call.  A string or a table alone needs no parentheses, and then it is on the
level of the call. -/
def ofArguments (alone : Bool) (load deeper : Load) : Load :=
  if alone then load else paren + deeper

end Load

/-- The arguments are a string or a table alone. -/
def Expr.standAlone : List Expr → Bool
  | [.string _ _] | [.table _] => true
  | _ => false

/-- Arguments without parentheses are a single expression. -/
theorem Expr.eq_of_standAlone
    {values : List Expr}
    (h : Expr.standAlone values = true) :
    ∃ value, values = [value] := by
  unfold Expr.standAlone at h
  split at h
  · exact ⟨_, rfl⟩
  · exact ⟨_, rfl⟩
  · cases h

mutual

def Expr.load : Expr → Load
  | .nil | .boolean _ | .varargs | .number _ | .string _ _ | .name _ => 0
  | .table fields => Field.loads fields
  | .function parameters body => .paren + Expr.loads parameters + (Stmt.loads body).below
  | .index value key .dot => value.load + key.load
  | .index value key .bracket => value.load + key.load.below
  | .call callee arguments =>
      callee.load + .ofArguments (Expr.standAlone arguments) (Expr.loads arguments)
        (Expr.deeperLoads arguments)
  | .invoke receiver _ arguments =>
      receiver.load + .ofArguments (Expr.standAlone arguments) (Expr.loads arguments)
        (Expr.deeperLoads arguments)
  | .binary _ left right => left.load + right.load.below
  | .unary _ operand => operand.load.below

/-- Expressions side by side, on the level of what they belong to. -/
def Expr.loads : List Expr → Load
  | [] => 0
  | value :: values => value.load + Expr.loads values

/-- Expressions side by side, each one level deeper. -/
def Expr.deeperLoads : List Expr → Load
  | [] => 0
  | value :: values => value.load.below + Expr.deeperLoads values

def Field.load : Field → Load
  | .mk none value _ => value.load.below
  | .mk (some key) value true => key.load.below + value.load.below
  | .mk (some key) value false => key.load + value.load.below

def Field.loads : List Field → Load
  | [] => 0
  | field :: fields => field.load + Field.loads fields

def Stmt.load : Stmt → Load
  | .assign targets values | .localAssign targets values =>
      Expr.loads targets + Expr.deeperLoads values
  | .whileLoop test body => test.load.below + (Stmt.loads body).below
  | .doBlock body => (Stmt.loads body).below
  | .repeatLoop body test => (Stmt.loads body).below + test.load.below
  | .ifThen test body none => test.load.below + (Stmt.loads body).below
  | .ifThen test body (some orelse) => test.load.below + (Stmt.loads body).below + orelse.load
  | .label _ | .goto _ | .breakLoop | .semicolon => 0
  | .returnValues values => Expr.deeperLoads values
  | .numericFor _ start stop step body =>
      start.load.below + stop.load.below + step.load.below + (Stmt.loads body).below
  | .genericFor _ iterators body => Expr.deeperLoads iterators + (Stmt.loads body).below
  | .function name parameters body =>
      name.load + .paren + Expr.loads parameters + (Stmt.loads body).below
  | .localFunction _ parameters body =>
      .paren + Expr.loads parameters + (Stmt.loads body).below
  | .method receiver _ parameters body =>
      receiver.load + .paren + Expr.loads parameters + (Stmt.loads body).below
  | .expr value => value.load

def Stmt.loads : List Stmt → Load
  | [] => 0
  | stmt :: stmts => stmt.load + Stmt.loads stmts

def ElseBranch.load : ElseBranch → Load
  | .elseIf test body none => test.load.below + (Stmt.loads body).below
  | .elseIf test body (some orelse) => test.load.below + (Stmt.loads body).below + orelse.load
  | .final body => (Stmt.loads body).below

end

/-- What follows the body of a condition, if anything does. -/
def ElseBranch.optionLoad : Option ElseBranch → Load
  | none => 0
  | some orelse => orelse.load

/-- A condition has its test and its body one level below, and its alternatives on its level. -/
theorem Stmt.load_ifThen (test : Expr) (body : Block) (orelse : Option ElseBranch) :
    (Stmt.ifThen test body orelse).load =
      test.load.below + (Stmt.loads body).below + ElseBranch.optionLoad orelse := by
  cases orelse with
  | none => exact (add_zero _).symm
  | some orelse => rfl

/-- A clause has its test and its body one level below, and its alternatives on its level. -/
theorem ElseBranch.load_elseIf (test : Expr) (body : Block) (orelse : Option ElseBranch) :
    (ElseBranch.elseIf test body orelse).load =
      test.load.below + (Stmt.loads body).below + ElseBranch.optionLoad orelse := by
  cases orelse with
  | none => exact (add_zero _).symm
  | some orelse => rfl

/-- The body of a program is on the first level. -/
def Chunk.load (chunk : Chunk) : Load :=
  (Stmt.loads chunk.body).below

/-- The load of expressions is the sum of their loads. -/
theorem Expr.loads_eq_sum (values : List Expr) :
    Expr.loads values = (values.map Expr.load).sum := by
  induction values with
  | nil => rfl
  | cons value values ih => rw [Expr.loads, ih, List.map_cons, List.sum_cons]

/-- The load of expressions one level deeper is the sum of their loads there. -/
theorem Expr.deeperLoads_eq_sum (values : List Expr) :
    Expr.deeperLoads values = (values.map fun value => value.load.below).sum := by
  induction values with
  | nil => rfl
  | cons value values ih => rw [Expr.deeperLoads, ih, List.map_cons, List.sum_cons]

/-- The loads of two lists of expressions are added. -/
theorem Expr.loads_append (values others : List Expr) :
    Expr.loads (values ++ others) = Expr.loads values + Expr.loads others := by
  rw [Expr.loads_eq_sum, Expr.loads_eq_sum, Expr.loads_eq_sum, List.map_append, List.sum_append]

/-- Names carry nothing. -/
theorem Expr.loads_names (names : List Name) :
    Expr.loads (names.map .name) = 0 := by
  induction names with
  | nil => rfl
  | cons id names ih => rw [List.map_cons, Expr.loads, ih, Expr.load, add_zero]

theorem Field.loads_append (fields others : List Field) :
    Field.loads (fields ++ others) = Field.loads fields + Field.loads others := by
  induction fields with
  | nil => rw [List.nil_append, Field.loads, zero_add]
  | cons field fields ih => rw [List.cons_append, Field.loads, Field.loads, ih, add_assoc]

theorem Stmt.loads_append (stmts others : List Stmt) :
    Stmt.loads (stmts ++ others) = Stmt.loads stmts + Stmt.loads others := by
  induction stmts with
  | nil => rw [List.nil_append, Stmt.loads, zero_add]
  | cons stmt stmts ih => rw [List.cons_append, Stmt.loads, Stmt.loads, ih, add_assoc]

end LuaView
