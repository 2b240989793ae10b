import LuaView.Proofs.Markup.AddedLevels

/-!
# How deep visual trees are

The limit on nesting does not bound the depth of visual trees.  An operand on the left of an
operator, the value in front of a suffix, a name in front of a point and the next alternative of a
condition are inside what they belong to, but they are on its level; a source can have any number of
them on one level.

Each step from a whole to such a part makes the visual tree deeper.  Apart from them every level
accounts for at most three steps.  So the depth is at least the number of steps that no level
counts, and at most three times the sum of that number and the limit.
-/

namespace LuaView

/-! ## Depth -/

namespace Element

mutual

/-- The length of the longest path from the element down to a run, a leaf or an empty container. -/
def depth : Element → Nat
  | .container _ _ children => depthOfAll children
  | .text _ | .leaf _ _ => 0

/-- The same for a container that has these children. -/
def depthOfAll : List Element → Nat
  | [] => 0
  | child :: rest => max (child.depth + 1) (depthOfAll rest)

end

@[simp] theorem depth_container (role : Role) (layout : Layout) (children : List Element) :
    (container role layout children).depth = depthOfAll children := rfl

@[simp] theorem depth_inline (role : Role) (children : List Element) :
    (inline role children).depth = depthOfAll children := rfl

@[simp] theorem depth_block (role : Role) (children : List Element) :
    (block role children).depth = depthOfAll children := rfl

@[simp] theorem depth_header (children : List Element) :
    (header children).depth = depthOfAll children := rfl

@[simp] theorem depth_text (run : String) : (text run).depth = 0 := rfl

@[simp] theorem depth_leaf (word : String) (emphasis : Emphasis) : (leaf word emphasis).depth = 0 :=
  rfl

@[simp] theorem depth_keyword (word : String) : (keyword word).depth = 0 := rfl

@[simp] theorem depth_name (id : Name) : (Name.toElement id).depth = 0 := rfl

@[simp] theorem depthOfAll_nil : depthOfAll [] = 0 := rfl

@[simp] theorem depthOfAll_cons (child : Element) (rest : List Element) :
    depthOfAll (child :: rest) = max (child.depth + 1) (depthOfAll rest) := rfl

/-- Two lists of children together are as deep as the deeper one. -/
@[simp] theorem depthOfAll_append (elements others : List Element) :
    depthOfAll (elements ++ others) = max (depthOfAll elements) (depthOfAll others) := by
  induction elements with
  | nil => simp
  | cons element elements ih => simp [ih, Nat.max_assoc]

/-- Commas are no deeper than what they separate. -/
@[simp] theorem depthOfAll_separate :
    ∀ elements : List Element, depthOfAll (separate elements) = depthOfAll elements
  | [] => rfl
  | [_] => rfl
  | element :: next :: rest => by
      have hrest := depthOfAll_separate (next :: rest)
      have hseparate : separate (element :: next :: rest) =
          element :: .text "," :: separate (next :: rest) := rfl
      rw [hseparate]
      simp only [depthOfAll_cons, depth_text, hrest]
      omega

/-- A list of expressions is as deep as the expressions in it. -/
@[simp] theorem depth_exprList (elements : List Element) :
    (exprList elements).depth = depthOfAll elements :=
  depthOfAll_separate elements

/-- Arguments are one step below the parentheses around them. -/
@[simp] theorem depthOfAll_callArguments (arguments : List Element) :
    depthOfAll (callArguments arguments) = depthOfAll arguments + 1 := by
  simp [callArguments]

/-- The head of a compound statement is one step below it, and so is its body. -/
@[simp] theorem depth_withBody (role : Role) (head : List Element) (body : Element) :
    (withBody role head body).depth = max (depthOfAll head) body.depth + 1 := by
  simp [withBody]

/-- The parameters of a function are one more step down than the rest of its head. -/
@[simp] theorem depth_functionUnit
    (role : Role)
    (head parameters : List Element)
    (body : Element) :
    (functionUnit role head parameters body).depth =
      max (max (depthOfAll head) (depthOfAll parameters + 1)) body.depth + 1 := by
  simp [functionUnit]

/-- A list of statements adds at most one step to them. -/
theorem depth_statements_le (elements : List Element) :
    (statements elements).depth ≤ depthOfAll elements + 1 := by
  induction elements with
  | nil => exact Nat.zero_le _
  | cons element elements ih =>
      simp only [statements, depth_block, List.map_cons, depthOfAll_cons, depthOfAll_nil] at ih ⊢
      omega

/-- A list of statements is at least as deep as they are. -/
theorem le_depth_statements (elements : List Element) :
    depthOfAll elements ≤ (statements elements).depth := by
  induction elements with
  | nil => exact Nat.zero_le _
  | cons element elements ih =>
      simp only [statements, depth_block, List.map_cons, depthOfAll_cons, depthOfAll_nil] at ih ⊢
      omega

/-- Expressions behind words add at most one step to both. -/
theorem depthOfAll_exprListAfter_le (words elements : List Element) :
    depthOfAll (exprListAfter words elements) ≤
      max (depthOfAll words) (depthOfAll elements + 1) := by
  unfold exprListAfter
  split
  · exact Nat.zero_le _
  · simp

/-- Expressions behind words are at least as deep as without them. -/
theorem le_depthOfAll_exprListAfter (words elements : List Element) :
    depthOfAll elements ≤ depthOfAll (exprListAfter words elements) := by
  unfold exprListAfter
  split
  case isTrue hempty => rw [List.isEmpty_iff.mp hempty]
  case isFalse =>
    rw [depthOfAll_append, depthOfAll_cons, depth_exprList]
    omega

/-- Names are no deeper than one step. -/
theorem depthOfAll_names_le (names : List Name) :
    depthOfAll (names.map Name.toElement) ≤ 1 := by
  induction names with
  | nil => exact Nat.zero_le _
  | cons id names ih =>
      simp only [List.map_cons, depthOfAll_cons, depth_name]
      omega

end Element

open Element (depthOfAll)

/-! ## Steps that no level counts -/

mutual

/-- The steps to a part on the level of the whole, on the way down that has most of them; where all
parts are one level deeper, there still is the step to the words between them. -/
def Expr.uncounted : Expr → Nat
  | .nil | .boolean _ | .varargs | .number _ | .string _ _ | .name _ => 0
  | .table fields => Field.uncountedOfAll fields
  | .function parameters body =>
      max (Expr.uncountedOfAll parameters + 1) (Stmt.uncountedOfAll body)
  | .index value key .dot => max value.uncounted key.uncounted + 1
  | .index value key .bracket => max (value.uncounted + 1) key.uncounted
  | .call callee arguments | .invoke callee _ arguments =>
      max (callee.uncounted + 1)
        (Expr.uncountedOfAll arguments + (Expr.standAlone arguments).toNat)
  | .binary _ left right => max (left.uncounted + 1) right.uncounted
  | .unary _ operand => max 1 operand.uncounted

def Expr.uncountedOfAll : List Expr → Nat
  | [] => 0
  | value :: values => max value.uncounted (Expr.uncountedOfAll values)

def Field.uncounted : Field → Nat
  | .mk none value _ => value.uncounted
  | .mk (some key) value true => max key.uncounted value.uncounted
  | .mk (some key) value false => max (key.uncounted + 1) value.uncounted

def Field.uncountedOfAll : List Field → Nat
  | [] => 0
  | field :: fields => max field.uncounted (Field.uncountedOfAll fields)

def Stmt.uncounted : Stmt → Nat
  | .assign targets values | .localAssign targets values =>
      max (Expr.uncountedOfAll targets + 1) (Expr.uncountedOfAll values)
  | .whileLoop test body | .repeatLoop body test | .ifThen test body none =>
      max 1 (max test.uncounted (Stmt.uncountedOfAll body))
  | .ifThen test body (some orelse) =>
      max (orelse.uncounted + 1) (max test.uncounted (Stmt.uncountedOfAll body))
  | .doBlock body => max 1 (Stmt.uncountedOfAll body)
  | .label _ | .goto _ => 1
  | .breakLoop | .semicolon => 0
  | .returnValues values => max 1 (Expr.uncountedOfAll values)
  | .numericFor _ start stop step body =>
      max 1 (max (max start.uncounted stop.uncounted)
        (max step.uncounted (Stmt.uncountedOfAll body)))
  | .genericFor _ iterators body =>
      max 1 (max (Expr.uncountedOfAll iterators) (Stmt.uncountedOfAll body))
  | .function name parameters body | .method name _ parameters body =>
      max (max name.uncounted (Expr.uncountedOfAll parameters) + 1) (Stmt.uncountedOfAll body)
  | .localFunction _ parameters body =>
      max (Expr.uncountedOfAll parameters + 1) (Stmt.uncountedOfAll body)
  | .expr value => value.uncounted

def Stmt.uncountedOfAll : List Stmt → Nat
  | [] => 0
  | stmt :: stmts => max stmt.uncounted (Stmt.uncountedOfAll stmts)

def ElseBranch.uncounted : ElseBranch → Nat
  | .elseIf test body none => max 1 (max test.uncounted (Stmt.uncountedOfAll body))
  | .elseIf test body (some orelse) =>
      max (orelse.uncounted + 1) (max test.uncounted (Stmt.uncountedOfAll body))
  | .final body => max 1 (Stmt.uncountedOfAll body)

end

def Chunk.uncounted (chunk : Chunk) : Nat :=
  Stmt.uncountedOfAll chunk.body

/-- Values that are read one level deeper need one level more. -/
theorem Expr.levels_deeperLoads (value : Expr) (values : List Expr) :
    (Expr.deeperLoads (value :: values)).levels = (Expr.loads (value :: values)).levels + 1 := by
  induction values generalizing value with
  | nil => simp [Expr.deeperLoads, Expr.loads]
  | cons next values ih =>
      have hrest := ih next
      rw [Expr.deeperLoads, Expr.loads, Load.levels_add, Load.levels_add, hrest, Load.levels_below]
      omega

/-! ## The two bounds -/

/-- The depth is at least the number of steps that no level counts.  It is at most three times the
levels and these steps together, but for some more steps. -/
structure Within (depth levels uncounted more : Nat) : Prop where
  lower : uncounted ≤ depth
  upper : depth ≤ 3 * (levels + uncounted) + more

/-- Instead of the depth, the levels and the steps themselves, one can take any bounds of them.  So
no maximum has to be compared with another one. -/
theorem Within.of_bounds
    {depth levels uncounted more : Nat}
    (h : ∀ bound top steps, depth ≤ bound → levels ≤ top → uncounted ≤ steps →
      uncounted ≤ bound ∧ depth ≤ 3 * (top + steps) + more) :
    Within depth levels uncounted more :=
  have hbounds := h depth levels uncounted le_rfl le_rfl le_rfl
  ⟨hbounds.1, hbounds.2⟩

def Expr.IsWithin (value : Expr) : Prop :=
  Within value.toElement.depth value.load.levels value.uncounted 0

def Expr.AreWithin (values : List Expr) : Prop :=
  Within (depthOfAll (Expr.elements values)) (Expr.loads values).levels
    (Expr.uncountedOfAll values) 1

/-- One more step leads to an entry of a table. -/
def Field.IsWithin (field : Field) : Prop :=
  Within (field.toElement.depth + 1) field.load.levels field.uncounted 0

def Field.AreWithin (fields : List Field) : Prop :=
  Within (depthOfAll (Field.elements fields)) (Field.loads fields).levels
    (Field.uncountedOfAll fields) 0

def Stmt.IsWithin (stmt : Stmt) : Prop :=
  Within stmt.toElement.depth stmt.load.levels stmt.uncounted 0

def Stmt.AreWithin (stmts : List Stmt) : Prop :=
  Within (depthOfAll (Stmt.elements stmts)) (Stmt.loads stmts).levels
    (Stmt.uncountedOfAll stmts) 1

def ElseBranch.IsWithin (orelse : ElseBranch) : Prop :=
  Within orelse.toElement.depth orelse.load.levels orelse.uncounted 0

/-! ## Lists -/

section Lists

variable {value : Expr}
variable {values : List Expr}
variable {field : Field}
variable {fields : List Field}
variable {stmt : Stmt}
variable {stmts : List Stmt}

/-- The bounds hold of a list of expressions if they hold of each of them. -/
theorem Expr.AreWithin.cons
    (hvalue : value.IsWithin)
    (hvalues : Expr.AreWithin values) :
    Expr.AreWithin (value :: values) := by
  obtain ⟨hvalue, hvalue'⟩ := hvalue
  obtain ⟨hvalues, hvalues'⟩ := hvalues
  simp only [Expr.AreWithin, Expr.elements, depthOfAll, Expr.loads, Load.levels_add,
    Expr.uncountedOfAll]
  constructor <;> omega

/-- The bounds hold of the entries of a table if they hold of each of them. -/
theorem Field.AreWithin.cons
    (hfield : field.IsWithin)
    (hfields : Field.AreWithin fields) :
    Field.AreWithin (field :: fields) := by
  obtain ⟨hfield, hfield'⟩ := hfield
  obtain ⟨hfields, hfields'⟩ := hfields
  simp only [Field.AreWithin, Field.elements, depthOfAll, Field.loads, Load.levels_add,
    Field.uncountedOfAll]
  constructor <;> omega

/-- The bounds hold of a block if they hold of each of its statements. -/
theorem Stmt.AreWithin.cons
    (hstmt : stmt.IsWithin)
    (hstmts : Stmt.AreWithin stmts) :
    Stmt.AreWithin (stmt :: stmts) := by
  obtain ⟨hstmt, hstmt'⟩ := hstmt
  obtain ⟨hstmts, hstmts'⟩ := hstmts
  simp only [Stmt.AreWithin, Stmt.elements, depthOfAll, Stmt.loads, Load.levels_add,
    Stmt.uncountedOfAll]
  constructor <;> omega

/-- Two steps lead to values that are one level deeper. -/
theorem Expr.AreWithin.deeper
    (h : Expr.AreWithin values) :
    depthOfAll (Expr.elements values) + 2 ≤
      3 * ((Expr.deeperLoads values).levels + max 1 (Expr.uncountedOfAll values)) := by
  have hupper := h.upper
  cases values with
  | nil => exact Nat.le_succ 2
  | cons value values =>
      have hlevels := Expr.levels_deeperLoads value values
      omega

/-- Arguments are deeper, or one of them alone is a step on the level of the call. -/
theorem Expr.AreWithin.arguments
    (h : Expr.AreWithin values) :
    Within (depthOfAll (Expr.elements values) + 1)
      (Load.ofArguments (Expr.standAlone values) (Expr.loads values)
        (Expr.deeperLoads values)).levels
      (max 1 (Expr.uncountedOfAll values + (Expr.standAlone values).toNat)) 0 := by
  have hdeeper := h.deeper
  obtain ⟨hlower, hupper⟩ := h
  cases Expr.standAlone values with
  | false =>
      simp only [Load.ofArguments, Bool.false_eq_true, if_false, Load.levels_add,
        Load.levels_paren, Bool.toNat_false]
      constructor <;> omega
  | true =>
      simp only [Load.ofArguments, if_true, Bool.toNat_true]
      constructor <;> omega

/-- A body in its container, with two more steps at most. -/
theorem Stmt.AreWithin.statements
    (h : Stmt.AreWithin stmts) :
    Within (Element.statements (Stmt.elements stmts)).depth (Stmt.loads stmts).levels
      (Stmt.uncountedOfAll stmts) 2 :=
  ⟨h.lower.trans (Element.le_depth_statements _),
    (Element.depth_statements_le _).trans (Nat.succ_le_succ h.upper)⟩

end Lists

section Steps

attribute [local simp] Expr.toElement Expr.load Expr.uncounted Field.toElement Field.load
  Field.uncounted Stmt.toElement Stmt.load Stmt.uncounted ElseBranch.toElement ElseBranch.load
  ElseBranch.uncounted

/-! ## Expressions -/

namespace Expr.IsWithin

variable {value key callee left right : Expr}
variable {values parameters : List Expr}
variable {body : Block}

/-- The parameters of a function are on its level, and the body is one level deeper. -/
theorem function
    (hparameters : Expr.AreWithin parameters)
    (hbody : Stmt.AreWithin body) :
    (Expr.function parameters body).IsWithin := by
  obtain ⟨hparameters, hparameters'⟩ := hparameters
  obtain ⟨hbody, hbody'⟩ := hbody.statements
  simp [Expr.IsWithin]
  constructor <;> omega

/-- The value and the name behind the point are both on the level of the access. -/
theorem dot
    (hvalue : value.IsWithin)
    (hkey : key.IsWithin) :
    (Expr.index value key .dot).IsWithin := by
  obtain ⟨hvalue, hvalue'⟩ := hvalue
  obtain ⟨hkey, hkey'⟩ := hkey
  simp [Expr.IsWithin]
  constructor <;> omega

/-- The value is on the level of the access, and the key is one level deeper. -/
theorem bracket
    (hvalue : value.IsWithin)
    (hkey : key.IsWithin) :
    (Expr.index value key .bracket).IsWithin := by
  obtain ⟨hvalue, hvalue'⟩ := hvalue
  obtain ⟨hkey, hkey'⟩ := hkey
  simp [Expr.IsWithin]
  constructor <;> omega

/-- The callee is on the level of the call; the arguments are deeper unless one stands alone. -/
theorem call
    (hcallee : callee.IsWithin)
    (hvalues : Expr.AreWithin values) :
    (Expr.call callee values).IsWithin := by
  obtain ⟨hcallee, hcallee'⟩ := hcallee
  obtain ⟨hvalues, hvalues'⟩ := hvalues.arguments
  simp [Expr.IsWithin]
  constructor <;> omega

/-- The receiver is on the level of the call. -/
theorem invoke
    {method : Name}
    (hcallee : callee.IsWithin)
    (hvalues : Expr.AreWithin values) :
    (Expr.invoke callee method values).IsWithin := by
  obtain ⟨hcallee, hcallee'⟩ := hcallee
  obtain ⟨hvalues, hvalues'⟩ := hvalues.arguments
  simp [Expr.IsWithin]
  constructor <;> omega

/-- The left operand is on the level of the operation, and the right one is one level deeper. -/
theorem binary
    {op : BinaryOp}
    (hleft : left.IsWithin)
    (hright : right.IsWithin) :
    (Expr.binary op left right).IsWithin := by
  obtain ⟨hleft, hleft'⟩ := hleft
  obtain ⟨hright, hright'⟩ := hright
  simp [Expr.IsWithin]
  constructor <;> omega

/-- The operand is one level deeper. -/
theorem unary
    {op : UnaryOp}
    (hvalue : value.IsWithin) :
    (Expr.unary op value).IsWithin := by
  obtain ⟨hvalue, hvalue'⟩ := hvalue
  simp [Expr.IsWithin]
  constructor <;> omega

end Expr.IsWithin

namespace Field.IsWithin

variable {key value : Expr}

theorem positional
    {bracketed : Bool}
    (hvalue : value.IsWithin) :
    (Field.mk none value bracketed).IsWithin := by
  obtain ⟨hvalue, hvalue'⟩ := hvalue
  simp [Field.IsWithin, Field.row]
  constructor <;> omega

/-- A key in brackets is one level deeper than its entry, as the value is. -/
theorem bracketed
    (hkey : key.IsWithin)
    (hvalue : value.IsWithin) :
    (Field.mk (some key) value true).IsWithin := by
  obtain ⟨hkey, hkey'⟩ := hkey
  obtain ⟨hvalue, hvalue'⟩ := hvalue
  simp [Field.IsWithin, Field.row, Field.keyElement]
  constructor <;> omega

/-- A key that is a name is on the level of its entry. -/
theorem named
    (hkey : key.IsWithin)
    (hvalue : value.IsWithin) :
    (Field.mk (some key) value false).IsWithin := by
  obtain ⟨hkey, hkey'⟩ := hkey
  obtain ⟨hvalue, hvalue'⟩ := hvalue
  simp [Field.IsWithin, Field.row, Field.keyElement]
  constructor <;> omega

end Field.IsWithin

/-! ## Statements -/

/-- The step of a loop may be left out, but then it is a literal. -/
theorem Expr.IsWithin.writtenStep
    {step : Expr}
    (h : step.IsWithin) :
    Within (depthOfAll (if step.isDefaultStep then [] else [.text ",", step.toElement]))
      step.load.levels step.uncounted 1 := by
  obtain ⟨hlower, hupper⟩ := h
  split
  case isTrue hdefault =>
    obtain ⟨value, rfl⟩ := Expr.eq_number_of_isDefaultStep hdefault
    exact ⟨Nat.zero_le _, Nat.zero_le _⟩
  case isFalse =>
    simp only [Element.depthOfAll_cons, Element.depthOfAll_nil, Element.depth_text]
    constructor <;> omega

namespace Stmt.IsWithin

variable {test name start stop step : Expr}
variable {targets values parameters : List Expr}
variable {body : Block}
variable {orelse : ElseBranch}

/-- The values of an assignment are one level deeper than its targets. -/
theorem assignment
    {role : Role}
    {words : List Element}
    (hwords : depthOfAll words ≤ 1)
    (htargets : Expr.AreWithin targets)
    (hvalues : Expr.AreWithin values) :
    Within (Element.assignment role words (Expr.elements targets) (Expr.elements values)).depth
      (Expr.loads targets + Expr.deeperLoads values).levels
      (max (Expr.uncountedOfAll targets + 1) (Expr.uncountedOfAll values)) 0 := by
  have hdeeper := hvalues.deeper
  have hlist := Element.le_depthOfAll_exprListAfter [.text "="] (Expr.elements values)
  have hlist' := Element.depthOfAll_exprListAfter_le [.text "="] (Expr.elements values)
  obtain ⟨htargets, htargets'⟩ := htargets
  obtain ⟨hvalues, hvalues'⟩ := hvalues
  simp only [Element.depthOfAll_cons, Element.depthOfAll_nil, Element.depth_text] at hlist'
  simp [Element.assignment]
  constructor <;> omega

/-- The test and the body of a loop are one level deeper. -/
theorem whileLoop
    (htest : test.IsWithin)
    (hbody : Stmt.AreWithin body) :
    (Stmt.whileLoop test body).IsWithin := by
  obtain ⟨htest, htest'⟩ := htest
  obtain ⟨hbody, hbody'⟩ := hbody.statements
  simp [Stmt.IsWithin]
  constructor <;> omega

theorem doBlock
    (hbody : Stmt.AreWithin body) :
    (Stmt.doBlock body).IsWithin := by
  obtain ⟨hbody, hbody'⟩ := hbody.statements
  simp [Stmt.IsWithin]
  constructor <;> omega

theorem repeatLoop
    (hbody : Stmt.AreWithin body)
    (htest : test.IsWithin) :
    (Stmt.repeatLoop body test).IsWithin := by
  obtain ⟨hbody, hbody'⟩ := hbody.statements
  obtain ⟨htest, htest'⟩ := htest
  simp [Stmt.IsWithin]
  constructor <;> omega

theorem ifThen
    (htest : test.IsWithin)
    (hbody : Stmt.AreWithin body) :
    (Stmt.ifThen test body none).IsWithin := by
  obtain ⟨htest, htest'⟩ := htest
  obtain ⟨hbody, hbody'⟩ := hbody.statements
  simp [Stmt.IsWithin]
  constructor <;> omega

/-- The next alternative is on the level of the condition. -/
theorem ifThenElse
    (htest : test.IsWithin)
    (hbody : Stmt.AreWithin body)
    (horelse : orelse.IsWithin) :
    (Stmt.ifThen test body (some orelse)).IsWithin := by
  obtain ⟨htest, htest'⟩ := htest
  obtain ⟨hbody, hbody'⟩ := hbody.statements
  obtain ⟨horelse, horelse'⟩ := horelse
  simp [Stmt.IsWithin]
  constructor <;> omega

/-- Returned values are one level deeper. -/
theorem returnValues
    (hvalues : Expr.AreWithin values) :
    (Stmt.returnValues values).IsWithin := by
  have hdeeper := hvalues.deeper
  have hlist := Element.le_depthOfAll_exprListAfter [] (Expr.elements values)
  have hlist' := Element.depthOfAll_exprListAfter_le [] (Expr.elements values)
  obtain ⟨hvalues, hvalues'⟩ := hvalues
  rw [Element.depthOfAll_nil] at hlist'
  simp [Stmt.IsWithin]
  constructor <;> omega

/-- The bounds, the step and the body of a counting loop are one level deeper. -/
theorem numericFor
    {counter : Name}
    (hstart : start.IsWithin)
    (hstop : stop.IsWithin)
    (hstep : step.IsWithin)
    (hbody : Stmt.AreWithin body) :
    (Stmt.numericFor counter start stop step body).IsWithin := by
  obtain ⟨hstart, hstart'⟩ := hstart
  obtain ⟨hstop, hstop'⟩ := hstop
  obtain ⟨hstep, hstep'⟩ := hstep.writtenStep
  obtain ⟨hbody, hbody'⟩ := hbody.statements
  simp [Stmt.IsWithin]
  refine .of_bounds fun bound top steps hbound hlevels hsteps => ?_
  simp only [Nat.max_le] at hbound hlevels hsteps ⊢
  omega

/-- The iterators and the body of a loop over them are one level deeper. -/
theorem genericFor
    {names : List Name}
    (hvalues : Expr.AreWithin values)
    (hbody : Stmt.AreWithin body) :
    (Stmt.genericFor names values body).IsWithin := by
  have hdeeper := hvalues.deeper
  have hnames := Element.depthOfAll_names_le names
  obtain ⟨hvalues, hvalues'⟩ := hvalues
  obtain ⟨hbody, hbody'⟩ := hbody.statements
  simp [Stmt.IsWithin]
  constructor <;> omega

/-- The name and the parameters of a function are on the level of its statement. -/
theorem function
    (hname : name.IsWithin)
    (hparameters : Expr.AreWithin parameters)
    (hbody : Stmt.AreWithin body) :
    (Stmt.function name parameters body).IsWithin := by
  obtain ⟨hname, hname'⟩ := hname
  obtain ⟨hparameters, hparameters'⟩ := hparameters
  obtain ⟨hbody, hbody'⟩ := hbody.statements
  simp [Stmt.IsWithin]
  constructor <;> omega

theorem localFunction
    {id : Name}
    (hparameters : Expr.AreWithin parameters)
    (hbody : Stmt.AreWithin body) :
    (Stmt.localFunction id parameters body).IsWithin := by
  obtain ⟨hparameters, hparameters'⟩ := hparameters
  obtain ⟨hbody, hbody'⟩ := hbody.statements
  simp [Stmt.IsWithin]
  constructor <;> omega

theorem method
    {id : Name}
    (hname : name.IsWithin)
    (hparameters : Expr.AreWithin parameters)
    (hbody : Stmt.AreWithin body) :
    (Stmt.method name id parameters body).IsWithin := by
  obtain ⟨hname, hname'⟩ := hname
  obtain ⟨hparameters, hparameters'⟩ := hparameters
  obtain ⟨hbody, hbody'⟩ := hbody.statements
  simp [Stmt.IsWithin]
  constructor <;> omega

end Stmt.IsWithin

namespace ElseBranch.IsWithin

variable {test : Expr}
variable {body : Block}
variable {orelse : ElseBranch}

theorem elseIf
    (htest : test.IsWithin)
    (hbody : Stmt.AreWithin body) :
    (ElseBranch.elseIf test body none).IsWithin := by
  obtain ⟨htest, htest'⟩ := htest
  obtain ⟨hbody, hbody'⟩ := hbody.statements
  simp [ElseBranch.IsWithin]
  constructor <;> omega

/-- The alternative behind a clause is on the level of the clause. -/
theorem elseIfElse
    (htest : test.IsWithin)
    (hbody : Stmt.AreWithin body)
    (horelse : orelse.IsWithin) :
    (ElseBranch.elseIf test body (some orelse)).IsWithin := by
  obtain ⟨htest, htest'⟩ := htest
  obtain ⟨hbody, hbody'⟩ := hbody.statements
  obtain ⟨horelse, horelse'⟩ := horelse
  simp [ElseBranch.IsWithin]
  constructor <;> omega

theorem final
    (hbody : Stmt.AreWithin body) :
    (ElseBranch.final body).IsWithin := by
  obtain ⟨hbody, hbody'⟩ := hbody.statements
  simp [ElseBranch.IsWithin]
  constructor <;> omega

end ElseBranch.IsWithin
end Steps

/-! ## Programs -/

mutual

/-- Both bounds hold of every expression. -/
theorem Expr.isWithin : ∀ value : Expr, value.IsWithin
  | .nil | .varargs | .number _ | .string _ _ | .name _ => ⟨Nat.zero_le _, Nat.zero_le _⟩
  | .boolean true | .boolean false => ⟨Nat.zero_le _, Nat.zero_le _⟩
  | .table fields => Field.areWithin fields
  | .function parameters body => .function (Expr.areWithin parameters) (Stmt.areWithin body)
  | .index value key .dot => .dot (Expr.isWithin value) (Expr.isWithin key)
  | .index value key .bracket => .bracket (Expr.isWithin value) (Expr.isWithin key)
  | .call callee arguments => .call (Expr.isWithin callee) (Expr.areWithin arguments)
  | .invoke receiver _ arguments => .invoke (Expr.isWithin receiver) (Expr.areWithin arguments)
  | .binary _ left right => .binary (Expr.isWithin left) (Expr.isWithin right)
  | .unary _ operand => .unary (Expr.isWithin operand)

theorem Expr.areWithin : ∀ values : List Expr, Expr.AreWithin values
  | [] => ⟨Nat.zero_le _, Nat.zero_le _⟩
  | value :: values => .cons (Expr.isWithin value) (Expr.areWithin values)

theorem Field.isWithin : ∀ field : Field, field.IsWithin
  | .mk none value _ => .positional (Expr.isWithin value)
  | .mk (some key) value true => .bracketed (Expr.isWithin key) (Expr.isWithin value)
  | .mk (some key) value false => .named (Expr.isWithin key) (Expr.isWithin value)

theorem Field.areWithin : ∀ fields : List Field, Field.AreWithin fields
  | [] => ⟨Nat.zero_le _, Nat.zero_le _⟩
  | field :: fields => .cons (Field.isWithin field) (Field.areWithin fields)

/-- Both bounds hold of every statement. -/
theorem Stmt.isWithin : ∀ stmt : Stmt, stmt.IsWithin
  | .assign targets values =>
      .assignment (Nat.zero_le 1) (Expr.areWithin targets) (Expr.areWithin values)
  | .localAssign targets values =>
      .assignment (Nat.le_refl 1) (Expr.areWithin targets) (Expr.areWithin values)
  | .whileLoop test body => .whileLoop (Expr.isWithin test) (Stmt.areWithin body)
  | .doBlock body => .doBlock (Stmt.areWithin body)
  | .repeatLoop body test => .repeatLoop (Stmt.areWithin body) (Expr.isWithin test)
  | .ifThen test body none => .ifThen (Expr.isWithin test) (Stmt.areWithin body)
  | .ifThen test body (some orelse) =>
      .ifThenElse (Expr.isWithin test) (Stmt.areWithin body) (ElseBranch.isWithin orelse)
  | .label _ | .goto _ => ⟨Nat.le_refl 1, Nat.le_add_left 1 2⟩
  | .breakLoop | .semicolon => ⟨Nat.zero_le _, Nat.zero_le _⟩
  | .returnValues values => .returnValues (Expr.areWithin values)
  | .numericFor _ start stop step body =>
      .numericFor (Expr.isWithin start) (Expr.isWithin stop) (Expr.isWithin step)
        (Stmt.areWithin body)
  | .genericFor _ iterators body => .genericFor (Expr.areWithin iterators) (Stmt.areWithin body)
  | .function name parameters body =>
      .function (Expr.isWithin name) (Expr.areWithin parameters) (Stmt.areWithin body)
  | .localFunction _ parameters body =>
      .localFunction (Expr.areWithin parameters) (Stmt.areWithin body)
  | .method receiver _ parameters body =>
      .method (Expr.isWithin receiver) (Expr.areWithin parameters) (Stmt.areWithin body)
  | .expr value => Expr.isWithin value

theorem Stmt.areWithin : ∀ stmts : List Stmt, Stmt.AreWithin stmts
  | [] => ⟨Nat.zero_le _, Nat.zero_le _⟩
  | stmt :: stmts => .cons (Stmt.isWithin stmt) (Stmt.areWithin stmts)

/-- Both bounds hold of every alternative. -/
theorem ElseBranch.isWithin : ∀ orelse : ElseBranch, orelse.IsWithin
  | .elseIf test body none => .elseIf (Expr.isWithin test) (Stmt.areWithin body)
  | .elseIf test body (some orelse) =>
      .elseIfElse (Expr.isWithin test) (Stmt.areWithin body) (ElseBranch.isWithin orelse)
  | .final body => .final (Stmt.areWithin body)

end

/-- Both bounds hold of every program. -/
theorem Chunk.within (chunk : Chunk) :
    Within chunk.toElement.depth chunk.load.levels chunk.uncounted 0 := by
  obtain ⟨hbody, hbody'⟩ := (Stmt.areWithin chunk.body).statements
  simp only [Chunk.toElement, Block.toElement, Element.depth_block, depthOfAll, Chunk.load,
    Load.levels_below, Chunk.uncounted]
  constructor <;> omega

/-- The visual tree of a program is at least as deep as the steps that no level counts, and at most
three times as deep as these steps and the limit together. -/
theorem depth_le_limit_add_uncounted
    {tokens : List Token}
    {limit : Nat}
    {program : Chunk}
    (h : (Session.ofTokens tokens limit).parse.1 = .ok program) :
    program.uncounted ≤ program.toElement.depth ∧
      program.toElement.depth ≤ 3 * (limit + program.uncounted) := by
  have hlevels := Session.levels_le_limit h
  rw [Session.limit_ofTokens] at hlevels
  obtain ⟨hlower, hupper⟩ := program.within
  exact ⟨hlower, by omega⟩

/-- Three levels and two steps: from the sum to its left operand, and from there to `a`. -/
theorem depth_le_limit_add_uncounted_chainedSum :
    (Session.ofTokens chainedSumTokens 3).parse.1 = .ok chainedSum ∧ chainedSum.uncounted = 2 ∧
      2 ≤ chainedSum.toElement.depth ∧ chainedSum.toElement.depth ≤ 3 * (3 + 2) := by
  have hparse : (Session.ofTokens chainedSumTokens 3).parse.1 = .ok chainedSum := by cbv
  exact ⟨hparse, rfl, depth_le_limit_add_uncounted hparse⟩

/-! ## Trees of any depth on one level -/

/-- The expression `f()()...()` with so many calls. -/
def calls : Nat → Expr
  | 0 => .name "f"
  | count + 1 => .call (calls count) []

def callStatement (count : Nat) : Chunk :=
  ⟨[.expr (calls (count + 1))]⟩

theorem isHead_calls (count : Nat) : (calls count).isHead false = true := by
  cases count <;> rfl

theorem readable_calls (count : Nat) : (calls count).Obeys (.readable false) := by
  induction count with
  | zero =>
      have hname : IsName "f".toList := by decide
      exact hname
  | succ count ih => exact ⟨isHead_calls count, ih, trivial⟩

/-- Calls of calls need no level. -/
theorem levels_calls (count : Nat) : (calls count).load.levels = 0 := by
  induction count with
  | zero => rfl
  | succ count ih =>
      rw [calls, Expr.load, Load.levels_add, ih]
      rfl

theorem added_calls (count : Nat) : (calls count).added = 0 := by
  induction count with
  | zero => rfl
  | succ count ih => rw [calls, Expr.added, ih]; rfl

/-- Every call of a call is a step that no level counts. -/
theorem uncounted_calls (count : Nat) : (calls count).uncounted = count := by
  induction count with
  | zero => rfl
  | succ count ih =>
      simp [calls, Expr.uncounted, ih, Expr.uncountedOfAll, Expr.standAlone]

/-- All the calls of a statement are on one level. -/
theorem parse_callStatement (count : Nat) :
    parse ((callStatement count).toElement.toPlain 4) 1 = .ok (callStatement count) := by
  have hreadable : (callStatement count).Obeys (.readable false) :=
    ⟨rfl, ⟨rfl, readable_calls (count + 1)⟩, trivial⟩
  refine parse_toPlain_of_room hreadable ?_
  simp [callStatement, Chunk.load, Stmt.loads, Stmt.load, levels_calls, Chunk.added,
    Stmt.addedOfAll, Stmt.added, added_calls]

/-- No multiple of the limit bounds the depth of visual trees. -/
theorem depth_exceeds_limit :
    ¬ ∃ factor, ∀ (tokens : List Token) (limit : Nat) (program : Chunk), 1 ≤ limit →
      (Session.ofTokens tokens limit).parse.1 = .ok program →
        program.toElement.depth ≤ factor * limit := by
  rintro ⟨factor, hfactor⟩
  obtain ⟨tokens, -, hparse⟩ := Except.bind_eq_ok_iff.mp (parse_callStatement factor)
  have hdepth := hfactor tokens 1 _ le_rfl hparse
  have hlower := (callStatement factor).within.lower
  have huncounted : (callStatement factor).uncounted = factor + 1 := by
    simp [callStatement, Chunk.uncounted, Stmt.uncountedOfAll, Stmt.uncounted, uncounted_calls]
  omega

end LuaView
