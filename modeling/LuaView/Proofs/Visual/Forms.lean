import LuaView.Proofs.Number.Rereading
import LuaView.Proofs.Text.Quoting
import LuaView.Visual.Program

/-!
# What a visual tree shows of a program

The form of a program is what is left of it if three things are forgotten: which number a numeral
stands for besides its text, how a step of one was given, and whether an entry without a key was
marked as one in brackets.

Two programs have the same visual tree if and only if they have the same form, and so do two blocks,
statements, expressions, entries or alternatives.  Nothing is asked of the programs: the trees need
not come from a source.
-/

namespace LuaView

mutual

/-- Expressions whose numbers are texts. -/
inductive ExprForm where
  | nil
  | boolean (value : Bool)
  | varargs
  | number (text : String)
  | string (text : String) (delimiter : Delimiter)
  | name (id : Name)
  | table (fields : List FieldForm)
  | function (parameters : List ExprForm) (body : List StmtForm)
  | index (value : ExprForm) (key : ExprForm) (style : IndexStyle)
  | call (callee : ExprForm) (arguments : List ExprForm)
  | invoke (receiver : ExprForm) (method : Name) (arguments : List ExprForm)
  | binary (op : BinaryOp) (left : ExprForm) (right : ExprForm)
  | unary (op : UnaryOp) (operand : ExprForm)

/-- Entries of tables of such expressions. -/
inductive FieldForm where
  | mk (key : Option ExprForm) (value : ExprForm) (bracketed : Bool)

/-- Statements with such expressions. -/
inductive StmtForm where
  | assign (targets : List ExprForm) (values : List ExprForm)
  | localAssign (targets : List ExprForm) (values : List ExprForm)
  | whileLoop (test : ExprForm) (body : List StmtForm)
  | doBlock (body : List StmtForm)
  | repeatLoop (body : List StmtForm) (test : ExprForm)
  | ifThen (test : ExprForm) (body : List StmtForm) (orelse : Option ElseForm)
  | label (id : Name)
  | goto (id : Name)
  | breakLoop
  | returnValues (values : List ExprForm)
  | numericFor (counter : Name) (start : ExprForm) (stop : ExprForm) (step : ExprForm)
      (body : List StmtForm)
  | genericFor (names : List Name) (iterators : List ExprForm) (body : List StmtForm)
  | function (name : ExprForm) (parameters : List ExprForm) (body : List StmtForm)
  | localFunction (name : Name) (parameters : List ExprForm) (body : List StmtForm)
  | method (receiver : ExprForm) (name : Name) (parameters : List ExprForm)
      (body : List StmtForm)
  | expr (value : ExprForm)
  | semicolon

/-- Alternatives with such statements. -/
inductive ElseForm where
  | elseIf (test : ExprForm) (body : List StmtForm) (orelse : Option ElseForm)
  | final (body : List StmtForm)

end

mutual

/-- The form of an expression: its numbers are replaced by their texts. -/
def Expr.form : Expr → ExprForm
  | .nil => .nil
  | .boolean value => .boolean value
  | .varargs => .varargs
  | .number value => .number value.text
  | .string text delimiter => .string text delimiter
  | .name id => .name id
  | .table fields => .table (Field.forms fields)
  | .function parameters body => .function (Expr.forms parameters) (Stmt.forms body)
  | .index value key style => .index value.form key.form style
  | .call callee arguments => .call callee.form (Expr.forms arguments)
  | .invoke receiver method arguments => .invoke receiver.form method (Expr.forms arguments)
  | .binary op left right => .binary op left.form right.form
  | .unary op operand => .unary op operand.form

def Expr.forms : List Expr → List ExprForm
  | [] => []
  | value :: values => value.form :: Expr.forms values

/-- The form of an entry: without a key, it is never one in brackets. -/
def Field.form : Field → FieldForm
  | .mk none value _ => .mk none value.form false
  | .mk (some key) value bracketed => .mk (some key.form) value.form bracketed

def Field.forms : List Field → List FieldForm
  | [] => []
  | field :: fields => field.form :: Field.forms fields

/-- The form of a statement: a step of one is the integer. -/
def Stmt.form : Stmt → StmtForm
  | .assign targets values => .assign (Expr.forms targets) (Expr.forms values)
  | .localAssign targets values => .localAssign (Expr.forms targets) (Expr.forms values)
  | .whileLoop test body => .whileLoop test.form (Stmt.forms body)
  | .doBlock body => .doBlock (Stmt.forms body)
  | .repeatLoop body test => .repeatLoop (Stmt.forms body) test.form
  | .ifThen test body orelse =>
      .ifThen test.form (Stmt.forms body) (ElseBranch.optionForm orelse)
  | .label id => .label id
  | .goto id => .goto id
  | .breakLoop => .breakLoop
  | .returnValues values => .returnValues (Expr.forms values)
  | .numericFor counter start stop step body =>
      .numericFor counter start.form stop.form
        (if step.isDefaultStep then .number (Number.int 1).text else step.form) (Stmt.forms body)
  | .genericFor names iterators body =>
      .genericFor names (Expr.forms iterators) (Stmt.forms body)
  | .function name parameters body =>
      .function name.form (Expr.forms parameters) (Stmt.forms body)
  | .localFunction name parameters body =>
      .localFunction name (Expr.forms parameters) (Stmt.forms body)
  | .method receiver name parameters body =>
      .method receiver.form name (Expr.forms parameters) (Stmt.forms body)
  | .expr value => .expr value.form
  | .semicolon => .semicolon

def Stmt.forms : List Stmt → List StmtForm
  | [] => []
  | stmt :: stmts => stmt.form :: Stmt.forms stmts

/-- The form of an alternative. -/
def ElseBranch.form : ElseBranch → ElseForm
  | .elseIf test body orelse =>
      .elseIf test.form (Stmt.forms body) (ElseBranch.optionForm orelse)
  | .final body => .final (Stmt.forms body)

def ElseBranch.optionForm : Option ElseBranch → Option ElseForm
  | none => none
  | some orelse => some orelse.form

end

/-- The form of a program is that of its statements. -/
def Chunk.form (chunk : Chunk) : List StmtForm :=
  Stmt.forms chunk.body

/-! ## Texts of leaves -/

/-- No two binary operators have the same sign. -/
@[simp] theorem BinaryOp.symbol_inj
    {op other : BinaryOp} :
    op.symbol = other.symbol ↔ op = other := by
  refine ⟨fun h => ?_, congrArg symbol⟩
  have hfind : ∀ op : BinaryOp, all.find? (fun other => other.symbol == op.symbol) = some op := by
    intro op
    cases op <;> rfl
  have hother := hfind other
  rw [← h, hfind op] at hother
  exact Option.some.inj hother

/-- No two unary operators have the same sign. -/
@[simp] theorem UnaryOp.symbol_inj
    {op other : UnaryOp} :
    op.symbol = other.symbol ↔ op = other := by
  refine ⟨fun h => ?_, congrArg symbol⟩
  cases op <;> cases other <;> first | rfl | exact absurd h (by decide)

/-- The first characters of different delimiters differ. -/
theorem Delimiter.eq_of_quote
    {delimiter delimiter' : Delimiter}
    {text text' : String}
    (h : delimiter.quote text = delimiter'.quote text') :
    delimiter = delimiter' := by
  have hhead : (delimiter.quote text).toList.head? = (delimiter'.quote text').toList.head? := by
    rw [h]
  cases delimiter <;> cases delimiter' <;>
    first
    | rfl
    | simp [quote, LongBracket.quote, LongBracket.opening] at hhead

/-- A quoted string shows its text and how it is quoted. -/
@[simp] theorem Delimiter.quote_inj
    {delimiter delimiter' : Delimiter}
    {text text' : String} :
    delimiter.quote text = delimiter'.quote text' ↔ text = text' ∧ delimiter = delimiter' := by
  refine ⟨fun h => ?_, fun ⟨htext, hdelimiter⟩ => by rw [htext, hdelimiter]⟩
  obtain rfl := eq_of_quote h
  refine ⟨?_, rfl⟩
  cases delimiter with
  | single => simpa [quote] using h
  | double => simpa [quote] using h
  | long =>
      have hchars : LongBracket.quote text.toList = LongBracket.quote text'.toList :=
        String.ofList_injective h
      have hcontent := LongBracket.eq_of_quote (congrArg (· ++ ([] : List Char)) hchars)
      exact String.toList_inj.mp hcontent

/-- A float is always written with a character that is no digit. -/
theorem Binary64.text_ne_one (x : Binary64) : x.text ≠ ['1'] := by
  intro h
  have hone : ∀ c ∈ x.text, c = '1' := by
    intro c hc
    rw [h] at hc
    exact List.mem_singleton.mp hc
  have hmagnitude : ∃ c ∈ x.magnitudeText, c ≠ '1' := by
    unfold magnitudeText
    split
    · exact ⟨'i', List.mem_cons_self, by decide⟩
    · split
      · exact ⟨'0', List.mem_cons_self, by decide⟩
      · simp only
        split
        · exact ⟨'e', by simp [Significant.scientific], by decide⟩
        · refine ⟨'.', ?_, by decide⟩
          unfold Significant.positional
          split <;> simp
  obtain ⟨c, hc, hne⟩ := hmagnitude
  unfold text at hone
  split at hone
  · exact absurd (hone 'n' List.mem_cons_self) (by decide)
  · split at hone
    · exact hne (hone c (List.mem_cons_of_mem _ hc))
    · exact hne (hone c hc)

/-- Only the integer one is written as one. -/
theorem Number.eq_one_of_text
    {value : Number}
    (h : value.text = "1") :
    value = .int 1 := by
  cases value with
  | float value =>
      have htext : value.text = ['1'] := by
        have hchars := congrArg String.toList h
        simpa [text] using hchars
      exact absurd htext value.text_ne_one
  | int value =>
      cases hint : value.toInt with
      | ofNat n =>
          have hpos : 0 ≤ value.toInt := by
            rw [hint]
            exact Int.natCast_nonneg n
          have hback := (readsBack_int hpos).denotes
          have hone : ofNumeral? "1".toList = some (.int 1) := by decide +kernel
          rw [h, hone] at hback
          exact (Option.some.inj hback).symm
      | negSucc n =>
          have hchars := congrArg String.toList h
          simp [text, hint, Int.repr] at hchars

/-! ## Shapes of elements -/

namespace Element

@[simp] theorem inline_inj
    {role role' : Role}
    {children children' : List Element} :
    inline role children = inline role' children' ↔ role = role' ∧ children = children' := by
  simp [inline]

@[simp] theorem block_inj
    {role role' : Role}
    {children children' : List Element} :
    Element.block role children = Element.block role' children' ↔
      role = role' ∧ children = children' := by
  simp [Element.block]

/-- What has commas between its elements shows the elements. -/
@[simp] theorem separate_inj
    {elements elements' : List Element} :
    separate elements = separate elements' ↔ elements = elements' := by
  refine ⟨fun h => ?_, congrArg separate⟩
  unfold separate at h
  induction elements generalizing elements' with
  | nil =>
      cases elements' with
      | nil => rfl
      | cons first' rest' => cases rest' <;> simp at h
  | cons first rest ih =>
      cases elements' with
      | nil => cases rest <;> simp at h
      | cons first' rest' =>
          cases rest with
          | nil => cases rest' <;> simp_all
          | cons second rest =>
              cases rest' with
              | nil => simp at h
              | cons second' rest' =>
                  simp only [List.intersperse_cons_cons, List.cons.injEq, true_and] at h
                  rw [h.1, ih h.2]

@[simp] theorem exprList_inj
    {elements elements' : List Element} :
    exprList elements = exprList elements' ↔ elements = elements' := by
  simp [exprList]

/-- Expressions behind words show themselves; there are no words if there are no expressions. -/
@[simp] theorem exprListAfter_inj
    {words elements elements' : List Element} :
    exprListAfter words elements = exprListAfter words elements' ↔ elements = elements' := by
  cases elements <;> cases elements' <;> simp [exprListAfter]

@[simp] theorem callArguments_inj
    {arguments arguments' : List Element} :
    callArguments arguments = callArguments arguments' ↔ arguments = arguments' := by
  simp [callArguments]

/-- An assignment shows its targets and its values. -/
@[simp] theorem assignment_inj
    {role role' : Role}
    {words targets targets' values values' : List Element} :
    assignment role words targets values = assignment role' words targets' values' ↔
      role = role' ∧ targets = targets' ∧ values = values' := by
  simp [assignment]

/-- A compound statement shows its head and its body. -/
@[simp] theorem withBody_inj
    {role role' : Role}
    {head head' : List Element}
    {body body' : Element} :
    withBody role head body = withBody role' head' body' ↔
      role = role' ∧ head = head' ∧ body = body' := by
  simp [withBody, header]

/-- A function shows its head, its parameters and its body. -/
@[simp] theorem functionUnit_inj
    {role role' : Role}
    {head head' parameters parameters' : List Element}
    {body body' : Element} :
    functionUnit role head parameters body = functionUnit role' head' parameters' body' ↔
      role = role' ∧ head = head' ∧ parameters = parameters' ∧ body = body' := by
  refine ⟨fun h => ?_, fun ⟨hrole, hhead, hparameters, hbody⟩ => by
    rw [hrole, hhead, hparameters, hbody]⟩
  obtain ⟨hrole, hheader, hbody⟩ := withBody_inj.mp h
  obtain ⟨hhead, htail⟩ := List.append_inj' hheader rfl
  simp only [List.cons.injEq, inline_inj, separate_inj, true_and, and_true] at htail
  exact ⟨hrole, hhead, htail, hbody⟩

@[simp] theorem statements_inj
    {elements elements' : List Element} :
    statements elements = statements elements' ↔ elements = elements' := by
  have hinjective : ∀ element element' : Element,
      Element.block .statement [element] = Element.block .statement [element'] →
        element = element' := by
    intro element element' h
    simpa using h
  simp [statements, List.map_inj_right hinjective]

end Element

@[simp] theorem Name.toElement_inj
    {id id' : Name} :
    Name.toElement id = Name.toElement id' ↔ id = id' := by
  simp [Name.toElement]

theorem Name.elements_inj
    {ids ids' : List Name} :
    ids.map Name.toElement = ids'.map Name.toElement ↔ ids = ids' :=
  List.map_inj_right fun _ _ => Name.toElement_inj.mp

/-- A row of a table shows its key and its value. -/
@[simp] theorem Field.row_inj
    {key key' : List Element}
    {value value' : Element} :
    Field.row key value = Field.row key' value' ↔ key = key' ∧ value = value' := by
  refine ⟨fun h => ?_, fun ⟨hkey, hvalue⟩ => by rw [hkey, hvalue]⟩
  simp only [Field.row, Element.container.injEq, true_and] at h
  obtain ⟨hkey, hvalue⟩ := List.append_inj' h rfl
  simpa [hkey] using hvalue

/-- A key shows whether it stands in brackets. -/
@[simp] theorem Field.keyElement_inj
    {key key' : Element}
    {bracketed bracketed' : Bool} :
    Field.keyElement key bracketed = Field.keyElement key' bracketed' ↔
      key = key' ∧ bracketed = bracketed' := by
  cases bracketed <;> cases bracketed' <;> simp [Field.keyElement]

/-! ## Expressions and statements -/

/-- A step that has the form of one is one. -/
theorem Expr.isDefaultStep_of_form
    {step : Expr}
    (h : step.form = .number (Number.int 1).text) :
    step.isDefaultStep = true := by
  cases step with
  | number value =>
      simp only [form, ExprForm.number.injEq] at h
      rw [Number.eq_one_of_text (h.trans (by decide))]
      rfl
  | _ => simp [form] at h

/-- The step is shown unless it is one. -/
theorem Expr.shownStep_inj
    {step step' : Expr}
    (h : step.toElement = step'.toElement ↔ step.form = step'.form) :
    (if step.isDefaultStep then [] else [Element.text ",", step.toElement]) =
        (if step'.isDefaultStep then [] else [Element.text ",", step'.toElement]) ↔
      (if step.isDefaultStep then .number (Number.int 1).text else step.form) =
        (if step'.isDefaultStep then .number (Number.int 1).text else step'.form) := by
  cases hstep : step.isDefaultStep <;> cases hstep' : step'.isDefaultStep
  · simp [h]
  · have hform : step.form ≠ .number (Number.int 1).text := fun hform => by
      rw [isDefaultStep_of_form hform] at hstep
      cases hstep
    simp [hform]
  · have hform : step'.form ≠ .number (Number.int 1).text := fun hform => by
      rw [isDefaultStep_of_form hform] at hstep'
      cases hstep'
    simp [hform.symm]
  · simp

/-- What can be told of an element at a glance. -/
inductive Look where
  | box (role : Role)
  | word (emphasis : Emphasis)
  | mark
deriving DecidableEq

def Element.look : Element → Look
  | .container role _ _ => .box role
  | .leaf _ emphasis => .word emphasis
  | .text _ => .mark

def ExprForm.look : ExprForm → Look
  | .nil => .word .nil
  | .boolean _ => .word .boolean
  | .varargs => .word .varargs
  | .number _ => .word .number
  | .string _ _ => .word .string
  | .name _ => .word .name
  | .table _ => .box .table
  | .function _ _ => .box .anonymousFunction
  | .index _ _ _ => .box .index
  | .call _ _ => .box .call
  | .invoke _ _ _ => .box .invoke
  | .binary _ _ _ => .box .binaryOp
  | .unary _ _ => .box .unaryOp

def StmtForm.look : StmtForm → Look
  | .assign _ _ => .box .assign
  | .localAssign _ _ => .box .localAssign
  | .whileLoop _ _ => .box .whileLoop
  | .doBlock _ => .box .doBlock
  | .repeatLoop _ _ => .box .repeatLoop
  | .ifThen _ _ _ => .box .ifThen
  | .label _ => .box .label
  | .goto _ => .box .goto
  | .breakLoop => .word .keyword
  | .returnValues _ => .box .returnValues
  | .numericFor _ _ _ _ _ => .box .forNum
  | .genericFor _ _ _ => .box .forIn
  | .function _ _ _ => .box .function
  | .localFunction _ _ _ => .box .localFunction
  | .method _ _ _ _ => .box .method
  | .expr value => value.look
  | .semicolon => .mark

/-- The element of an expression looks as its form does. -/
theorem Expr.look_toElement (value : Expr) : value.toElement.look = value.form.look := by
  cases value with
  | boolean value => cases value <;> rfl
  | index value key style => cases style <;> rfl
  | _ => rfl

/-- The element of a statement looks as its form does. -/
theorem Stmt.look_toElement (stmt : Stmt) : stmt.toElement.look = stmt.form.look := by
  cases stmt with
  | ifThen test body orelse => cases orelse <;> rfl
  | expr value => exact value.look_toElement
  | _ => rfl

/-- Expressions can be told from other statements at a glance. -/
def Look.isExpr : Look → Bool
  | .box role =>
      [.table, .anonymousFunction, .index, .call, .invoke, .binaryOp, .unaryOp].contains role
  | .word emphasis => emphasis != .keyword
  | .mark => false

/-- A statement that is no expression looks like none. -/
theorem StmtForm.look_ne_expr
    {stmt : StmtForm}
    (h : stmt.look.isExpr = false)
    (value : ExprForm) :
    stmt.look ≠ value.look := by
  have hvalue : value.look.isExpr = true := by cases value <;> rfl
  intro hlook
  rw [hlook, hvalue] at h
  cases h

/-- Expressions that look different have different elements and different forms. -/
theorem Expr.toElement_inj_of_look
    {value value' : Expr}
    (h : value.form.look ≠ value'.form.look) :
    value.toElement = value'.toElement ↔ value.form = value'.form := by
  refine iff_of_false (fun helement => h ?_) (fun hform => h (congrArg ExprForm.look hform))
  rw [← value.look_toElement, ← value'.look_toElement, helement]

/-- Statements that look different have different elements and different forms. -/
theorem Stmt.toElement_inj_of_look
    {stmt stmt' : Stmt}
    (h : stmt.form.look ≠ stmt'.form.look) :
    stmt.toElement = stmt'.toElement ↔ stmt.form = stmt'.form := by
  refine iff_of_false (fun helement => h ?_) (fun hform => h (congrArg StmtForm.look hform))
  rw [← stmt.look_toElement, ← stmt'.look_toElement, helement]

-- By recursion on both trees.  Trees of different constructors are told apart by their looks, so
-- that only the pairs of the same constructor need their parts to be compared.
mutual

/-- Two expressions have the same element if and only if they have the same form. -/
theorem Expr.toElement_inj : ∀ value value' : Expr,
    value.toElement = value'.toElement ↔ value.form = value'.form
  | .nil, value' => by
      cases value' with
      | nil => exact iff_of_true rfl rfl
      | _ => exact Expr.toElement_inj_of_look (of_decide_eq_false rfl)
  | .boolean value, value' => by
      cases value' with
      | boolean value' => cases value <;> cases value' <;> simp [Expr.toElement, Expr.form]
      | _ => exact Expr.toElement_inj_of_look (of_decide_eq_false rfl)
  | .varargs, value' => by
      cases value' with
      | varargs => exact iff_of_true rfl rfl
      | _ => exact Expr.toElement_inj_of_look (of_decide_eq_false rfl)
  | .number value, value' => by
      cases value' with
      | number value' => simp [Expr.toElement, Expr.form]
      | _ => exact Expr.toElement_inj_of_look (of_decide_eq_false rfl)
  | .string text delimiter, value' => by
      cases value' with
      | string text' delimiter' => simp [Expr.toElement, Expr.form]
      | _ => exact Expr.toElement_inj_of_look (of_decide_eq_false rfl)
  | .name id, value' => by
      cases value' with
      | name id' => simp [Expr.toElement, Expr.form]
      | _ => exact Expr.toElement_inj_of_look (of_decide_eq_false rfl)
  | .table fields, value' => by
      cases value' with
      | table fields' => simp [Expr.toElement, Expr.form, Field.elements_inj fields fields']
      | _ => exact Expr.toElement_inj_of_look (of_decide_eq_false rfl)
  | .function parameters body, value' => by
      cases value' with
      | function parameters' body' =>
          simp [Expr.toElement, Expr.form, Expr.elements_inj parameters parameters',
            Stmt.elements_inj body body']
      | _ => exact Expr.toElement_inj_of_look (of_decide_eq_false rfl)
  | .index value key style, value' => by
      cases value' with
      | index value' key' style' =>
          cases style <;> cases style' <;>
            simp [Expr.toElement, Expr.form, Expr.toElement_inj value value',
              Expr.toElement_inj key key']
      | _ => exact Expr.toElement_inj_of_look (of_decide_eq_false rfl)
  | .call callee arguments, value' => by
      cases value' with
      | call callee' arguments' =>
          simp [Expr.toElement, Expr.form, Expr.toElement_inj callee callee',
            Expr.elements_inj arguments arguments']
      | _ => exact Expr.toElement_inj_of_look (of_decide_eq_false rfl)
  | .invoke receiver method arguments, value' => by
      cases value' with
      | invoke receiver' method' arguments' =>
          simp [Expr.toElement, Expr.form, Expr.toElement_inj receiver receiver',
            Expr.elements_inj arguments arguments']
      | _ => exact Expr.toElement_inj_of_look (of_decide_eq_false rfl)
  | .binary op left right, value' => by
      cases value' with
      | binary op' left' right' =>
          simp [Expr.toElement, Expr.form, Expr.toElement_inj left left',
            Expr.toElement_inj right right', and_left_comm]
      | _ => exact Expr.toElement_inj_of_look (of_decide_eq_false rfl)
  | .unary op operand, value' => by
      cases value' with
      | unary op' operand' =>
          simp [Expr.toElement, Expr.form, Expr.toElement_inj operand operand']
      | _ => exact Expr.toElement_inj_of_look (of_decide_eq_false rfl)

theorem Expr.elements_inj : ∀ values values' : List Expr,
    Expr.elements values = Expr.elements values' ↔ Expr.forms values = Expr.forms values'
  | [], [] => by simp [Expr.elements, Expr.forms]
  | [], _ :: _ => by simp [Expr.elements, Expr.forms]
  | _ :: _, [] => by simp [Expr.elements, Expr.forms]
  | value :: values, value' :: values' => by
      simp [Expr.elements, Expr.forms, Expr.toElement_inj value value',
        Expr.elements_inj values values']

theorem Field.toElement_inj : ∀ field field' : Field,
    field.toElement = field'.toElement ↔ field.form = field'.form
  | .mk none value _, .mk none value' _ => by
      simp [Field.toElement, Field.form, Expr.toElement_inj value value']
  | .mk none _ _, .mk (some _) _ _ => by simp [Field.toElement, Field.form]
  | .mk (some _) _ _, .mk none _ _ => by simp [Field.toElement, Field.form]
  | .mk (some key) value _, .mk (some key') value' _ => by
      simp only [Field.toElement, Field.form, Field.row_inj, Field.keyElement_inj,
        FieldForm.mk.injEq, Option.some.injEq, List.cons.injEq, and_true,
        Expr.toElement_inj key key', Expr.toElement_inj value value']
      rw [and_right_comm, and_assoc]

theorem Field.elements_inj : ∀ fields fields' : List Field,
    Field.elements fields = Field.elements fields' ↔ Field.forms fields = Field.forms fields'
  | [], [] => by simp [Field.elements, Field.forms]
  | [], _ :: _ => by simp [Field.elements, Field.forms]
  | _ :: _, [] => by simp [Field.elements, Field.forms]
  | field :: fields, field' :: fields' => by
      simp [Field.elements, Field.forms, Field.toElement_inj field field',
        Field.elements_inj fields fields']

/-- Two statements have the same element if and only if they have the same form. -/
theorem Stmt.toElement_inj : ∀ stmt stmt' : Stmt,
    stmt.toElement = stmt'.toElement ↔ stmt.form = stmt'.form
  | .assign targets values, stmt' => by
      cases stmt' with
      | assign targets' values' =>
          simp [Stmt.toElement, Stmt.form, Expr.elements_inj targets targets',
            Expr.elements_inj values values']
      | expr value' => exact Stmt.toElement_inj_of_look (StmtForm.look_ne_expr rfl _)
      | _ => exact Stmt.toElement_inj_of_look (of_decide_eq_false rfl)
  | .localAssign targets values, stmt' => by
      cases stmt' with
      | localAssign targets' values' =>
          simp [Stmt.toElement, Stmt.form, Expr.elements_inj targets targets',
            Expr.elements_inj values values']
      | expr value' => exact Stmt.toElement_inj_of_look (StmtForm.look_ne_expr rfl _)
      | _ => exact Stmt.toElement_inj_of_look (of_decide_eq_false rfl)
  | .whileLoop test body, stmt' => by
      cases stmt' with
      | whileLoop test' body' =>
          simp [Stmt.toElement, Stmt.form, Expr.toElement_inj test test',
            Stmt.elements_inj body body']
      | expr value' => exact Stmt.toElement_inj_of_look (StmtForm.look_ne_expr rfl _)
      | _ => exact Stmt.toElement_inj_of_look (of_decide_eq_false rfl)
  | .doBlock body, stmt' => by
      cases stmt' with
      | doBlock body' =>
          simp [Stmt.toElement, Stmt.form, Stmt.elements_inj body body']
      | expr value' => exact Stmt.toElement_inj_of_look (StmtForm.look_ne_expr rfl _)
      | _ => exact Stmt.toElement_inj_of_look (of_decide_eq_false rfl)
  | .repeatLoop body test, stmt' => by
      cases stmt' with
      | repeatLoop body' test' =>
          simp [Stmt.toElement, Stmt.form, Element.header, Stmt.elements_inj body body',
            Expr.toElement_inj test test']
      | expr value' => exact Stmt.toElement_inj_of_look (StmtForm.look_ne_expr rfl _)
      | _ => exact Stmt.toElement_inj_of_look (of_decide_eq_false rfl)
  | .ifThen test body none, stmt' => by
      cases stmt' with
      | ifThen test' body' orelse' =>
          cases orelse' with
          | none =>
              simp [Stmt.toElement, Stmt.form, ElseBranch.optionForm, Element.header,
                Expr.toElement_inj test test', Stmt.elements_inj body body']
          | some orelse' => simp [Stmt.toElement, Stmt.form, ElseBranch.optionForm]
      | expr value' => exact Stmt.toElement_inj_of_look (StmtForm.look_ne_expr rfl _)
      | _ => exact Stmt.toElement_inj_of_look (of_decide_eq_false rfl)
  | .ifThen test body (some orelse), stmt' => by
      cases stmt' with
      | ifThen test' body' orelse' =>
          cases orelse' with
          | none => simp [Stmt.toElement, Stmt.form, ElseBranch.optionForm]
          | some orelse' =>
              simp [Stmt.toElement, Stmt.form, ElseBranch.optionForm, Element.header,
                Expr.toElement_inj test test', Stmt.elements_inj body body',
                ElseBranch.toElement_inj orelse orelse']
      | expr value' => exact Stmt.toElement_inj_of_look (StmtForm.look_ne_expr rfl _)
      | _ => exact Stmt.toElement_inj_of_look (of_decide_eq_false rfl)
  | .label id, stmt' => by
      cases stmt' with
      | label id' =>
          simp [Stmt.toElement, Stmt.form]
      | expr value' => exact Stmt.toElement_inj_of_look (StmtForm.look_ne_expr rfl _)
      | _ => exact Stmt.toElement_inj_of_look (of_decide_eq_false rfl)
  | .goto id, stmt' => by
      cases stmt' with
      | goto id' =>
          simp [Stmt.toElement, Stmt.form]
      | expr value' => exact Stmt.toElement_inj_of_look (StmtForm.look_ne_expr rfl _)
      | _ => exact Stmt.toElement_inj_of_look (of_decide_eq_false rfl)
  | .breakLoop, stmt' => by
      cases stmt' with
      | breakLoop =>
          exact iff_of_true rfl rfl
      | expr value' => exact Stmt.toElement_inj_of_look (StmtForm.look_ne_expr rfl _)
      | _ => exact Stmt.toElement_inj_of_look (of_decide_eq_false rfl)
  | .returnValues values, stmt' => by
      cases stmt' with
      | returnValues values' =>
          simp [Stmt.toElement, Stmt.form, Expr.elements_inj values values']
      | expr value' => exact Stmt.toElement_inj_of_look (StmtForm.look_ne_expr rfl _)
      | _ => exact Stmt.toElement_inj_of_look (of_decide_eq_false rfl)
  | .numericFor counter start stop step body, stmt' => by
      cases stmt' with
      | numericFor counter' start' stop' step' body' =>
          have hstep := Expr.shownStep_inj (Expr.toElement_inj step step')
          simp [Stmt.toElement, Stmt.form, and_assoc, hstep, Expr.toElement_inj start start',
            Expr.toElement_inj stop stop', Stmt.elements_inj body body']
      | expr value' => exact Stmt.toElement_inj_of_look (StmtForm.look_ne_expr rfl _)
      | _ => exact Stmt.toElement_inj_of_look (of_decide_eq_false rfl)
  | .genericFor names iterators body, stmt' => by
      cases stmt' with
      | genericFor names' iterators' body' =>
          simp [Stmt.toElement, Stmt.form, and_assoc, Name.elements_inj,
            Expr.elements_inj iterators iterators', Stmt.elements_inj body body']
      | expr value' => exact Stmt.toElement_inj_of_look (StmtForm.look_ne_expr rfl _)
      | _ => exact Stmt.toElement_inj_of_look (of_decide_eq_false rfl)
  | .function name parameters body, stmt' => by
      cases stmt' with
      | function name' parameters' body' =>
          simp [Stmt.toElement, Stmt.form, Expr.toElement_inj name name',
            Expr.elements_inj parameters parameters', Stmt.elements_inj body body']
      | expr value' => exact Stmt.toElement_inj_of_look (StmtForm.look_ne_expr rfl _)
      | _ => exact Stmt.toElement_inj_of_look (of_decide_eq_false rfl)
  | .localFunction name parameters body, stmt' => by
      cases stmt' with
      | localFunction name' parameters' body' =>
          simp [Stmt.toElement, Stmt.form, Expr.elements_inj parameters parameters',
            Stmt.elements_inj body body']
      | expr value' => exact Stmt.toElement_inj_of_look (StmtForm.look_ne_expr rfl _)
      | _ => exact Stmt.toElement_inj_of_look (of_decide_eq_false rfl)
  | .method receiver name parameters body, stmt' => by
      cases stmt' with
      | method receiver' name' parameters' body' =>
          simp [Stmt.toElement, Stmt.form, and_assoc, Expr.toElement_inj receiver receiver',
            Expr.elements_inj parameters parameters', Stmt.elements_inj body body']
      | expr value' => exact Stmt.toElement_inj_of_look (StmtForm.look_ne_expr rfl _)
      | _ => exact Stmt.toElement_inj_of_look (of_decide_eq_false rfl)
  | .expr value, stmt' => by
      cases stmt' with
      | expr value' => simp [Stmt.toElement, Stmt.form, Expr.toElement_inj value value']
      | _ => exact Stmt.toElement_inj_of_look (StmtForm.look_ne_expr rfl _).symm
  | .semicolon, stmt' => by
      cases stmt' with
      | semicolon =>
          exact iff_of_true rfl rfl
      | expr value' => exact Stmt.toElement_inj_of_look (StmtForm.look_ne_expr rfl _)
      | _ => exact Stmt.toElement_inj_of_look (of_decide_eq_false rfl)

theorem Stmt.elements_inj : ∀ stmts stmts' : List Stmt,
    Stmt.elements stmts = Stmt.elements stmts' ↔ Stmt.forms stmts = Stmt.forms stmts'
  | [], [] => by simp [Stmt.elements, Stmt.forms]
  | [], _ :: _ => by simp [Stmt.elements, Stmt.forms]
  | _ :: _, [] => by simp [Stmt.elements, Stmt.forms]
  | stmt :: stmts, stmt' :: stmts' => by
      simp [Stmt.elements, Stmt.forms, Stmt.toElement_inj stmt stmt',
        Stmt.elements_inj stmts stmts']

/-- Two alternatives have the same element if and only if they have the same form. -/
theorem ElseBranch.toElement_inj : ∀ orelse orelse' : ElseBranch,
    orelse.toElement = orelse'.toElement ↔ orelse.form = orelse'.form
  | .elseIf test body none, .elseIf test' body' none => by
      simp [ElseBranch.toElement, ElseBranch.form, ElseBranch.optionForm, Element.header,
        Expr.toElement_inj test test', Stmt.elements_inj body body']
  | .elseIf _ _ none, .elseIf _ _ (some _) => by
      simp [ElseBranch.toElement, ElseBranch.form, ElseBranch.optionForm]
  | .elseIf _ _ (some _), .elseIf _ _ none => by
      simp [ElseBranch.toElement, ElseBranch.form, ElseBranch.optionForm]
  | .elseIf test body (some orelse), .elseIf test' body' (some orelse') => by
      simp [ElseBranch.toElement, ElseBranch.form, ElseBranch.optionForm, Element.header,
        Expr.toElement_inj test test', Stmt.elements_inj body body',
        ElseBranch.toElement_inj orelse orelse']
  | .elseIf _ _ none, .final _ => by simp [ElseBranch.toElement, ElseBranch.form]
  | .elseIf _ _ (some _), .final _ => by simp [ElseBranch.toElement, ElseBranch.form]
  | .final _, .elseIf _ _ none => by simp [ElseBranch.toElement, ElseBranch.form]
  | .final _, .elseIf _ _ (some _) => by simp [ElseBranch.toElement, ElseBranch.form]
  | .final body, .final body' => by
      simp [ElseBranch.toElement, ElseBranch.form, Element.header, Stmt.elements_inj body body']

end

/-- Programs and their parts have the same visual tree if and only if they have the same form. -/
theorem toElement_eq_iff_form :
    (∀ chunk chunk' : Chunk, chunk.toElement = chunk'.toElement ↔ chunk.form = chunk'.form) ∧
      (∀ block block' : Block,
        Block.toElement block = Block.toElement block' ↔ Stmt.forms block = Stmt.forms block') ∧
      (∀ stmt stmt' : Stmt, stmt.toElement = stmt'.toElement ↔ stmt.form = stmt'.form) ∧
      (∀ value value' : Expr, value.toElement = value'.toElement ↔ value.form = value'.form) ∧
      (∀ field field' : Field, field.toElement = field'.toElement ↔ field.form = field'.form) ∧
      ∀ orelse orelse' : ElseBranch,
        orelse.toElement = orelse'.toElement ↔ orelse.form = orelse'.form := by
  have hblock : ∀ block block' : Block,
      Block.toElement block = Block.toElement block' ↔ Stmt.forms block = Stmt.forms block' := by
    intro block block'
    rw [Block.toElement, Block.toElement, Element.statements_inj, Stmt.elements_inj]
  refine ⟨fun chunk chunk' => ?_, hblock, Stmt.toElement_inj, Expr.toElement_inj,
    Field.toElement_inj, ElseBranch.toElement_inj⟩
  simp [Chunk.toElement, Chunk.form, hblock]

end LuaView
