import LuaView.Markup.Plain
import LuaView.Proofs.Program.Marks

/-!
# How programs are laid out

The plain text of every construct, in terms of the plain text of its parts.  Expressions are set in
a line; statements are lines.  A list of lines is written with a line break in front of each, which
is how lines stand behind something else.
-/

namespace LuaView

open Plain (Skeleton)
open Plain.Skeleton (ofText ofChars)

namespace Element

/-- The marks in front of which no space is written. -/
@[simp] theorem attachesBefore_text (run : String) :
    (Element.text run).attachesBefore = [")", "]", ",", ".", ":", "(", "[", ";"].contains run :=
  rfl

/-- The marks behind which no space is written. -/
@[simp] theorem attachesAfter_text (run : String) :
    (Element.text run).attachesAfter = ["(", "[", ".", ":"].contains run :=
  rfl

@[simp] theorem attachesBefore_leaf (word : String) (emphasis : Emphasis) :
    (Element.leaf word emphasis).attachesBefore = false :=
  rfl

@[simp] theorem attachesAfter_leaf (word : String) (emphasis : Emphasis) :
    (Element.leaf word emphasis).attachesAfter = false :=
  rfl

@[simp] theorem attachesBefore_inline (role : Role) (children : List Element) :
    (Element.inline role children).attachesBefore = false :=
  rfl

theorem attachesBefore_container (role : Role) (layout : Layout) (children : List Element) :
    (Element.container role layout children).attachesBefore = false :=
  rfl

theorem attachesAfter_container (role : Role) (layout : Layout) (children : List Element) :
    (Element.container role layout children).attachesAfter = false :=
  rfl

@[simp] theorem attachesBefore_exprList (elements : List Element) :
    (Element.exprList elements).attachesBefore = false :=
  rfl

@[simp] theorem attachesAfter_exprList (elements : List Element) :
    (Element.exprList elements).attachesAfter = false :=
  rfl

@[simp] theorem isOperator_leaf (word : String) (emphasis : Emphasis) :
    (Element.leaf word emphasis).isOperator = false :=
  rfl

end Element

namespace Expr

/-- Only marks are drawn to what stands before them, and no expression is a mark. -/
@[simp] theorem attachesBefore_toElement (value : Expr) :
    value.toElement.attachesBefore = false := by
  cases value with
  | boolean value => cases value <;> rfl
  | index value key style => cases style <;> rfl
  | _ => rfl

/-- No expression draws what stands behind it. -/
@[simp] theorem attachesAfter_toElement (value : Expr) :
    value.toElement.attachesAfter = false := by
  cases value with
  | boolean value => cases value <;> rfl
  | index value key style => cases style <;> rfl
  | _ => rfl

/-- The element of an expression is an operation exactly if the expression is one. -/
@[simp] theorem isOperator_toElement (value : Expr) :
    value.toElement.isOperator = value.isOperation := by
  cases value with
  | boolean value => cases value <;> rfl
  | index value key style => cases style <;> rfl
  | _ => rfl

end Expr

/-- The operator is a word, so a space stands between it and its operand. -/
def UnaryOp.isWord : UnaryOp → Bool
  | .not => true
  | _ => false

namespace Plain

open Element (spaceBetween leadingSpace isCompact)

theorem inline_text (depth : Nat) (word : String) :
    inline depth (.text word) = ofText word :=
  rfl

theorem inline_leaf (depth : Nat) (word : String) (emphasis : Emphasis) :
    inline depth (.leaf word emphasis) = ofText word :=
  rfl

/-- A block in the middle of a line continues it, without its own first indentation. -/
theorem inline_block (depth : Nat) (role : Role) (children : List Element) :
    inline depth (Element.block role children) =
      (Skeleton.joinLines (childLines role depth children)).trimStart :=
  rfl

/-- A container in a line is the run of its children, one behind the other. -/
theorem inline_inline (depth : Nat) (role : Role) (children : List Element) :
    inline depth (Element.inline role children) =
      run depth role (isCompact role children) none children :=
  rfl

theorem inline_row (depth : Nat) (role : Role) (children : List Element) :
    inline depth (.container role .row children) =
      run depth role (isCompact role children) none children :=
  rfl

theorem inline_cell (depth : Nat) (role : Role) (children : List Element) :
    inline depth (.container role .cell children) =
      run depth role (isCompact role children) none children :=
  rfl

theorem run_nil (depth : Nat) (role : Role) (compact : Bool) (previous : Option Element) :
    run depth role compact previous [] = [] :=
  rfl

/-- One step of a run: the space in front of the child, the child, in parentheses if it is an
operation in an operation, and the rest of the run. -/
theorem run_cons
    (depth : Nat)
    (role : Role)
    (compact : Bool)
    (previous : Option Element)
    (child : Element)
    (rest : List Element) :
    run depth role compact previous (child :: rest) =
      ofChars (leadingSpace compact previous child) ++
        Skeleton.group (role.isOperator && child.isOperator) (inline depth child) ++
        run depth role compact (some child) rest :=
  rfl

/-- Outside operations the role of a container does not matter for the run of its children. -/
theorem run_role
    {role : Role}
    (hrole : role.isOperator = false)
    (depth : Nat)
    (children : List Element) :
    ∀ previous, run depth role false previous children =
      run depth .header false previous children := by
  induction children with
  | nil => exact fun previous => rfl
  | cons child rest ih =>
      intro previous
      rw [run_cons, run_cons, ih, hrole]
      rfl

/-- The first element of a line that is not an operation. -/
theorem run_first (depth : Nat) (child : Element) (rest : List Element) :
    run depth .header false none (child :: rest) =
      inline depth child ++ run depth .header false (some child) rest :=
  rfl

/-- A further element of a line that is not an operation, with a space where one belongs. -/
theorem run_next (depth : Nat) (left child : Element) (rest : List Element) :
    run depth .header false (some left) (child :: rest) =
      (if spaceBetween left child then [.char ' '] else []) ++
        (inline depth child ++ run depth .header false (some child) rest) := by
  cases hspace : spaceBetween left child <;>
    simp [run_cons, leadingSpace, Skeleton.group, Role.isOperator, ofChars, hspace]

theorem run_end (depth : Nat) (previous : Option Element) :
    run depth .header false previous [] = [] :=
  rfl

/-- A container that is set in a line and is neither an operation nor compact. -/
theorem inline_line
    {role : Role}
    (hoperator : role.isOperator = false)
    {children : List Element}
    (hcompact : isCompact role children = false)
    (depth : Nat) :
    inline depth (Element.inline role children) = run depth .header false none children := by
  rw [inline_inline, hcompact, run_role hoperator]

/-- A mark of one character, such as a comma or a bracket, is laid out as that character. -/
@[simp] theorem ofText_mark {mark : String} (hone : mark.toList.length = 1) :
    ofText mark = [.char mark.toList[0]] := by
  obtain ⟨c, hc⟩ := List.length_eq_one_iff.mp hone
  simp [ofText, ofChars, hc]

/-- Elements in a line with commas between them. -/
def listed (depth : Nat) : List Element → Skeleton
  | [] => []
  | [element] => inline depth element
  | element :: rest => inline depth element ++ .char ',' :: .char ' ' :: listed depth rest

/-- A run of elements with commas between them is the list of these elements. -/
theorem run_separate
    (depth : Nat)
    {elements : List Element}
    (helements : ∀ element ∈ elements, element.attachesBefore = false ∧
      element.attachesAfter = false) :
    run depth .header false none (Element.separate elements) = listed depth elements := by
  have hbehind : ∀ (element : Element) (rest : List Element),
      (∀ other ∈ element :: rest, other.attachesBefore = false ∧ other.attachesAfter = false) →
      run depth .header false (some (.text ",")) (Element.separate (element :: rest)) =
        .char ' ' :: listed depth (element :: rest) := by
    intro element rest
    induction rest generalizing element with
    | nil =>
        intro h
        simp [Element.separate, List.intersperse, run_next, run_end, spaceBetween, h, listed]
    | cons next rest ih =>
        intro h
        have htail := ih next fun other hother => h other (List.mem_cons_of_mem _ hother)
        unfold Element.separate at htail ⊢
        simp [List.intersperse, run_next, spaceBetween, h, listed, htail, inline_text]
  cases elements with
  | nil => rfl
  | cons element rest =>
      cases rest with
      | nil => simp [Element.separate, List.intersperse, run_first, run_end, listed]
      | cons next rest =>
          have htail := hbehind next rest fun other hother =>
            helements other (List.mem_cons_of_mem _ hother)
          unfold Element.separate at htail ⊢
          simp [List.intersperse, run_first, run_next, spaceBetween, listed, htail, inline_text]

/-- The elements of expressions take the spaces that words take. -/
theorem attaches_elements (values : List Expr) :
    ∀ element ∈ Expr.elements values, element.attachesBefore = false ∧
      element.attachesAfter = false := by
  induction values with
  | nil => nofun
  | cons value values ih =>
      intro element helement
      rcases List.mem_cons.mp helement with rfl | helement
      · exact ⟨value.attachesBefore_toElement, value.attachesAfter_toElement⟩
      · exact ih element helement

/-- Expressions in a line with commas between them. -/
def exprs (depth : Nat) (values : List Expr) : Skeleton :=
  listed depth (Expr.elements values)

/-- Values with commas between them are the same list in all roles that are not operations. -/
theorem inline_separate
    {role : Role}
    (hoperator : role.isOperator = false)
    (hcompact : ∀ children, isCompact role children = false)
    (depth : Nat)
    (values : List Expr) :
    inline depth (Element.inline role (Element.separate (Expr.elements values))) =
      exprs depth values := by
  rw [inline_line hoperator (hcompact _), run_separate depth (attaches_elements values), exprs]

@[simp] theorem inline_exprList (depth : Nat) (values : List Expr) :
    inline depth (Element.exprList (Expr.elements values)) = exprs depth values :=
  inline_separate rfl (fun _ => rfl) depth values

@[simp] theorem inline_arguments (depth : Nat) (values : List Expr) :
    inline depth (Element.inline .arguments (Element.separate (Expr.elements values))) =
      exprs depth values :=
  inline_separate rfl (fun _ => rfl) depth values

@[simp] theorem inline_parameters (depth : Nat) (values : List Expr) :
    inline depth (Element.inline .parameters (Element.separate (Expr.elements values))) =
      exprs depth values :=
  inline_separate rfl (fun _ => rfl) depth values

/-! ## Expressions -/

/-- An expression in a line. -/
def expr (depth : Nat) (value : Expr) : Skeleton :=
  inline depth value.toElement

/-- A list of two values or more: the first one, a comma and the others. -/
theorem exprs_more (depth : Nat) (value next : Expr) (values : List Expr) :
    exprs depth (value :: next :: values) =
      expr depth value ++ .char ',' :: .char ' ' :: exprs depth (next :: values) :=
  rfl

/-- Expressions in parentheses. -/
def parenthesized (depth : Nat) (values : List Expr) : Skeleton :=
  .char '(' :: (exprs depth values ++ [.char ')'])

/-- A name behind a point is written without spaces. -/
theorem expr_index_dot (depth : Nat) (value key : Expr) :
    expr depth (.index value key .dot) =
      expr depth value ++ .char '.' :: expr depth key := by
  have helement : (Expr.index value key .dot).toElement =
    Element.inline .index [value.toElement, .text ".", key.toElement] := rfl
  rw [expr, helement, inline_line rfl rfl]
  simp [run_first, run_next, run_end, spaceBetween, inline_text, expr]

/-- A key in brackets stands right behind the value. -/
theorem expr_index_bracket (depth : Nat) (value key : Expr) :
    expr depth (.index value key .bracket) =
      expr depth value ++ .char '[' :: (expr depth key ++ [.char ']']) := by
  have helement : (Expr.index value key .bracket).toElement =
    Element.inline .index [value.toElement, .text "[", key.toElement, .text "]"] := rfl
  rw [expr, helement, inline_line rfl rfl]
  simp [run_first, run_next, run_end, spaceBetween, inline_text, expr]

/-- Arguments stand in parentheses right behind the callee. -/
theorem expr_call (depth : Nat) (callee : Expr) (arguments : List Expr) :
    expr depth (.call callee arguments) =
      expr depth callee ++ parenthesized depth arguments := by
  have helement : (Expr.call callee arguments).toElement =
      Element.inline .call (callee.toElement :: Element.callArguments (Expr.elements arguments)) :=
    rfl
  rw [expr, helement, inline_line rfl rfl]
  simp [Element.callArguments, run_first, run_next, run_end, spaceBetween, inline_text, expr,
    parenthesized]

/-- A call of a method has a colon between the receiver and the name of the method. -/
theorem expr_invoke (depth : Nat) (receiver : Expr) (method : Name) (arguments : List Expr) :
    expr depth (.invoke receiver method arguments) =
      expr depth receiver ++ .char ':' :: (ofText method ++ parenthesized depth arguments) := by
  have helement : (Expr.invoke receiver method arguments).toElement =
    Element.inline .invoke (receiver.toElement :: .text ":" :: .leaf method .name ::
      Element.callArguments (Expr.elements arguments)) := rfl
  rw [expr, helement, inline_line rfl rfl]
  simp [Element.callArguments, run_first, run_next, run_end, spaceBetween, inline_text,
    inline_leaf, expr, parenthesized]

/-- A binary operation, with those of its operands in parentheses that are operations themselves. -/
theorem expr_binary (depth : Nat) (op : BinaryOp) (left right : Expr) :
    expr depth (.binary op left right) =
      Skeleton.group left.isOperation (expr depth left) ++
        .char ' ' :: (ofText op.symbol ++
          .char ' ' :: Skeleton.group right.isOperation (expr depth right)) := by
  have helement : (Expr.binary op left right).toElement =
    Element.inline .binaryOp
      [left.toElement, .leaf op.symbol .operator, right.toElement] := rfl
  rw [expr, helement, inline_inline]
  simp [run_cons, run_nil, leadingSpace, spaceBetween, isCompact, Role.isOperator, inline_leaf,
    ofChars, Skeleton.group, expr]

/-- The sign of a unary operator is set as a word exactly if the operator is one. -/
theorem isWordLeaf_symbol (op : UnaryOp) :
    (Element.leaf op.symbol .operator).isWordLeaf = op.isWord := by
  cases op <;> decide

/-- A unary operation, with a space behind an operator that is a word. -/
theorem expr_unary (depth : Nat) (op : UnaryOp) (operand : Expr) :
    expr depth (.unary op operand) =
      ofText op.symbol ++ ((if op.isWord then [.char ' '] else []) ++
        Skeleton.group operand.isOperation (expr depth operand)) := by
  have helement : (Expr.unary op operand).toElement =
    Element.inline .unaryOp [.leaf op.symbol .operator, operand.toElement] := rfl
  rw [expr, helement, inline_inline]
  cases hword : op.isWord <;>
    simp [run_cons, run_nil, leadingSpace, spaceBetween, isCompact, Role.isOperator, inline_leaf,
      ofChars, isWordLeaf_symbol, hword, Skeleton.group, expr]

/-- An entry of a table. -/
def entry (depth : Nat) (field : Field) : Skeleton :=
  inline depth field.toElement

/-- The lines of the entries of a table, each with a comma at its end. -/
def entries (depth : Nat) (fields : List Field) : Skeleton :=
  tableRows depth (Field.elements fields)

/-- Every field of a table is on a line of its own, followed by a comma. -/
theorem entries_cons (depth : Nat) (field : Field) (fields : List Field) :
    entries depth (field :: fields) =
      .char '\n' :: .indent depth :: (entry depth field ++ .char ',' :: entries depth fields) := by
  have hrows : entries depth (field :: fields) =
    (.char '\n' :: .indent depth :: entry depth field) ++ .char ',' :: entries depth fields := rfl
  rw [hrows, List.cons_append, List.cons_append]

theorem expr_table_nil (depth : Nat) :
    expr depth (.table []) = [.char '\x7b', .char '\x7d'] :=
  rfl

/-- The fields of a table are one level deeper than the braces around them. -/
theorem expr_table_cons (depth : Nat) (field : Field) (fields : List Field) :
    expr depth (.table (field :: fields)) =
      .char '\x7b' :: (entries (depth + 1) (field :: fields) ++
        [.char '\n', .indent depth, .char '\x7d']) := by
  have htable : expr depth (.table (field :: fields)) =
    (.char '\x7b' :: entries (depth + 1) (field :: fields)) ++
      [.char '\n', .indent depth, .char '\x7d'] := rfl
  rw [htable, List.cons_append]

theorem entry_positional (depth : Nat) (value : Expr) (bracketed : Bool) :
    entry depth (.mk none value bracketed) = expr depth value := by
  have helement : (Field.mk none value bracketed).toElement = Field.row [] value.toElement := rfl
  rw [entry, helement, Field.row]
  simp [inline_row, inline_cell, run_cons, run_nil, leadingSpace, Skeleton.group, Role.isOperator,
    ofChars, expr]

/-- A field with a key in brackets. -/
theorem entry_bracketed (depth : Nat) (key value : Expr) :
    entry depth (.mk (some key) value true) =
      .char '[' :: (expr depth key ++
        .char ']' :: .char ' ' :: .char '=' :: .char ' ' :: expr depth value) := by
  have helement : (Field.mk (some key) value true).toElement =
    Field.row [Field.keyElement key.toElement true] value.toElement := rfl
  rw [entry, helement, Field.row, Field.keyElement]
  simp [inline_row, inline_cell, inline_text, run_cons, run_nil, leadingSpace, spaceBetween,
    Element.attachesBefore_container, Element.attachesAfter_container, isCompact, Skeleton.group,
    Role.isOperator, ofChars, expr]

/-- A field with a name as its key. -/
theorem entry_named (depth : Nat) (key value : Expr) :
    entry depth (.mk (some key) value false) =
      expr depth key ++
        .char ' ' :: .char '=' :: .char ' ' :: expr depth value := by
  have helement : (Field.mk (some key) value false).toElement =
    Field.row [Field.keyElement key.toElement false] value.toElement := rfl
  rw [entry, helement, Field.row, Field.keyElement]
  simp [inline_row, inline_cell, inline_text, run_cons, run_nil, leadingSpace, spaceBetween,
    Element.attachesBefore_container, Element.attachesAfter_container, isCompact, Skeleton.group,
    Role.isOperator, ofChars, expr]

/-! ## Lines -/

/-- Lines behind something else. -/
def behind (lines : List Skeleton) : Skeleton :=
  lines.flatMap fun line => .char '\n' :: line

@[simp] theorem behind_nil : behind [] = [] :=
  rfl

@[simp] theorem behind_cons (line : Skeleton) (lines : List Skeleton) :
    behind (line :: lines) = .char '\n' :: (line ++ behind lines) :=
  rfl

@[simp] theorem behind_append (first second : List Skeleton) :
    behind (first ++ second) = behind first ++ behind second := by
  simp [behind]

/-- The lines of a text: the first one, and the others with a line break in front of each. -/
theorem joinLines_cons (line : Skeleton) (lines : List Skeleton) :
    Skeleton.joinLines (line :: lines) = line ++ behind lines := by
  unfold Skeleton.joinLines
  induction lines generalizing line with
  | nil => simp [List.intercalate]
  | cons next lines ih =>
      have hstep : [Piece.char '\n'].intercalate (line :: next :: lines) =
          line ++ (.char '\n' :: [Piece.char '\n'].intercalate (next :: lines)) := by
        simp [List.intercalate]
      rw [hstep, ih, behind_cons]

theorem childLines_nil (parent : Role) (depth : Nat) :
    childLines parent depth [] = [] :=
  rfl

/-- A block among the children of a block puts its lines among theirs. -/
theorem childLines_block
    (parent role : Role)
    (depth : Nat)
    (children rest : List Element) :
    childLines parent depth (Element.block role children :: rest) =
      childLines role (childDepth parent depth (some role)) children ++
        childLines parent depth rest :=
  rfl

/-- A child that is set in a line takes one line. -/
theorem childLines_inline
    (parent role : Role)
    (depth : Nat)
    (children rest : List Element) :
    childLines parent depth (Element.inline role children :: rest) =
      (.indent (childDepth parent depth (some role)) ::
          inline (childDepth parent depth (some role)) (Element.inline role children)) ::
        childLines parent depth rest :=
  rfl

theorem childLines_leaf
    (parent : Role)
    (depth : Nat)
    (word : String)
    (emphasis : Emphasis)
    (rest : List Element) :
    childLines parent depth (.leaf word emphasis :: rest) =
      (.indent depth :: ofText word) :: childLines parent depth rest :=
  rfl

/-- What is not a body stays on the level of its parent. -/
theorem childDepth_of_ne
    {child : Role}
    (hchild : child ≠ .block)
    (parent : Role)
    (depth : Nat) :
    childDepth parent depth (some child) = depth := by
  simp [childDepth, hchild]

/-- A body is one level deeper, except that of the whole program. -/
theorem childDepth_body
    {parent : Role}
    (hparent : parent ≠ .chunk)
    (depth : Nat) :
    childDepth parent depth (some .block) = depth + 1 := by
  simp [childDepth, hparent]

/-- The lines of a statement. -/
def stmtLines (depth : Nat) (stmt : Stmt) : List Skeleton :=
  childLines .statement depth [stmt.toElement]

/-- The lines of a sequence of statements. -/
def blockLines (depth : Nat) (stmts : Block) : List Skeleton :=
  stmts.flatMap (stmtLines depth)

/-- Statements as a child give the lines of their block, at the depth of the child. -/
theorem childLines_statements (parent : Role) (depth : Nat) (stmts : Block) (rest : List Element) :
    childLines parent depth (Element.statements (Stmt.elements stmts) :: rest) =
      blockLines (childDepth parent depth (some .block)) stmts ++ childLines parent depth rest := by
  have hstmts : ∀ depth, childLines .block depth
      ((Stmt.elements stmts).map fun element => Element.block .statement [element]) =
        blockLines depth stmts := by
    intro depth
    induction stmts with
    | nil => rfl
    | cons stmt stmts ih =>
        have helements : Stmt.elements (stmt :: stmts) =
          stmt.toElement :: Stmt.elements stmts := rfl
        rw [helements, List.map_cons, childLines_block, ih]
        rfl
  rw [Element.statements, childLines_block, hstmts]

/-- A program is the lines of its body. -/
theorem skeleton_chunk (chunk : Chunk) :
    skeleton chunk.toElement = Skeleton.joinLines (blockLines 0 chunk.body) := by
  have hlines : lines chunk.toElement =
    childLines .chunk 0 [Element.statements (Stmt.elements chunk.body)] := rfl
  rw [skeleton, hlines, childLines_statements, childLines_nil, List.append_nil]
  rfl

/-- The lines of a body, one level deeper, and the line that closes it. -/
def bodyLines (depth : Nat) (body : Block) : List Skeleton :=
  blockLines (depth + 1) body ++ [.indent depth :: ofText "end"]

/-- The lines of what closes with `end`. -/
theorem childLines_withBody
    {role : Role}
    (hblock : role ≠ .block)
    (hchunk : role ≠ .chunk)
    (parent : Role)
    (depth : Nat)
    (head : List Element)
    (body : Block) :
    childLines parent depth
        [Element.withBody role head (Element.statements (Stmt.elements body))] =
      (.indent depth :: run depth .header false none head) :: bodyLines depth body := by
  have hhead := childLines_inline role .header depth head
    [Element.statements (Stmt.elements body), Element.keyword "end"]
  rw [Element.withBody, childLines_block, childDepth_of_ne hblock, Element.header, hhead,
    childLines_statements, Element.keyword, childLines_leaf, childDepth_of_ne (by decide),
    childDepth_body hchunk, inline_line rfl rfl, childLines_nil, childLines_nil, List.append_nil,
    bodyLines]

/-- The first line of a function. -/
theorem run_functionHead (depth : Nat) (head : List Element) (parameters : List Expr) :
    ∀ previous, run depth .header false previous (head ++
        [.text "(", Element.inline .parameters (Element.separate (Expr.elements parameters)),
          .text ")"]) =
      run depth .header false previous head ++ parenthesized depth parameters := by
  induction head with
  | nil =>
      intro previous
      cases previous <;>
        simp [run_first, run_next, run_end, spaceBetween, inline_text, parenthesized]
  | cons element head ih =>
      intro previous
      simp only [List.cons_append, run_cons, ih, List.append_assoc]

/-- A function in an expression: its head continues the line, and the lines of its body follow. -/
theorem expr_function (depth : Nat) (parameters : List Expr) (body : Block) :
    expr depth (.function parameters body) =
      ofText "function" ++
        (parenthesized depth parameters ++ behind (bodyLines depth body)) := by
  have helement : (Expr.function parameters body).toElement =
    Element.functionUnit .anonymousFunction [Element.keyword "function"]
      (Expr.elements parameters) (Element.statements (Stmt.elements body)) := rfl
  have hlines := @childLines_withBody .anonymousFunction (by decide) (by decide) .statement depth
    ([Element.keyword "function"] ++ [.text "(",
      Element.inline .parameters (Element.separate (Expr.elements parameters)), .text ")"]) body
  rw [Element.withBody, childLines_block, childLines_nil, List.append_nil,
    childDepth_of_ne (by decide), run_functionHead] at hlines
  have hword : run depth .header false none [Element.keyword "function"] = ofText "function" := by
    rw [Element.keyword, run_first, run_end, inline_leaf, List.append_nil]
  -- The lines start with an indentation, which is dropped because the line goes on.
  have htrim : ∀ rest, Skeleton.trimStart (.indent depth :: (ofText "function" ++ rest)) =
      ofText "function" ++ rest := by
    intro rest
    have hfront : ofText "function" = .char 'f' :: ofText "unction" := by decide
    rw [Skeleton.trimStart, List.dropWhile_cons_of_pos rfl, hfront]
    exact List.dropWhile_cons_of_neg (by decide)
  rw [expr, helement, Element.functionUnit, Element.withBody, inline_block, hlines,
    joinLines_cons, hword, List.cons_append, List.append_assoc, htrim]

/-! ## Statements -/

/-- A statement that is set in a line. -/
theorem stmtLines_line
    {role : Role}
    (hoperator : role.isOperator = false)
    (hblock : role ≠ .block)
    {children : List Element}
    (hcompact : isCompact role children = false)
    {stmt : Stmt}
    (hstmt : stmt.toElement = Element.inline role children)
    (depth : Nat) :
    stmtLines depth stmt = [.indent depth :: run depth .header false none children] := by
  rw [stmtLines, hstmt, childLines_inline, childDepth_of_ne hblock, inline_line hoperator hcompact,
    childLines_nil]

/-- A statement that closes with `end`. -/
theorem stmtLines_withBody
    {role : Role}
    (hblock : role ≠ .block)
    (hchunk : role ≠ .chunk)
    {head : List Element}
    {body : Block}
    {stmt : Stmt}
    (hstmt : stmt.toElement =
      Element.withBody role head (Element.statements (Stmt.elements body)))
    (depth : Nat) :
    stmtLines depth stmt =
      (.indent depth :: run depth .header false none head) :: bodyLines depth body := by
  rw [stmtLines, hstmt, childLines_withBody hblock hchunk]

/-- An assignment takes one line: its targets, an equals sign and its values. -/
theorem stmtLines_assign
    (depth : Nat)
    (targets : List Expr)
    (value : Expr)
    (values : List Expr) :
    stmtLines depth (.assign targets (value :: values)) =
      [.indent depth :: (exprs depth targets ++
        .char ' ' :: .char '=' :: .char ' ' :: exprs depth (value :: values))] := by
  have hstmt : (Stmt.assign targets (value :: values)).toElement =
      Element.inline .assign [Element.exprList (Expr.elements targets), .text "=",
        Element.exprList (Expr.elements (value :: values))] := rfl
  rw [stmtLines_line rfl (by decide) rfl hstmt]
  simp [run_first, run_next, run_end, spaceBetween, inline_text]

/-- A declaration without values is written without an equals sign. -/
theorem stmtLines_declaration (depth : Nat) (targets : List Expr) :
    stmtLines depth (.localAssign targets []) =
      [.indent depth :: (ofText "local" ++ .char ' ' :: exprs depth targets)] := by
  have hstmt : (Stmt.localAssign targets []).toElement =
      Element.inline .localAssign
        [Element.keyword "local", Element.exprList (Expr.elements targets)] := rfl
  rw [stmtLines_line rfl (by decide) rfl hstmt]
  simp [run_first, run_next, run_end, spaceBetween, Element.keyword, inline_leaf]

theorem stmtLines_localAssign
    (depth : Nat)
    (targets : List Expr)
    (value : Expr)
    (values : List Expr) :
    stmtLines depth (.localAssign targets (value :: values)) =
      [.indent depth :: (ofText "local" ++
        .char ' ' :: (exprs depth targets ++
          .char ' ' :: .char '=' :: .char ' ' :: exprs depth (value :: values)))] := by
  have hstmt : (Stmt.localAssign targets (value :: values)).toElement =
      Element.inline .localAssign
        [Element.keyword "local", Element.exprList (Expr.elements targets), .text "=",
          Element.exprList (Expr.elements (value :: values))] := rfl
  rw [stmtLines_line rfl (by decide) rfl hstmt]
  simp [run_first, run_next, run_end, spaceBetween, Element.keyword, inline_leaf, inline_text]

theorem stmtLines_returnNothing (depth : Nat) :
    stmtLines depth (.returnValues []) = [.indent depth :: ofText "return"] := by
  have hstmt : (Stmt.returnValues []).toElement =
      Element.inline .returnValues [Element.keyword "return"] := rfl
  rw [stmtLines_line rfl (by decide) rfl hstmt]
  simp [run_first, run_end, Element.keyword, inline_leaf]

theorem stmtLines_returnValues (depth : Nat) (value : Expr) (values : List Expr) :
    stmtLines depth (.returnValues (value :: values)) =
      [.indent depth :: (ofText "return" ++ .char ' ' :: exprs depth (value :: values))] := by
  have hstmt : (Stmt.returnValues (value :: values)).toElement =
      Element.inline .returnValues
        [Element.keyword "return", Element.exprList (Expr.elements (value :: values))] := rfl
  rw [stmtLines_line rfl (by decide) rfl hstmt]
  simp [run_first, run_next, run_end, spaceBetween, Element.keyword, inline_leaf]

/-- A label stands between its colons without spaces. -/
theorem stmtLines_label (depth : Nat) (id : Name) :
    stmtLines depth (.label id) =
      [.indent depth :: (ofText "::" ++ (ofText id ++ ofText "::"))] := by
  have hstmt : (Stmt.label id).toElement =
      Element.inline .label [.text "::", .leaf id .label, .text "::"] := rfl
  rw [stmtLines, hstmt, childLines_inline, childDepth_of_ne (by decide), inline_inline]
  simp [run_cons, run_nil, leadingSpace, isCompact, Skeleton.group, Role.isOperator, inline_text,
    inline_leaf, ofChars, childLines_nil]

theorem stmtLines_goto (depth : Nat) (id : Name) :
    stmtLines depth (.goto id) =
      [.indent depth :: (ofText "goto" ++ .char ' ' :: ofText id)] := by
  have hstmt : (Stmt.goto id).toElement =
      Element.inline .goto [Element.keyword "goto", .leaf id .label] := rfl
  rw [stmtLines_line rfl (by decide) rfl hstmt]
  simp [run_first, run_next, run_end, spaceBetween, Element.keyword, inline_leaf]

theorem stmtLines_breakLoop (depth : Nat) :
    stmtLines depth .breakLoop = [.indent depth :: ofText "break"] :=
  rfl

theorem stmtLines_semicolon (depth : Nat) :
    stmtLines depth .semicolon = [[.indent depth, .char ';']] := by
  have hlines : stmtLines depth .semicolon = [.indent depth :: ofText ";"] := rfl
  simp [hlines]

/-- A call that is a statement takes the line of the expression. -/
theorem stmtLines_expr
    (depth : Nat)
    (value : Expr)
    (hvalue : value.isCall = true) :
    stmtLines depth (.expr value) = [.indent depth :: expr depth value] := by
  cases value with
  | call callee arguments => rfl
  | invoke receiver method arguments => rfl
  | _ => cases hvalue

/-- A loop with its test in front: the head on a line of its own, then the body. -/
theorem stmtLines_whileLoop (depth : Nat) (test : Expr) (body : Block) :
    stmtLines depth (.whileLoop test body) =
      (.indent depth :: (ofText "while" ++
        .char ' ' :: (expr depth test ++ .char ' ' :: ofText "do"))) :: bodyLines depth body := by
  have hstmt : (Stmt.whileLoop test body).toElement =
      Element.withBody .whileLoop
        [Element.keyword "while", test.toElement, Element.keyword "do"]
        (Element.statements (Stmt.elements body)) := rfl
  rw [stmtLines_withBody (by decide) (by decide) hstmt]
  simp [run_first, run_next, run_end, spaceBetween, Element.keyword, inline_leaf, expr]

theorem stmtLines_doBlock (depth : Nat) (body : Block) :
    stmtLines depth (.doBlock body) = (.indent depth :: ofText "do") :: bodyLines depth body := by
  have hstmt : (Stmt.doBlock body).toElement =
      Element.withBody .doBlock [Element.keyword "do"]
        (Element.statements (Stmt.elements body)) := rfl
  rw [stmtLines_withBody (by decide) (by decide) hstmt]
  simp [run_first, run_end, Element.keyword, inline_leaf]

/-- A loop with its test behind the body, on the line that closes it. -/
theorem stmtLines_repeatLoop (depth : Nat) (body : Block) (test : Expr) :
    stmtLines depth (.repeatLoop body test) =
      (.indent depth :: ofText "repeat") :: (blockLines (depth + 1) body ++
        [.indent depth :: (ofText "until" ++ .char ' ' :: expr depth test)]) := by
  have hstmt : (Stmt.repeatLoop body test).toElement =
      Element.block .repeatLoop
        [Element.inline .header [Element.keyword "repeat"],
          Element.statements (Stmt.elements body),
          Element.inline .footer [Element.keyword "until", test.toElement]] := rfl
  rw [stmtLines, hstmt, childLines_block, childDepth_of_ne (by decide), childLines_inline,
    childLines_statements, childLines_inline, childDepth_of_ne (by decide),
    childDepth_body (by decide), childDepth_of_ne (by decide), inline_line rfl rfl,
    inline_line rfl rfl]
  simp [run_first, run_next, run_end, spaceBetween, Element.keyword, inline_leaf, childLines_nil,
    expr]

/-- The line that opens a condition, and the lines of what depends on it. -/
def clauseLines (depth : Nat) (word : String) (test : Expr) (body : Block) : List Skeleton :=
  (.indent depth :: (ofText word ++
    .char ' ' :: (expr depth test ++ .char ' ' :: ofText "then"))) :: blockLines (depth + 1) body

/-- The lines of an alternative. -/
def elseLines (depth : Nat) (orelse : ElseBranch) : List Skeleton :=
  childLines .ifThen depth [orelse.toElement]

/-- A clause of a condition: a line with its test, and the body one level deeper. -/
theorem childLines_clause
    {parent : Role}
    (hparent : parent ≠ .chunk)
    (depth : Nat)
    (word : String)
    (test : Expr)
    (body : Block)
    (rest : List Element) :
    childLines parent depth
        (Element.header [Element.keyword word, test.toElement, Element.keyword "then"] ::
          Element.statements (Stmt.elements body) :: rest) =
      clauseLines depth word test body ++ childLines parent depth rest := by
  rw [Element.header, childLines_inline, childLines_statements, childDepth_of_ne (by decide),
    childDepth_body hparent, inline_line rfl rfl]
  simp [run_first, run_next, run_end, spaceBetween, Element.keyword, inline_leaf, clauseLines, expr]

/-- An alternative has the same lines wherever it stands. -/
theorem childLines_orelse
    (parent : Role)
    (depth : Nat)
    (orelse : ElseBranch)
    (rest : List Element) :
    childLines parent depth (orelse.toElement :: rest) =
      elseLines depth orelse ++ childLines parent depth rest := by
  have hlines : ∀ role children, orelse.toElement = Element.block role children →
      role ≠ .block → childLines parent depth (orelse.toElement :: rest) =
        elseLines depth orelse ++ childLines parent depth rest := by
    intro role children helement hrole
    rw [elseLines, helement, childLines_block, childLines_block, childDepth_of_ne hrole,
      childDepth_of_ne hrole, childLines_nil, List.append_nil]
  cases orelse with
  | elseIf test body orelse =>
      cases orelse with
      | none => exact hlines .elseIf _ rfl (by decide)
      | some orelse => exact hlines .elseIf _ rfl (by decide)
  | final body => exact hlines .elseBlock _ rfl (by decide)

/-- A further test that no alternative follows. -/
theorem elseLines_elseIf (depth : Nat) (test : Expr) (body : Block) :
    elseLines depth (.elseIf test body none) = clauseLines depth "elseif" test body := by
  have helement : (ElseBranch.elseIf test body none).toElement =
      Element.block .elseIf
        [Element.header [Element.keyword "elseif", test.toElement, Element.keyword "then"],
          Element.statements (Stmt.elements body)] := rfl
  rw [elseLines, helement, childLines_block, childDepth_of_ne (by decide),
    childLines_clause (by decide), childLines_nil, childLines_nil, List.append_nil,
    List.append_nil]

/-- A further test, and the alternatives behind it on the same level. -/
theorem elseLines_elseIf_some
    (depth : Nat)
    (test : Expr)
    (body : Block)
    (orelse : ElseBranch) :
    elseLines depth (.elseIf test body (some orelse)) =
      clauseLines depth "elseif" test body ++ elseLines depth orelse := by
  have helement : (ElseBranch.elseIf test body (some orelse)).toElement =
      Element.block .elseIf
        [Element.header [Element.keyword "elseif", test.toElement, Element.keyword "then"],
          Element.statements (Stmt.elements body), orelse.toElement] := rfl
  rw [elseLines, helement, childLines_block, childDepth_of_ne (by decide),
    childLines_clause (by decide), childLines_orelse, childLines_nil, childLines_nil,
    List.append_nil, List.append_nil]

/-- The last alternative has no test. -/
theorem elseLines_final (depth : Nat) (body : Block) :
    elseLines depth (.final body) =
      (.indent depth :: ofText "else") :: blockLines (depth + 1) body := by
  have helement : (ElseBranch.final body).toElement =
      Element.block .elseBlock
        [Element.inline .header [Element.keyword "else"],
          Element.statements (Stmt.elements body)] := rfl
  rw [elseLines, helement, childLines_block, childDepth_of_ne (by decide), childLines_inline,
    childLines_statements, childDepth_of_ne (by decide), childDepth_body (by decide),
    inline_line rfl rfl]
  simp [run_first, run_end, Element.keyword, inline_leaf, childLines_nil]

theorem stmtLines_ifThen (depth : Nat) (test : Expr) (body : Block) :
    stmtLines depth (.ifThen test body none) =
      clauseLines depth "if" test body ++ [.indent depth :: ofText "end"] := by
  have hstmt : (Stmt.ifThen test body none).toElement =
      Element.block .ifThen
        [Element.header [Element.keyword "if", test.toElement, Element.keyword "then"],
          Element.statements (Stmt.elements body), .leaf "end" .keyword] := rfl
  rw [stmtLines, hstmt, childLines_block, childDepth_of_ne (by decide),
    childLines_clause (by decide), childLines_leaf, childLines_nil, childLines_nil,
    List.append_nil]

/-- A condition with alternatives: one `end` closes all of them. -/
theorem stmtLines_ifThen_some
    (depth : Nat)
    (test : Expr)
    (body : Block)
    (orelse : ElseBranch) :
    stmtLines depth (.ifThen test body (some orelse)) =
      clauseLines depth "if" test body ++
        (elseLines depth orelse ++ [.indent depth :: ofText "end"]) := by
  have hstmt : (Stmt.ifThen test body (some orelse)).toElement =
      Element.block .ifThen
        [Element.header [Element.keyword "if", test.toElement, Element.keyword "then"],
          Element.statements (Stmt.elements body), orelse.toElement, .leaf "end" .keyword] := rfl
  rw [stmtLines, hstmt, childLines_block, childDepth_of_ne (by decide),
    childLines_clause (by decide), childLines_orelse, childLines_leaf, childLines_nil,
    childLines_nil, List.append_nil]

/-- A counting loop, where the default step is left out. -/
theorem stmtLines_numericFor
    (depth : Nat)
    (counter : Name)
    (start stop step : Expr)
    (body : Block) :
    stmtLines depth (.numericFor counter start stop step body) =
      (.indent depth :: (ofText "for" ++ .char ' ' :: (ofText counter ++
        .char ' ' :: .char '=' :: .char ' ' :: (expr depth start ++
          .char ',' :: .char ' ' :: (expr depth stop ++
            ((if step.isDefaultStep then [] else .char ',' :: .char ' ' :: expr depth step) ++
              .char ' ' :: ofText "do")))))) :: bodyLines depth body := by
  have hstmt : (Stmt.numericFor counter start stop step body).toElement =
      Element.withBody .forNum
        ([Element.keyword "for", .leaf counter .name, .text "=", start.toElement, .text ",",
            stop.toElement] ++
          (if step.isDefaultStep then [] else [.text ",", step.toElement]) ++
            [Element.keyword "do"])
        (Element.statements (Stmt.elements body)) := rfl
  rw [stmtLines_withBody (by decide) (by decide) hstmt]
  cases step.isDefaultStep <;>
    simp [run_first, run_next, run_end, spaceBetween, Element.keyword, inline_leaf, inline_text,
      expr]

theorem elements_map_name (names : List Name) :
    Expr.elements (names.map .name) = names.map Name.toElement := by
  induction names with
  | nil => rfl
  | cons id names ih => exact congrArg (Name.toElement id :: ·) ih

/-- A loop over iterators, with its names in front of `in`. -/
theorem stmtLines_genericFor
    (depth : Nat)
    (names : List Name)
    (iterators : List Expr)
    (body : Block) :
    stmtLines depth (.genericFor names iterators body) =
      (.indent depth :: (ofText "for" ++
        .char ' ' :: (exprs depth (names.map .name) ++
          .char ' ' :: (ofText "in" ++ .char ' ' :: (exprs depth iterators ++
            .char ' ' :: ofText "do"))))) :: bodyLines depth body := by
  have hstmt : (Stmt.genericFor names iterators body).toElement =
      Element.withBody .forIn
        [Element.keyword "for", Element.exprList (names.map Name.toElement),
          Element.keyword "in", Element.exprList (Expr.elements iterators), Element.keyword "do"]
        (Element.statements (Stmt.elements body)) := rfl
  rw [stmtLines_withBody (by decide) (by decide) hstmt, ← elements_map_name]
  simp [run_first, run_next, run_end, spaceBetween, Element.keyword, inline_leaf]

/-- A function statement: its head on a line of its own, then the body. -/
theorem stmtLines_function
    (depth : Nat)
    (name : Expr)
    (parameters : List Expr)
    (body : Block) :
    stmtLines depth (.function name parameters body) =
      (.indent depth :: (ofText "function" ++ .char ' ' :: (expr depth name ++
        parenthesized depth parameters))) :: bodyLines depth body := by
  have hstmt : (Stmt.function name parameters body).toElement =
      Element.withBody .function ([Element.keyword "function", name.toElement] ++
          [.text "(", Element.inline .parameters (Element.separate (Expr.elements parameters)),
            .text ")"])
        (Element.statements (Stmt.elements body)) := rfl
  rw [stmtLines_withBody (by decide) (by decide) hstmt, run_functionHead]
  simp [run_first, run_next, run_end, spaceBetween, Element.keyword, inline_leaf, expr]

theorem stmtLines_localFunction
    (depth : Nat)
    (name : Name)
    (parameters : List Expr)
    (body : Block) :
    stmtLines depth (.localFunction name parameters body) =
      (.indent depth :: (ofText "local" ++ .char ' ' :: (ofText "function" ++
        .char ' ' :: (ofText name ++ parenthesized depth parameters)))) ::
          bodyLines depth body := by
  have hstmt : (Stmt.localFunction name parameters body).toElement =
      Element.withBody .localFunction
        ([Element.keyword "local", Element.keyword "function", .leaf name .name] ++
          [.text "(", Element.inline .parameters (Element.separate (Expr.elements parameters)),
            .text ")"])
        (Element.statements (Stmt.elements body)) := rfl
  rw [stmtLines_withBody (by decide) (by decide) hstmt, run_functionHead]
  simp [run_first, run_next, run_end, spaceBetween, Element.keyword, inline_leaf]

/-- A method has a colon between the receiver and its name. -/
theorem stmtLines_method
    (depth : Nat)
    (receiver : Expr)
    (name : Name)
    (parameters : List Expr)
    (body : Block) :
    stmtLines depth (.method receiver name parameters body) =
      (.indent depth :: (ofText "function" ++ .char ' ' :: (expr depth receiver ++
        .char ':' :: (ofText name ++ parenthesized depth parameters)))) ::
          bodyLines depth body := by
  have hstmt : (Stmt.method receiver name parameters body).toElement =
      Element.withBody .method
        ([Element.keyword "function",
            Element.inline .methodName [receiver.toElement, .text ":", .leaf name .name]] ++
          [.text "(", Element.inline .parameters (Element.separate (Expr.elements parameters)),
            .text ")"])
        (Element.statements (Stmt.elements body)) := rfl
  have hname : inline depth (Element.inline .methodName
      [receiver.toElement, .text ":", .leaf name .name]) =
        expr depth receiver ++ .char ':' :: ofText name := by
    rw [inline_line rfl rfl]
    simp [run_first, run_next, run_end, spaceBetween, inline_leaf, inline_text, expr]
  rw [stmtLines_withBody (by decide) (by decide) hstmt, run_functionHead]
  simp [run_first, run_next, run_end, spaceBetween, Element.keyword, inline_leaf, hname]

end Plain
end LuaView
