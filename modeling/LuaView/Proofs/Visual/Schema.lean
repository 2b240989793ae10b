import LuaView.Proofs.Parsing.Parentheses
import LuaView.Proofs.Visual.Containers
import LuaView.Visual.Program

/-!
# The schema of visual trees

What the containers of a visual tree look like is a matter of their role: it decides the layout, and
what the children of blocks, of tables and of compound statements are.  `Element.Conforms` is what
the schema asks of one container.

The visual tree of a parsed program conforms to it everywhere.  An expression does so if the blocks
in it do, whatever the expression is.  A statement has lists that must not be empty as well, and
that is what the grammar sees to.
-/

namespace LuaView

open Element (header statements exprList exprListAfter separate keyword)

/-! ## Containers -/

namespace Role

/-- The container is a statement with a body, an alternative of one, or a function. -/
def isCompound : Role → Bool
  | .whileLoop | .doBlock | .repeatLoop | .ifThen | .elseIf | .elseBlock | .forNum | .forIn
  | .function | .localFunction | .method | .anonymousFunction => true
  | _ => false

/-- The layout of the containers of a role. -/
def layout : Role → Layout
  | .table => .table
  | .field => .row
  | .fieldKey | .fieldValue => .cell
  | .chunk | .block | .statement => .block
  | role => if role.isCompound then .block else .inline

/-- There may be containers of the role without children. -/
def mayBeEmpty : Role → Bool
  | .block | .parameters | .arguments | .table => true
  | _ => false

/-- The container is an alternative of a condition. -/
def isClause : Role → Bool
  | .elseIf | .elseBlock => true
  | _ => false

end Role

namespace Element

/-- The element is an alternative of a condition. -/
def isClause (element : Element) : Bool :=
  element.role?.any Role.isClause

/-- A row of a table: a cell for the key, if there is one, and a cell for the value. -/
def IsRow (element : Element) : Prop :=
  ∃ (key : Option (List Element)) (value : Element),
    element = .container .field .row
      ((key.map (.container .fieldKey .cell)).toList ++ [.container .fieldValue .cell [value]])

/-- What closes a compound statement behind its header and its body. -/
def Closes (role : Role) (rest : List Element) : Prop :=
  match role with
  | .repeatLoop => ∃ children, rest = [inline .footer children]
  | .ifThen => ∃ clause : Option Element, (∀ element ∈ clause, element.isClause = true) ∧
      rest = clause.toList ++ [keyword "end"]
  | .elseIf => ∃ clause : Option Element, (∀ element ∈ clause, element.isClause = true) ∧
      rest = clause.toList
  | .elseBlock => rest = []
  | _ => rest = [keyword "end"]

/-- What the schema asks of a container. -/
structure Conforms (role : Role) (layout : Layout) (children : List Element) : Prop where
  layout_eq : layout = role.layout
  filled : children = [] → role.mayBeEmpty = true
  block : role = .block → ∀ child ∈ children, ∃ content, child = Element.block .statement [content]
  table : role = .table → ∀ child ∈ children, child.IsRow
  compound : role.isCompound = true → ∃ head body rest,
    children = header head :: Element.block .block body :: rest ∧ Closes role rest
  clause : ∀ (i : Nat) (child : Element), children[i]? = some child → child.isClause = true →
    i = 2 ∧ (role = .ifThen ∨ role = .elseIf)

/-- The element conforms to the schema, and it may stand anywhere. -/
def IsPart (element : Element) : Prop :=
  element.Every Conforms ∧ element.isClause = false

@[simp] theorem IsPart.leaf (word : String) (emphasis : Emphasis) :
    (leaf word emphasis).IsPart :=
  ⟨trivial, rfl⟩

@[simp] theorem IsPart.keyword (word : String) : (keyword word).IsPart :=
  .leaf word .keyword

@[simp] theorem IsPart.text (run : String) : (text run).IsPart :=
  ⟨trivial, rfl⟩

/-- Elements that are parts conform to the schema at every node. -/
theorem every_of_parts
    {elements : List Element}
    (h : ∀ element ∈ elements, element.IsPart) :
    EveryOfAll Conforms elements :=
  everyOfAll_iff.mpr fun element helement => (h element helement).1

/-- No alternative stands among the children. -/
theorem clause_of_parts
    {role : Role}
    {children : List Element}
    (h : ∀ child ∈ children, child.isClause = false) :
    ∀ (i : Nat) (child : Element), children[i]? = some child → child.isClause = true →
      i = 2 ∧ (role = .ifThen ∨ role = .elseIf) := by
  intro i child hchild hclause
  rw [h child (List.mem_of_getElem? hchild)] at hclause
  cases hclause

/-- A container whose role asks nothing of its children. -/
theorem IsPart.container
    {role : Role}
    {layout : Layout}
    {children : List Element}
    (hlayout : layout = role.layout)
    (hfree : role ≠ .block ∧ role ≠ .table ∧ role.isCompound = false)
    (hfilled : children ≠ [] ∨ role.mayBeEmpty = true)
    (hparts : ∀ child ∈ children, child.IsPart) :
    (Element.container role layout children).IsPart := by
  obtain ⟨hblock, htable, hcompound⟩ := hfree
  refine ⟨⟨?_, every_of_parts hparts⟩, ?_⟩
  · exact {
      layout_eq := hlayout
      filled := fun hempty => hfilled.resolve_left fun h => h hempty
      block := fun h => absurd h hblock
      table := fun h => absurd h htable
      compound := fun h => by rw [hcompound] at h; cases h
      clause := clause_of_parts fun child hchild => (hparts child hchild).2 }
  · cases role <;> first | rfl | cases hcompound

/-- A container that is set in a line. -/
theorem IsPart.inline
    {role : Role}
    {children : List Element}
    (hlayout : role.layout = .inline)
    (hfilled : children ≠ [] ∨ role.mayBeEmpty = true)
    (hparts : ∀ child ∈ children, child.IsPart) :
    (Element.inline role children).IsPart :=
  .container hlayout.symm (by cases role <;> first | decide | cases hlayout) hfilled hparts

/-- Commas stand between parts. -/
theorem parts_separate :
    ∀ {elements : List Element}, (∀ element ∈ elements, element.IsPart) →
      ∀ element ∈ separate elements, element.IsPart
  | [], _ => List.forall_mem_nil _
  | [_], h => h
  | _ :: _ :: _, h => by
      obtain ⟨helement, hrest⟩ := List.forall_mem_cons.mp h
      exact List.forall_mem_cons.mpr ⟨helement,
        List.forall_mem_cons.mpr ⟨.text ",", parts_separate hrest⟩⟩

/-- A list of expressions is a part if it is not empty and its expressions are parts. -/
theorem IsPart.exprList
    {elements : List Element}
    (hfilled : elements ≠ [])
    (h : ∀ element ∈ elements, element.IsPart) :
    (exprList elements).IsPart := by
  refine .inline rfl (.inl ?_) (parts_separate h)
  cases elements with
  | nil => exact absurd rfl hfilled
  | cons element rest => cases rest <;> exact List.cons_ne_nil _ _

/-- Expressions behind words are parts if they and the words are. -/
theorem parts_exprListAfter
    {words elements : List Element}
    (hwords : ∀ word ∈ words, word.IsPart)
    (h : ∀ element ∈ elements, element.IsPart) :
    ∀ element ∈ exprListAfter words elements, element.IsPart := by
  unfold exprListAfter
  split
  · nofun
  · rename_i hempty
    refine List.forall_mem_append.mpr ⟨hwords, List.forall_mem_singleton.mpr (.exprList ?_ h)⟩
    simpa using hempty

/-- Arguments in their parentheses. -/
theorem parts_callArguments
    {arguments : List Element}
    (h : ∀ element ∈ arguments, element.IsPart) :
    ∀ element ∈ callArguments arguments, element.IsPart := by
  have harguments : (Element.inline .arguments (separate arguments)).IsPart :=
    .inline rfl (.inr rfl) (parts_separate h)
  simp [callArguments, harguments]

/-- Statements are a part if each of them is one. -/
theorem IsPart.statements
    {elements : List Element}
    (h : ∀ element ∈ elements, element.IsPart) :
    (statements elements).IsPart := by
  have hchildren : ∀ child ∈ elements.map fun element => Element.block .statement [element],
      child.IsPart := by
    refine List.forall_mem_map.mpr fun element helement => ?_
    exact .container rfl (by decide) (.inl (List.cons_ne_nil _ _))
      (List.forall_mem_singleton.mpr (h element helement))
  refine ⟨⟨?_, every_of_parts hchildren⟩, rfl⟩
  exact {
    layout_eq := rfl
    filled := fun _ => rfl
    block := fun _ => List.forall_mem_map.mpr fun element _ => ⟨element, rfl⟩
    table := nofun
    compound := nofun
    clause := clause_of_parts fun child hchild => (hchildren child hchild).2 }

/-- A clause in front of a tail without clauses can only be the first child. -/
theorem eq_zero_of_clause
    {clause : Option Element}
    {tail : List Element}
    (htail : ∀ element ∈ tail, element.isClause = false)
    {i : Nat}
    {child : Element}
    (hchild : (clause.toList ++ tail)[i]? = some child)
    (hclause : child.isClause = true) :
    i = 0 ∧ clause.isSome = true := by
  have hnot : ∀ j : Nat, tail[j]? ≠ some child := fun j hj => by
    rw [htail child (List.mem_of_getElem? hj)] at hclause
    cases hclause
  cases clause with
  | none => exact absurd hchild (hnot i)
  | some element =>
      cases i with
      | zero => exact ⟨rfl, rfl⟩
      | succ j => exact absurd hchild (hnot j)

/-- An alternative comes right behind the body, and only behind that of a condition. -/
theorem Closes.clause
    {role : Role}
    {rest : List Element}
    (h : Closes role rest)
    {i : Nat}
    {child : Element}
    (hchild : rest[i]? = some child)
    (hclause : child.isClause = true) :
    i = 0 ∧ (role = .ifThen ∨ role = .elseIf) := by
  unfold Closes at h
  split at h
  · obtain ⟨children, rfl⟩ := h
    have hfooter := @eq_zero_of_clause none [Element.inline .footer children]
      (List.forall_mem_singleton.mpr rfl) _ _ hchild hclause
    cases hfooter.2
  · obtain ⟨clause, -, rfl⟩ := h
    exact ⟨(eq_zero_of_clause (List.forall_mem_singleton.mpr rfl) hchild hclause).1, .inl rfl⟩
  · obtain ⟨clause, -, rfl⟩ := h
    rw [← List.append_nil clause.toList] at hchild
    exact ⟨(eq_zero_of_clause (List.forall_mem_nil _) hchild hclause).1, .inr rfl⟩
  · subst h
    cases hchild
  · subst h
    have hend := @eq_zero_of_clause none [keyword "end"]
      (List.forall_mem_singleton.mpr rfl) _ _ hchild hclause
    cases hend.2

/-- A compound statement with its header, its body and what closes it. -/
theorem every_compound
    {role : Role}
    {head elements rest : List Element}
    (hrole : role.isCompound = true)
    (hfilled : head ≠ [])
    (hhead : ∀ child ∈ head, child.IsPart)
    (hbody : ∀ element ∈ elements, element.IsPart)
    (hcloses : Closes role rest)
    (hrest : EveryOfAll Conforms rest) :
    (Element.block role (header head :: statements elements :: rest)).Every Conforms := by
  have hheader : (header head).IsPart := .inline rfl (.inl hfilled) hhead
  have hstatements := IsPart.statements hbody
  refine ⟨?_, hheader.1, hstatements.1, hrest⟩
  exact {
    layout_eq := by cases role <;> first | rfl | cases hrole
    filled := nofun
    block := by rintro rfl; cases hrole
    table := by rintro rfl; cases hrole
    compound := fun _ => ⟨head, _, rest, rfl, hcloses⟩
    clause := fun i child hchild hclause => by
      match i, hchild with
      | 0, hchild =>
          cases hchild
          cases hclause
      | 1, hchild =>
          cases hchild
          cases hclause
      | j + 2, hchild =>
          obtain ⟨rfl, hrole⟩ := hcloses.clause hchild hclause
          exact ⟨rfl, hrole⟩ }

/-- A compound statement that ends with `end`. -/
theorem IsPart.withBody
    {role : Role}
    {head elements : List Element}
    (hrole : role.isCompound = true)
    (hcloses : Closes role [Element.keyword "end"])
    (hclause : role.isClause = false)
    (hfilled : head ≠ [])
    (hhead : ∀ child ∈ head, child.IsPart)
    (hbody : ∀ element ∈ elements, element.IsPart) :
    (withBody role head (Element.statements elements)).IsPart :=
  ⟨every_compound hrole hfilled hhead hbody hcloses ⟨trivial, trivial⟩, hclause⟩

/-- A function; its parameters follow what names it. -/
theorem IsPart.functionUnit
    {role : Role}
    {head parameters elements : List Element}
    (hrole : role.isCompound = true)
    (hcloses : Closes role [Element.keyword "end"])
    (hclause : role.isClause = false)
    (hhead : ∀ child ∈ head, child.IsPart)
    (hparameters : ∀ element ∈ parameters, element.IsPart)
    (hbody : ∀ element ∈ elements, element.IsPart) :
    (functionUnit role head parameters (Element.statements elements)).IsPart := by
  have hlist : (Element.inline .parameters (separate parameters)).IsPart :=
    .inline rfl (.inr rfl) (parts_separate hparameters)
  refine .withBody hrole hcloses hclause (List.append_ne_nil_of_right_ne_nil _ nofun) ?_ hbody
  refine List.forall_mem_append.mpr ⟨hhead, ?_⟩
  simp [hlist]

end Element

open Element (Conforms IsPart)

/-! ## Programs -/

/-- Everything in the statements conforms. -/
def Block.Fits (block : Block) : Prop :=
  ∀ element ∈ Stmt.elements block, element.IsPart

theorem Name.isPart (id : Name) : id.toElement.IsPart :=
  .leaf id .name

theorem Name.areParts (ids : List Name) : ∀ element ∈ ids.map Name.toElement, element.IsPart :=
  List.forall_mem_map.mpr fun id _ => Name.isPart id

/-- The element of every entry of a table is a row. -/
theorem Field.isRow (field : Field) : field.toElement.IsRow := by
  obtain ⟨key, value, bracketed⟩ := field
  cases key with
  | none => exact ⟨none, value.toElement, rfl⟩
  | some key => cases bracketed <;> exact ⟨some _, value.toElement, rfl⟩

theorem Field.isPart_row
    {key : List Element}
    {value : Element}
    (hkey : ∀ cell ∈ key, cell.IsPart)
    (hvalue : value.IsPart) :
    (Field.row key value).IsPart := by
  have hcell : (Element.container .fieldValue .cell [value]).IsPart :=
    .container rfl (by decide) (.inl (List.cons_ne_nil _ _)) (List.forall_mem_singleton.mpr hvalue)
  exact .container rfl (by decide) (.inl (List.append_ne_nil_of_right_ne_nil _ nofun))
    (List.forall_mem_append.mpr ⟨hkey, List.forall_mem_singleton.mpr hcell⟩)

/-- A key is a part, in brackets or without them. -/
theorem Field.isPart_keyElement
    {key : Element}
    (hkey : key.IsPart)
    (bracketed : Bool) :
    (Field.keyElement key bracketed).IsPart := by
  cases bracketed <;>
    exact .container rfl (by decide) (.inl (List.cons_ne_nil _ _)) (by simp [hkey])

/-- A table is a part if its children are rows that are parts. -/
theorem Element.IsPart.table
    {rows : List Element}
    (hrows : ∀ row ∈ rows, row.IsRow)
    (hparts : ∀ row ∈ rows, row.IsPart) :
    (Element.container .table .table rows).IsPart := by
  refine ⟨⟨?_, Element.every_of_parts hparts⟩, rfl⟩
  exact {
    layout_eq := rfl
    filled := fun _ => rfl
    block := nofun
    table := fun _ => hrows
    compound := nofun
    clause := Element.clause_of_parts fun row hrow => (hparts row hrow).2 }

theorem Field.areRows (fields : List Field) : ∀ row ∈ Field.elements fields, row.IsRow := by
  induction fields with
  | nil => exact List.forall_mem_nil _
  | cons field fields ih => exact List.forall_mem_cons.mpr ⟨field.isRow, ih⟩

mutual

/-- An expression conforms if the blocks in it do. -/
theorem Expr.isPart :
    ∀ value : Expr, (∀ block ∈ value.blocks, block.Fits) → value.toElement.IsPart
  | .nil, _ => .leaf _ _
  | .boolean true, _ => .leaf _ _
  | .boolean false, _ => .leaf _ _
  | .varargs, _ => .leaf _ _
  | .number _, _ => .leaf _ _
  | .string _ _, _ => .leaf _ _
  | .name _, _ => .leaf _ _
  | .table fields, h => .table (Field.areRows fields) (Field.areParts fields h)
  | .function parameters body, h => by
      obtain ⟨hparameters, hbody⟩ := List.forall_mem_append.mp h
      exact .functionUnit rfl rfl rfl (List.forall_mem_singleton.mpr (.leaf _ _))
        (Expr.areParts parameters hparameters) (List.forall_mem_singleton.mp hbody)
  | .index value key .dot, h => by
      obtain ⟨hvalue, hkey⟩ := List.forall_mem_append.mp h
      exact .inline rfl (.inl (List.cons_ne_nil _ _))
        (by simp [Expr.isPart value hvalue, Expr.isPart key hkey])
  | .index value key .bracket, h => by
      obtain ⟨hvalue, hkey⟩ := List.forall_mem_append.mp h
      exact .inline rfl (.inl (List.cons_ne_nil _ _))
        (by simp [Expr.isPart value hvalue, Expr.isPart key hkey])
  | .call callee arguments, h => by
      obtain ⟨hcallee, harguments⟩ := List.forall_mem_append.mp h
      exact .inline rfl (.inl (List.cons_ne_nil _ _)) (List.forall_mem_cons.mpr
        ⟨Expr.isPart callee hcallee,
          Element.parts_callArguments (Expr.areParts arguments harguments)⟩)
  | .invoke receiver method arguments, h => by
      obtain ⟨hreceiver, harguments⟩ := List.forall_mem_append.mp h
      exact .inline rfl (.inl (List.cons_ne_nil _ _)) (List.forall_mem_cons.mpr
        ⟨Expr.isPart receiver hreceiver, List.forall_mem_cons.mpr ⟨.text _,
          List.forall_mem_cons.mpr ⟨.leaf _ _,
            Element.parts_callArguments (Expr.areParts arguments harguments)⟩⟩⟩)
  | .binary op left right, h => by
      obtain ⟨hleft, hright⟩ := List.forall_mem_append.mp h
      exact .inline rfl (.inl (List.cons_ne_nil _ _))
        (by simp [Expr.isPart left hleft, Expr.isPart right hright])
  | .unary op operand, h =>
      .inline rfl (.inl (List.cons_ne_nil _ _))
        (by simp [Expr.isPart operand h])

theorem Expr.areParts : ∀ values : List Expr, (∀ block ∈ Expr.blocksOfAll values, block.Fits) →
    ∀ element ∈ Expr.elements values, element.IsPart
  | [], _ => List.forall_mem_nil _
  | value :: values, h => by
      obtain ⟨hvalue, hvalues⟩ := List.forall_mem_append.mp h
      exact List.forall_mem_cons.mpr ⟨Expr.isPart value hvalue, Expr.areParts values hvalues⟩

theorem Field.isPart :
    ∀ field : Field, (∀ block ∈ field.blocks, block.Fits) → field.toElement.IsPart
  | .mk none value _, h => Field.isPart_row (List.forall_mem_nil _) (Expr.isPart value h)
  | .mk (some key) value bracketed, h => by
      obtain ⟨hkey, hvalue⟩ := List.forall_mem_append.mp h
      exact Field.isPart_row
        (List.forall_mem_singleton.mpr (Field.isPart_keyElement (Expr.isPart key hkey) bracketed))
        (Expr.isPart value hvalue)

theorem Field.areParts : ∀ fields : List Field,
    (∀ block ∈ Field.blocksOfAll fields, block.Fits) →
      ∀ element ∈ Field.elements fields, element.IsPart
  | [], _ => List.forall_mem_nil _
  | field :: fields, h => by
      obtain ⟨hfield, hfields⟩ := List.forall_mem_append.mp h
      exact List.forall_mem_cons.mpr ⟨Field.isPart field hfield, Field.areParts fields hfields⟩

end

theorem Expr.elements_ne_nil
    {values : List Expr}
    (h : values ≠ []) :
    Expr.elements values ≠ [] := by
  cases values with
  | nil => exact absurd rfl h
  | cons value values => exact List.cons_ne_nil _ _

/-- The lists of a statement that must not be empty are not. -/
def Stmt.IsFilled : Stmt → Prop
  | .assign targets _ | .localAssign targets _ => targets ≠ []
  | .genericFor ids iterators _ => ids ≠ [] ∧ iterators ≠ []
  | _ => True

/-- An assignment is a part if it has a target and the blocks inside it fit. -/
theorem Element.IsPart.assignment
    {role : Role}
    {words : List Element}
    {targets values : List Expr}
    (hlayout : role.layout = .inline)
    (hwords : ∀ word ∈ words, word.IsPart)
    (hfilled : targets ≠ [])
    (h : ∀ block ∈ Expr.blocksOfAll targets ++ Expr.blocksOfAll values, block.Fits) :
    (Element.assignment role words (Expr.elements targets) (Expr.elements values)).IsPart := by
  obtain ⟨htargets, hvalues⟩ := List.forall_mem_append.mp h
  have hlist := IsPart.exprList (Expr.elements_ne_nil hfilled) (Expr.areParts targets htargets)
  have hafter := Element.parts_exprListAfter (List.forall_mem_singleton.mpr (.text "="))
    (Expr.areParts values hvalues)
  refine .inline hlayout (.inl (by simp)) ?_
  exact List.forall_mem_append.mpr
    ⟨List.forall_mem_append.mpr ⟨hwords, List.forall_mem_singleton.mpr hlist⟩, hafter⟩

/-- An alternative conforms if the blocks in it do. -/
theorem ElseBranch.fits : ∀ orelse : ElseBranch, (∀ block ∈ orelse.blocks, block.Fits) →
    orelse.toElement.Every Conforms ∧ orelse.toElement.isClause = true
  | .elseIf test body none, h => by
      obtain ⟨htest, hbody⟩ := List.forall_mem_append.mp h
      refine ⟨Element.every_compound rfl (List.cons_ne_nil _ _) ?_
        (List.forall_mem_singleton.mp hbody) ⟨none, nofun, rfl⟩ trivial, rfl⟩
      simp [Expr.isPart test htest]
  | .elseIf test body (some orelse), h => by
      obtain ⟨htest, hrest⟩ := List.forall_mem_append.mp h
      obtain ⟨hbody, horelse⟩ := List.forall_mem_cons.mp hrest
      obtain ⟨hevery, hclause⟩ := ElseBranch.fits orelse horelse
      refine ⟨Element.every_compound rfl (List.cons_ne_nil _ _) ?_ hbody
        ⟨some _, fun _ h => by cases h; exact hclause, rfl⟩ ⟨hevery, trivial⟩, rfl⟩
      simp [Expr.isPart test htest]
  | .final body, h =>
      ⟨Element.every_compound rfl (List.cons_ne_nil _ _) (List.forall_mem_singleton.mpr (.leaf _ _))
        (List.forall_mem_singleton.mp h) rfl trivial, rfl⟩

/-- A statement conforms if its lists are filled and the blocks in it conform. -/
theorem Stmt.isPart
    {stmt : Stmt}
    (hfilled : stmt.IsFilled)
    (h : ∀ block ∈ stmt.blocks, block.Fits) :
    stmt.toElement.IsPart := by
  cases stmt with
  | assign targets values => exact .assignment rfl (List.forall_mem_nil _) hfilled h
  | localAssign targets values =>
      exact .assignment rfl (List.forall_mem_singleton.mpr (.leaf _ _)) hfilled h
  | whileLoop test body =>
      obtain ⟨htest, hbody⟩ := List.forall_mem_append.mp h
      exact .withBody rfl rfl rfl (List.cons_ne_nil _ _)
        (by simp [Expr.isPart test htest])
        (List.forall_mem_singleton.mp hbody)
  | doBlock body =>
      exact .withBody rfl rfl rfl (List.cons_ne_nil _ _)
        (List.forall_mem_singleton.mpr (.leaf _ _)) (List.forall_mem_singleton.mp h)
  | repeatLoop body test =>
      obtain ⟨hbody, htest⟩ := List.forall_mem_cons.mp h
      have hfooter : (Element.inline .footer [keyword "until", test.toElement]).IsPart :=
        .inline rfl (.inl (List.cons_ne_nil _ _))
          (by simp [Expr.isPart test htest])
      exact ⟨Element.every_compound rfl (List.cons_ne_nil _ _)
        (List.forall_mem_singleton.mpr (.leaf _ _)) hbody ⟨_, rfl⟩ ⟨hfooter.1, trivial⟩, rfl⟩
  | ifThen test body orelse =>
      obtain ⟨htest, hrest⟩ := List.forall_mem_append.mp h
      obtain ⟨hbody, horelse⟩ := List.forall_mem_cons.mp hrest
      have hhead : ∀ child ∈ [keyword "if", test.toElement, keyword "then"], child.IsPart := by
        simp [Expr.isPart test htest]
      cases orelse with
      | none =>
          exact ⟨Element.every_compound rfl (List.cons_ne_nil _ _) hhead hbody
            ⟨none, nofun, rfl⟩ ⟨trivial, trivial⟩, rfl⟩
      | some orelse =>
          obtain ⟨hevery, hclause⟩ := orelse.fits horelse
          exact ⟨Element.every_compound rfl (List.cons_ne_nil _ _) hhead hbody
            ⟨some _, fun _ h => by cases h; exact hclause, rfl⟩ ⟨hevery, trivial, trivial⟩, rfl⟩
  | label id =>
      exact .inline rfl (.inl (List.cons_ne_nil _ _)) (by simp)
  | goto id =>
      exact .inline rfl (.inl (List.cons_ne_nil _ _)) (by simp)
  | breakLoop => exact .leaf _ _
  | returnValues values =>
      exact .inline rfl (.inl (List.cons_ne_nil _ _)) (List.forall_mem_cons.mpr
        ⟨.leaf _ _, Element.parts_exprListAfter (List.forall_mem_nil _) (Expr.areParts values h)⟩)
  | numericFor counter start stop step body =>
      obtain ⟨hstart, hrest⟩ := List.forall_mem_append.mp h
      obtain ⟨hstop, hrest⟩ := List.forall_mem_append.mp hrest
      obtain ⟨hstep, hbody⟩ := List.forall_mem_append.mp hrest
      have hstepParts : ∀ child ∈ if step.isDefaultStep then [] else [.text ",", step.toElement],
          child.IsPart := by
        split
        · exact List.forall_mem_nil _
        · simp [Expr.isPart step hstep]
      refine .withBody rfl rfl rfl (by simp) ?_ (List.forall_mem_singleton.mp hbody)
      simp only [List.forall_mem_append]
      refine ⟨⟨?_, hstepParts⟩, List.forall_mem_singleton.mpr (.leaf _ _)⟩
      simp [Expr.isPart start hstart, Expr.isPart stop hstop, Name.isPart]
  | genericFor ids iterators body =>
      obtain ⟨hiterators, hbody⟩ := List.forall_mem_append.mp h
      have hids := IsPart.exprList (fun hnil => hfilled.1 (List.map_eq_nil_iff.mp hnil))
        (Name.areParts ids)
      have hlist := IsPart.exprList (Expr.elements_ne_nil hfilled.2)
        (Expr.areParts iterators hiterators)
      exact .withBody rfl rfl rfl (List.cons_ne_nil _ _)
        (by simp [hids, hlist]) (List.forall_mem_singleton.mp hbody)
  | function name parameters body =>
      obtain ⟨hname, hrest⟩ := List.forall_mem_append.mp h
      obtain ⟨hparameters, hbody⟩ := List.forall_mem_append.mp hrest
      exact .functionUnit rfl rfl rfl (by simp [Expr.isPart name hname])
        (Expr.areParts parameters hparameters) (List.forall_mem_singleton.mp hbody)
  | localFunction name parameters body =>
      obtain ⟨hparameters, hbody⟩ := List.forall_mem_append.mp h
      exact .functionUnit rfl rfl rfl (by simp [Name.isPart])
        (Expr.areParts parameters hparameters) (List.forall_mem_singleton.mp hbody)
  | method receiver name parameters body =>
      obtain ⟨hreceiver, hrest⟩ := List.forall_mem_append.mp h
      obtain ⟨hparameters, hbody⟩ := List.forall_mem_append.mp hrest
      have hname : (Element.inline .methodName
          [receiver.toElement, .text ":", Name.toElement name]).IsPart :=
        .inline rfl (.inl (List.cons_ne_nil _ _))
          (by simp [Expr.isPart receiver hreceiver, Name.isPart])
      exact .functionUnit rfl rfl rfl (by simp [hname])
        (Expr.areParts parameters hparameters) (List.forall_mem_singleton.mp hbody)
  | expr value => exact Expr.isPart value h
  | semicolon => exact .text _

/-! ## Parsed programs -/

open Grammar

/-- What derives a list of names has at least one. -/
theorem ne_nil_of_names
    {ids : List Name}
    {tokens : List Token}
    (h : Derives anyStep (.names ids) tokens) :
    ids ≠ [] := by
  cases h with
  | firstName _ => exact List.cons_ne_nil _ _
  | nextName _ _ _ => exact List.concat_ne_nil _ _

/-- What derives a list of targets has at least one. -/
theorem ne_nil_of_targets
    {targets : List Expr}
    {tokens : List Token}
    (h : Derives anyStep (.targets targets) tokens) :
    targets ≠ [] := by
  cases h with
  | firstTarget _ _ => exact List.cons_ne_nil _ _
  | nextTarget _ _ _ _ => exact List.concat_ne_nil _ _

/-- What derives a list of expressions has at least one. -/
theorem ne_nil_of_expressions
    {values : List Expr}
    {tokens : List Token}
    (h : Derives anyStep (.expressions values) tokens) :
    values ≠ [] := by
  cases h with
  | firstExpression _ => exact List.cons_ne_nil _ _
  | nextExpression _ _ _ => exact List.concat_ne_nil _ _

/-- The grammar fills the lists of a statement. -/
theorem Stmt.isFilled_of_derives
    (stmt : Stmt)
    (tokens : List Token)
    (h : Derives anyStep (.block [stmt]) tokens) :
    stmt.IsFilled := by
  rcases derives_of_single h with hstmt | ⟨values, rfl⟩
  · cases hstmt with
    | assign htargets _ _ => exact ne_nil_of_targets htargets
    | localAssign _ hids _ => exact fun hnil => ne_nil_of_names hids (List.map_eq_nil_iff.mp hnil)
    | genericFor _ hids _ hiterators _ =>
        exact ⟨ne_nil_of_names hids, ne_nil_of_expressions hiterators⟩
    | _ => trivial
  · trivial

mutual

/-- A block whose statements are all filled fits. -/
theorem Block.fits_of_runs
    {stmts : Block}
    {tokens : List Token} :
    StmtRuns (fun stmt _ => stmt.IsFilled) stmts tokens → stmts.Fits
  | .nil => nofun
  | .cons hfilled hinside hstmts =>
      List.forall_mem_cons.mpr
        ⟨Stmt.isPart hfilled (Block.allFit_of_runs hinside), Block.fits_of_runs hstmts⟩

theorem Block.allFit_of_runs
    {blocks : List Block}
    {tokens : List Token} :
    BlockRuns (fun stmt _ => stmt.IsFilled) blocks tokens → ∀ block ∈ blocks, block.Fits
  | .nil => nofun
  | .cons hblock hblocks =>
      List.forall_mem_cons.mpr ⟨Block.fits_of_runs hblock, Block.allFit_of_runs hblocks⟩

end

/-- The visual tree of a parsed program conforms to the schema in all its containers, and it is no
alternative itself. -/
theorem conforms_of_parse
    {session : Session}
    {program : Chunk}
    (h : session.parse.1 = .ok program) :
    program.toElement.Every Conforms ∧ program.toElement.isClause = false := by
  have hruns := runs_of_derives Stmt.isFilled_of_derives (Session.derives_untilEnd h)
  have hbody := IsPart.statements (Block.fits_of_runs hruns)
  exact IsPart.container rfl (by decide) (.inl (List.cons_ne_nil _ _))
    (List.forall_mem_singleton.mpr hbody)

/-- Functions and entries of each kind in a table, which is in a condition with alternatives, and a
loop with a footer. -/
def nestedUnits : String :=
  "if a then t = \x7bk = function() end, [1] = -2, f()\x7d elseif b then repeat until c " ++
    "else for i in x do end end"

/-- A program with tables, conditions and functions in each other. -/
theorem conforms_of_parse_nestedUnits :
    ∃ tokens, tokenize nestedUnits = .ok tokens ∧
      ∃ program, (Session.ofTokens tokens 9).parse.1 = .ok program ∧
        program.toElement.Every Conforms ∧ program.toElement.isClause = false := by
  have hok : (parse nestedUnits 9).isOk = true := by
    decide +kernel
  rw [parse] at hok
  cases htokens : tokenize nestedUnits with
  | error error =>
      rw [htokens] at hok
      cases hok
  | ok tokens =>
      rw [htokens] at hok
      obtain ⟨program, hparse⟩ := Except.exists_of_isOk hok
      exact ⟨tokens, rfl, program, hparse, conforms_of_parse hparse⟩

end LuaView
