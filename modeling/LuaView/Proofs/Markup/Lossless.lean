import LuaView.Proofs.Markup.Legible

/-!
# The markup of a program shows its whole visual tree

The visual tree of every program is legible.  Its texts are punctuation, and only the bracket behind
a key and the equals sign stand side by side, with a space between them.  So two programs have the
same markup if and only if they have the same visual tree, whatever the indentation is and whether
or not the markup is a whole document.  Names and strings may hold any characters.
-/

namespace LuaView

namespace Element

/-! ## Legible lists of elements -/

@[simp] theorem isText_leaf (word : String) (emphasis : Emphasis) :
    (Element.leaf word emphasis).isText = false := rfl

@[simp] theorem isText_keyword (word : String) : (keyword word).isText = false := rfl

@[simp] theorem isText_inline (role : Role) (children : List Element) :
    (inline role children).isText = false := rfl

@[simp] theorem isText_block (role : Role) (children : List Element) :
    (Element.block role children).isText = false := rfl

/-- The runs that trees are written with are legible. -/
theorem legible_text
    {run : String}
    (h : run ∈ [",", "=", "(", ")", "[", "]", ".", ":", "::", ";"]) :
    (Element.text run).Legible := by
  have hall : [",", "=", "(", ")", "[", "]", ".", ":", "::", ";"].all (fun run =>
      !run.toList.isEmpty && !run.toList.any isBlank) = true := by decide
  have hrun := List.all_eq_true.mp hall run h
  simpa [Element.Legible] using hrun

/-- A child that is no run does not matter for whether runs are apart. -/
theorem textsApart_cons
    {compact : Bool}
    {child : Element}
    (h : child.isText = false)
    (children : List Element) :
    textsApart compact (child :: children) = textsApart compact children := by
  cases children with
  | nil => rfl
  | cons next children => simp [textsApart, h]

/-- Where no child is a run, runs are apart. -/
theorem textsApart_of_not_text
    {compact : Bool}
    {children : List Element}
    (h : ∀ child ∈ children, child.isText = false) :
    textsApart compact children = true := by
  induction children with
  | nil => rfl
  | cons child children ih =>
      obtain ⟨hchild, hchildren⟩ := List.forall_mem_cons.mp h
      rw [textsApart_cons hchild, ih hchildren]

/-- Texts are apart if they are apart behind a front without any. -/
theorem textsApart_append
    {compact : Bool}
    {front children : List Element}
    (hfront : ∀ element ∈ front, element.isText = false)
    (h : textsApart compact children = true) :
    textsApart compact (front ++ children) = true := by
  induction front with
  | nil => exact h
  | cons element front ih =>
      obtain ⟨helement, hrest⟩ := List.forall_mem_cons.mp hfront
      rw [List.cons_append, textsApart_cons helement]
      exact ih hrest

/-- Without spaces, texts must not stand side by side at all. -/
theorem textsApart_of_compact
    {compact : Bool}
    {children : List Element}
    (h : textsApart true children = true) :
    textsApart compact children = true := by
  induction children with
  | nil => rfl
  | cons child children ih =>
      cases children with
      | nil => rfl
      | cons next children =>
          simp only [textsApart, Bool.not_true, Bool.false_and, Bool.or_false,
            Bool.and_eq_true] at h ⊢
          exact ⟨by rw [h.1, Bool.true_or], ih h.2⟩

/-- A container is legible if its children are and runs are apart among them. -/
theorem legible_container
    {role : Role}
    {layout : Layout}
    {children : List Element}
    (hrole : role ≠ .label)
    (hapart : textsApart true children = true)
    (hchildren : AllLegible children) :
    (Element.container role layout children).Legible :=
  ⟨textsApart_of_compact hapart, fun h => absurd h hrole, hchildren⟩

/-- Two lists of legible elements are one list of them. -/
theorem AllLegible.append
    {children children' : List Element}
    (h : AllLegible children)
    (h' : AllLegible children') :
    AllLegible (children ++ children') := by
  induction children with
  | nil => exact h'
  | cons child children ih => exact ⟨h.1, ih h.2⟩

/-- Commas between legible elements are legible. -/
theorem AllLegible.separate
    {elements : List Element}
    (h : AllLegible elements) :
    AllLegible (separate elements) := by
  induction elements with
  | nil => trivial
  | cons element elements ih =>
      cases elements with
      | nil => exact h
      | cons next elements => exact ⟨h.1, legible_text (by decide), ih h.2⟩

/-- Commas are apart if none of the elements between them is a run. -/
theorem textsApart_separate
    {elements : List Element}
    (h : ∀ element ∈ elements, element.isText = false) :
    textsApart true (separate elements) = true := by
  induction elements with
  | nil => rfl
  | cons element elements ih =>
      obtain ⟨helement, hrest⟩ := List.forall_mem_cons.mp h
      cases elements with
      | nil => rfl
      | cons next elements =>
          have hnext := (List.forall_mem_cons.mp hrest).1
          have hseparate : separate (element :: next :: elements) =
              element :: .text "," :: separate (next :: elements) := rfl
          obtain ⟨more, hmore⟩ : ∃ more, separate (next :: elements) = next :: more := by
            cases elements with
            | nil => exact ⟨[], rfl⟩
            | cons third elements => exact ⟨_, rfl⟩
          have happart := ih hrest
          rw [hseparate, textsApart_cons helement]
          rw [hmore] at happart ⊢
          rw [textsApart, hnext, Bool.and_false, Bool.not_false, Bool.true_or, Bool.true_and]
          exact happart

/-- A list of expressions that are no texts. -/
theorem legible_exprList
    {elements : List Element}
    (htexts : ∀ element ∈ elements, element.isText = false)
    (h : AllLegible elements) :
    (exprList elements).Legible :=
  legible_container nofun (textsApart_separate htexts) h.separate

/-- A list of legible statements is legible. -/
theorem legible_statements
    {elements : List Element}
    (h : AllLegible elements) :
    (statements elements).Legible := by
  refine legible_container nofun (textsApart_of_not_text fun child hchild => ?_) ?_
  · obtain ⟨element, -, rfl⟩ := List.mem_map.mp hchild
    rfl
  · induction elements with
    | nil => trivial
    | cons element elements ih =>
        exact ⟨legible_container nofun rfl ⟨h.1, trivial⟩, ih h.2⟩

/-- A compound statement is legible if its head and its body are. -/
theorem legible_withBody
    {role : Role}
    (hrole : role ≠ .label)
    {head elements : List Element}
    (hapart : textsApart true head = true)
    (hhead : AllLegible head)
    (hbody : AllLegible elements) :
    (withBody role head (statements elements)).Legible :=
  legible_container hrole rfl
    ⟨legible_container nofun hapart hhead, legible_statements hbody, trivial, trivial⟩

/-- A function is legible if its head, its parameters and its body are. -/
theorem legible_functionUnit
    {role : Role}
    (hrole : role ≠ .label)
    {head parameters elements : List Element}
    (hhead : ∀ element ∈ head, element.isText = false)
    (hlegible : AllLegible head)
    (htexts : ∀ element ∈ parameters, element.isText = false)
    (hparameters : AllLegible parameters)
    (hbody : AllLegible elements) :
    (functionUnit role head parameters (statements elements)).Legible := by
  have hinner : (inline .parameters (separate parameters)).Legible :=
    legible_container nofun (textsApart_separate htexts) hparameters.separate
  exact legible_withBody hrole (textsApart_append hhead rfl)
    (hlegible.append ⟨legible_text (by decide), hinner, legible_text (by decide), trivial⟩) hbody

theorem legible_callArguments
    {arguments : List Element}
    (htexts : ∀ element ∈ arguments, element.isText = false)
    (harguments : AllLegible arguments) :
    AllLegible (callArguments arguments) :=
  ⟨legible_text (by decide),
    legible_container nofun (textsApart_separate htexts) harguments.separate,
    legible_text (by decide), trivial⟩

end Element

open Element (Legible AllLegible textsApart legible_text legible_container legible_exprList
  legible_statements legible_withBody legible_functionUnit legible_callArguments)

/-! ## Visual trees of programs -/

@[simp] theorem Expr.isText_toElement (value : Expr) : value.toElement.isText = false := by
  cases value with
  | boolean value => cases value <;> rfl
  | index value key style => cases style <;> rfl
  | _ => rfl

/-- Expressions are never shown as a run. -/
theorem Expr.isText_elements (values : List Expr) :
    ∀ element ∈ Expr.elements values, element.isText = false := by
  induction values with
  | nil => nofun
  | cons value values ih => exact List.forall_mem_cons.mpr ⟨value.isText_toElement, ih⟩

theorem Field.isText_elements (fields : List Field) :
    ∀ element ∈ Field.elements fields, element.isText = false := by
  induction fields with
  | nil => nofun
  | cons field fields ih =>
      refine List.forall_mem_cons.mpr ⟨?_, ih⟩
      obtain ⟨key, value, bracketed⟩ := field
      cases key <;> rfl

theorem Name.isText_elements (ids : List Name) :
    ∀ element ∈ ids.map Name.toElement, element.isText = false := by
  intro element helement
  obtain ⟨id, -, rfl⟩ := List.mem_map.mp helement
  rfl

theorem Name.legible_elements (ids : List Name) : AllLegible (ids.map Name.toElement) := by
  induction ids with
  | nil => trivial
  | cons id ids ih => exact ⟨trivial, ih⟩

theorem Field.legible_row
    {key : List Element}
    {value : Element}
    (htexts : ∀ element ∈ key, element.isText = false)
    (hkey : AllLegible key)
    (hvalue : value.Legible) :
    (Field.row key value).Legible := by
  have hcell : (Element.container .fieldValue .cell [value]).Legible :=
    legible_container nofun rfl ⟨hvalue, trivial⟩
  refine legible_container nofun (Element.textsApart_of_not_text ?_) (hkey.append ⟨hcell, trivial⟩)
  exact List.forall_mem_append.mpr ⟨htexts, List.forall_mem_singleton.mpr rfl⟩

/-- The bracket behind a key and the equals sign stand side by side, with a space between them. -/
theorem Field.legible_keyElement
    {key : Element}
    (htext : key.isText = false)
    (h : key.Legible)
    (bracketed : Bool) :
    (Field.keyElement key bracketed).Legible := by
  cases bracketed with
  | false =>
      refine legible_container nofun ?_ ⟨h, legible_text (by decide), trivial⟩
      exact Element.textsApart_cons htext _
  | true =>
      refine ⟨?_, nofun, legible_text (by decide), h, legible_text (by decide),
        legible_text (by decide), trivial⟩
      have hspace : Element.spaceBetween (.text "]") (.text "=") = true := by decide
      simp [textsApart, Element.isCompact, htext, hspace]

/-- An assignment is legible if its targets and its values are. -/
theorem Element.legible_assignment
    {role : Role}
    (hrole : role ≠ .label)
    {words targets values : List Element}
    (hwords : ∀ element ∈ words, element.isText = false)
    (hlegible : AllLegible words)
    (htargets : (exprList targets).Legible)
    (hvalues : (exprList values).Legible) :
    (assignment role words targets values).Legible := by
  have hafter : AllLegible (exprListAfter [.text "="] values) ∧
      textsApart true (exprListAfter [.text "="] values) = true := by
    unfold exprListAfter
    split
    · exact ⟨trivial, rfl⟩
    · exact ⟨⟨legible_text (by decide), hvalues, trivial⟩, rfl⟩
  have hfront : ∀ element ∈ words ++ [exprList targets], element.isText = false :=
    List.forall_mem_append.mpr ⟨hwords, List.forall_mem_singleton.mpr rfl⟩
  have htargets' : AllLegible [exprList targets] := ⟨htargets, trivial⟩
  exact legible_container hrole (textsApart_append hfront hafter.2)
    ((hlegible.append htargets').append hafter.1)

open Element (legible_assignment)

mutual

/-- The element of every expression is legible. -/
theorem Expr.legible : ∀ value : Expr, value.toElement.Legible
  | .nil => trivial
  | .boolean true => trivial
  | .boolean false => trivial
  | .varargs => trivial
  | .number _ => trivial
  | .string _ _ => trivial
  | .name _ => trivial
  | .table fields =>
      legible_container nofun (Element.textsApart_of_not_text (Field.isText_elements fields))
        (Field.legible_elements fields)
  | .function parameters body => by
      rw [Expr.toElement]
      refine legible_functionUnit (by decide) (by simp) ?_ (Expr.isText_elements parameters)
        (Expr.legible_elements parameters) (Stmt.legible_elements body)
      exact ⟨trivial, trivial⟩
  | .index value key .dot => by
      refine legible_container nofun ?_
        ⟨value.legible, legible_text (by decide), key.legible, trivial⟩
      simp [textsApart]
  | .index value key .bracket => by
      refine legible_container nofun ?_ ⟨value.legible, legible_text (by decide), key.legible,
        legible_text (by decide), trivial⟩
      simp [textsApart]
  | .call callee arguments => by
      refine legible_container nofun ?_ ⟨callee.legible,
        legible_callArguments (Expr.isText_elements arguments) (Expr.legible_elements arguments)⟩
      rw [Element.textsApart_cons callee.isText_toElement]
      rfl
  | .invoke receiver method arguments => by
      refine legible_container nofun ?_ ⟨receiver.legible, legible_text (by decide), trivial,
        legible_callArguments (Expr.isText_elements arguments) (Expr.legible_elements arguments)⟩
      rw [Element.textsApart_cons receiver.isText_toElement]
      rfl
  | .binary op left right => by
      refine legible_container nofun ?_ ⟨left.legible, trivial, right.legible, trivial⟩
      simp [textsApart]
  | .unary op operand => by
      refine legible_container nofun ?_ ⟨trivial, operand.legible, trivial⟩
      simp [textsApart]

theorem Expr.legible_elements : ∀ values : List Expr, AllLegible (Expr.elements values)
  | [] => trivial
  | value :: values => ⟨value.legible, Expr.legible_elements values⟩

/-- The element of every entry is legible. -/
theorem Field.legible : ∀ field : Field, field.toElement.Legible
  | .mk none value _ => Field.legible_row nofun trivial value.legible
  | .mk (some key) value bracketed =>
      Field.legible_row (List.forall_mem_singleton.mpr rfl)
        ⟨Field.legible_keyElement key.isText_toElement key.legible bracketed, trivial⟩
        value.legible

theorem Field.legible_elements : ∀ fields : List Field, AllLegible (Field.elements fields)
  | [] => trivial
  | field :: fields => ⟨field.legible, Field.legible_elements fields⟩

/-- The element of every statement is legible. -/
theorem Stmt.legible : ∀ stmt : Stmt, stmt.toElement.Legible
  | .assign targets values => by
      rw [Stmt.toElement]
      exact legible_assignment (by decide) (by simp) trivial
        (legible_exprList (Expr.isText_elements targets) (Expr.legible_elements targets))
        (legible_exprList (Expr.isText_elements values) (Expr.legible_elements values))
  | .localAssign targets values => by
      rw [Stmt.toElement]
      refine legible_assignment (by decide) (by simp) ?_
        (legible_exprList (Expr.isText_elements targets) (Expr.legible_elements targets))
        (legible_exprList (Expr.isText_elements values) (Expr.legible_elements values))
      exact ⟨trivial, trivial⟩
  | .whileLoop test body => by
      rw [Stmt.toElement]
      refine legible_withBody (by decide) ?_ ?_ (Stmt.legible_elements body)
      · simp [textsApart]
      · exact ⟨trivial, test.legible, trivial, trivial⟩
  | .doBlock body => by
      rw [Stmt.toElement]
      refine legible_withBody (by decide) rfl ?_ (Stmt.legible_elements body)
      exact ⟨trivial, trivial⟩
  | .repeatLoop body test => by
      refine legible_container nofun rfl ⟨legible_container nofun rfl ⟨trivial, trivial⟩,
        legible_statements (Stmt.legible_elements body), ?_, trivial⟩
      refine legible_container nofun ?_ ⟨trivial, test.legible, trivial⟩
      simp [textsApart]
  | .ifThen test body none => by
      refine legible_container nofun rfl
        ⟨?_, legible_statements (Stmt.legible_elements body), trivial, trivial⟩
      refine legible_container nofun ?_ ⟨trivial, test.legible, trivial, trivial⟩
      simp [textsApart]
  | .ifThen test body (some orelse) => by
      refine legible_container nofun ?_ ⟨?_, legible_statements (Stmt.legible_elements body),
        orelse.legible, trivial, trivial⟩
      · simp [textsApart, Element.header, Element.statements]
      · refine legible_container nofun ?_ ⟨trivial, test.legible, trivial, trivial⟩
        simp [textsApart]
  | .label id =>
      ⟨rfl, fun _ => ⟨.leaf id .label, by simp, rfl⟩, legible_text (by decide), trivial,
        legible_text (by decide), trivial⟩
  | .goto id => legible_container nofun rfl ⟨trivial, trivial, trivial⟩
  | .breakLoop => trivial
  | .returnValues values => by
      have hlist := legible_exprList (Expr.isText_elements values) (Expr.legible_elements values)
      cases values with
      | nil => exact legible_container nofun rfl ⟨trivial, trivial⟩
      | cons value values => exact legible_container nofun rfl ⟨trivial, hlist, trivial⟩
  | .numericFor counter start stop step body => by
      rw [Stmt.toElement]
      refine legible_withBody (by decide) ?_ ?_ (Stmt.legible_elements body)
      · cases step.isDefaultStep <;> simp [textsApart, Name.toElement]
      · cases step.isDefaultStep with
        | true =>
            exact ⟨trivial, trivial, legible_text (by decide), start.legible,
              legible_text (by decide), stop.legible, trivial, trivial⟩
        | false =>
            exact ⟨trivial, trivial, legible_text (by decide), start.legible,
              legible_text (by decide), stop.legible, legible_text (by decide), step.legible,
              trivial, trivial⟩
  | .genericFor names iterators body => by
      have hnames := legible_exprList (Name.isText_elements names) (Name.legible_elements names)
      have hiterators :=
        legible_exprList (Expr.isText_elements iterators) (Expr.legible_elements iterators)
      rw [Stmt.toElement]
      refine legible_withBody (by decide) rfl ?_ (Stmt.legible_elements body)
      exact ⟨trivial, hnames, trivial, hiterators, trivial, trivial⟩
  | .function name parameters body => by
      rw [Stmt.toElement]
      refine legible_functionUnit (by decide) (by simp) ?_ (Expr.isText_elements parameters)
        (Expr.legible_elements parameters) (Stmt.legible_elements body)
      exact ⟨trivial, name.legible, trivial⟩
  | .localFunction name parameters body => by
      rw [Stmt.toElement]
      refine legible_functionUnit (by decide) (by simp [Name.toElement]) ?_
        (Expr.isText_elements parameters) (Expr.legible_elements parameters)
        (Stmt.legible_elements body)
      exact ⟨trivial, trivial, trivial, trivial⟩
  | .method receiver name parameters body => by
      rw [Stmt.toElement]
      refine legible_functionUnit (by decide) (by simp) ?_ (Expr.isText_elements parameters)
        (Expr.legible_elements parameters) (Stmt.legible_elements body)
      refine ⟨trivial, legible_container nofun ?_ ⟨receiver.legible, legible_text (by decide),
        trivial, trivial⟩, trivial⟩
      rw [Element.textsApart_cons receiver.isText_toElement]
      rfl
  | .expr value => value.legible
  | .semicolon => legible_text (by decide)

theorem Stmt.legible_elements : ∀ stmts : List Stmt, AllLegible (Stmt.elements stmts)
  | [] => trivial
  | stmt :: stmts => ⟨stmt.legible, Stmt.legible_elements stmts⟩

/-- The element of every alternative is legible. -/
theorem ElseBranch.legible : ∀ orelse : ElseBranch, orelse.toElement.Legible
  | .elseIf test body none => by
      refine legible_container nofun rfl
        ⟨?_, legible_statements (Stmt.legible_elements body), trivial⟩
      refine legible_container nofun ?_ ⟨trivial, test.legible, trivial, trivial⟩
      simp [textsApart]
  | .elseIf test body (some orelse) => by
      refine legible_container nofun ?_
        ⟨?_, legible_statements (Stmt.legible_elements body), orelse.legible, trivial⟩
      · simp [textsApart, Element.header, Element.statements]
      · refine legible_container nofun ?_ ⟨trivial, test.legible, trivial, trivial⟩
        simp [textsApart]
  | .final body =>
      legible_container nofun rfl ⟨legible_container nofun rfl ⟨trivial, trivial⟩,
        legible_statements (Stmt.legible_elements body), trivial⟩

end

/-- The visual tree of a program can be read back from its markup. -/
theorem Chunk.legible (chunk : Chunk) : chunk.toElement.Legible :=
  legible_container nofun rfl ⟨legible_statements (Stmt.legible_elements chunk.body), trivial⟩

/-! ## Whole outputs -/

namespace Html

/-- The markup of a block ends with a tag and a single line break, which is not part of the
fragment. -/
theorem write_block_eq_fragment
    (width : Nat)
    (role : Role)
    (children : List Element) :
    write (block width 0 (.container role .block children)) =
      fragment width (.container role .block children) ++ ['\n'] := by
  obtain ⟨front, hfront⟩ : ∃ front,
      write (block width 0 (.container role .block children)) = front ++ ['>'] ++ ['\n'] := by
    rw [block_box rfl]
    refine ⟨write (indentation width 0 :: .opening .div role.className ::
      between width 0 children) ++ '<' :: '/' :: Tag.div.name.toList, ?_⟩
    simp [Piece.write, Tag.ofLayout, lineBreak, escape, escapeChar]
  rw [fragment, hfront]
  simp [trimBreaks]

/-- A legible block is determined by its fragment. -/
theorem eq_of_fragment
    {width : Nat}
    {role role' : Role}
    {children children' : List Element}
    (h : (Element.container role .block children).Legible)
    (h' : (Element.container role' .block children').Legible)
    (hfragment : fragment width (.container role .block children) =
      fragment width (.container role' .block children')) :
    Element.container role .block children = .container role' .block children' := by
  have hwrite : write (block width 0 (.container role .block children)) =
      write (block width 0 (.container role' .block children')) := by
    rw [write_block_eq_fragment, hfragment, write_block_eq_fragment]
  have hsigns := signs_eq_of_write hwrite
  exact (block_unique width _ _ 0 [] [] h h' (congrArg (· ++ []) hsigns)).1

end Html

/-- Two programs have the same markup if and only if they have the same visual tree. -/
theorem render_html_eq_iff
    (program program' : Chunk)
    (settings : Settings) :
    program.render .html settings = program'.render .html settings ↔
      program.toElement = program'.toElement := by
  refine ⟨fun h => ?_, fun h => by rw [Chunk.render, h, Chunk.render]⟩
  have hfragment : Html.fragment settings.indent program.toElement =
      Html.fragment settings.indent program'.toElement := by
    change Element.toHtml settings.indent settings.standalone program.toElement =
      Element.toHtml settings.indent settings.standalone program'.toElement at h
    unfold Element.toHtml at h
    split at h
    · have hchars := congrArg String.toList h
      simp only [String.toList_append, String.toList_ofList] at hchars
      exact List.append_cancel_left (List.append_cancel_right hchars)
    · exact String.ofList_injective h
  exact Html.eq_of_fragment program.legible program'.legible hfragment

end LuaView
