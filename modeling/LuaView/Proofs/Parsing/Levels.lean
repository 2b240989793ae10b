import LuaView.Proofs.Parsing.Budget

/-!
# How many levels a program needs

The load of a tree is what its parser carries, if the load of a deeper phrase is carried one level
below.  By induction on the budget, every program that is parsed under a limit has no more levels
than the limit, and its tokens are parsed under any limit with room for its load.
-/

namespace LuaView

open LuaView.Parser (anyKind)

/-- The parsers of deeper phrases carry the loads of their trees one level below. -/
structure Descent.Carries (budget budget' : Nat) (deeper other : Descent) : Prop where
  block : Parser.Carries budget budget' anyKind deeper.block other.block fun load body =>
    load = (Stmt.loads body).below
  operation : ∀ least, Parser.Carries budget budget' anyKind (deeper.operation least)
    (other.operation least) fun load value => load = value.load.below

namespace Grammar

open LuaView.Parser

variable {budget budget' : Nat}
variable {front : Kind → Prop}
variable {deeper other : Descent}

theorem carries_expression
    (hdeeper : deeper.Carries budget budget' other) :
    Carries budget budget' front deeper.expression other.expression fun load value =>
      load = value.load.below :=
  (hdeeper.operation _).weaken

/-- Expressions of a list are carried one level below, each of them. -/
theorem carries_expressionList
    (hdeeper : deeper.Carries budget budget' other) :
    Carries budget budget' front deeper.expressionList other.expressionList fun load values =>
      load = Expr.deeperLoads values := by
  simp only [Expr.deeperLoads_eq_sum]
  exact carries_commaSeparated (carries_expression hdeeper)

/-! ## Functions and tables -/

/-- Parameters carry their own loads. -/
theorem carries_parameters :
    Carries budget budget' front (loop parameterStep []) (loop parameterStep [])
      fun load parameters => load = Expr.loads parameters := by
  refine carries_loop_start (fun load parameters => load = Expr.loads parameters) ?_ rfl
  rintro load parameters rfl
  have hmore : ∀ last : Expr, last.load = 0 →
      Expr.loads parameters + 0 = Expr.loads (parameters ++ [last]) := by
    intro last hlast
    simp only [Expr.loads_append, Expr.loads, hlast, add_zero]
  refine carries_peekKind_bind fun kind _ => ?_
  split
  · exact carries_advance_bind fun _ => .pure (hmore .varargs rfl)
  · refine carries_name_bind fun id => ?_
    exact carries_accept_ite (by decide) (.pure (hmore (.name id) rfl))
      (.pure (hmore (.name id) rfl))
  · exact carries_unexpected

/-- A function carries its parenthesis and its parameters, and the body one level below. -/
theorem carries_functionBody
    (hdeeper : deeper.Carries budget budget' other) :
    Carries budget budget' front (functionBody deeper) (functionBody other) fun load function =>
      load = .paren + Expr.loads function.1 + (Stmt.loads function.2).below := by
  have hrest : ∀ {front : Kind → Prop} (parameters : List Expr), Carries budget budget' front
      (do
        expectSymbol .rparen
        let body ← deeper.block
        expectWord .end_
        return (parameters, body))
      (do
        expectSymbol .rparen
        let body ← other.block
        expectWord .end_
        return (parameters, body))
      fun more function => Load.paren + (Expr.loads parameters + more) =
        .paren + Expr.loads function.1 + (Stmt.loads function.2).below := by
    intro front parameters
    refine carries_expect_bind (by decide) ?_
    refine hdeeper.block.bind fun load body hload => ?_
    refine carries_expect_map (by decide) ?_
    rw [hload, add_zero, add_assoc]
  refine carries_lparen_expect_bind ?_
  refine carries_peekKind_bind fun kind _ => ?_
  refine .ite (fun _ => ?_) fun _ => ?_
  · exact (hrest []).mono fun more function hmore => by rw [← hmore, Expr.loads, zero_add]
  · refine carries_parameters.bind fun load parameters hload => ?_
    rw [hload]
    exact hrest parameters

theorem carries_positional
    (hdeeper : deeper.Carries budget budget' other) :
    Carries budget budget' front
      (deeper.expression >>= fun value => pure (Field.positional value))
      (other.expression >>= fun value => pure (Field.positional value)) fun load field =>
        load = field.load :=
  (carries_expression hdeeper).map fun _ _ hload => hload

/-- An entry carries the loads of its key and its value. -/
theorem carries_field
    (hdeeper : deeper.Carries budget budget' other) :
    Carries budget budget' front (field deeper) (field other) fun load field =>
      load = field.load := by
  refine carries_peekKind_bind fun kind _ => ?_
  split
  · refine carries_advance_bind fun _ => ?_
    refine (carries_expression hdeeper).bind fun load key hkey => ?_
    refine carries_expect_bind (by decide) ?_
    refine carries_expect_bind (by decide) ?_
    refine (carries_expression hdeeper).map fun more value hvalue => ?_
    rw [hkey, hvalue]
    rfl
  · refine carries_peekSecondKind_bind fun second => .ite (fun _ => ?_) fun _ => ?_
    · refine carries_name_bind fun key => ?_
      refine carries_advance_bind fun _ => ?_
      exact (carries_expression hdeeper).map fun _ _ hload => hload.trans (zero_add _).symm
    · exact carries_positional hdeeper
  · exact carries_positional hdeeper

/-- A table carries the loads of all its entries. -/
theorem carries_fields
    (hdeeper : deeper.Carries budget budget' other) :
    Carries budget budget' front (loop (fieldStep deeper) []) (loop (fieldStep other) [])
      fun load fields => load = Field.loads fields := by
  refine carries_loop_start (fun load fields => load = Field.loads fields) ?_ rfl
  rintro load fields rfl
  refine carries_peekKind_bind fun kind _ => .ite (fun _ => .pure (add_zero _)) fun _ => ?_
  refine (carries_field hdeeper).bind fun more field hmore => ?_
  have hfields : Field.loads fields + (more + 0) = Field.loads (fields ++ [field]) := by
    rw [Field.loads_append, Field.loads, Field.loads, hmore]
  refine carries_accept_ite (by decide) (.pure hfields) ?_
  exact carries_accept_ite (by decide) (.pure hfields) (.pure hfields)

theorem carries_table
    (hdeeper : deeper.Carries budget budget' other) :
    Carries budget budget' front (table deeper) (table other) fun load value =>
      load = value.load ∧ ∃ fields, value = .table fields := by
  refine carries_expect_bind (by decide) ?_
  refine (carries_fields hdeeper).bind fun load fields hload => ?_
  refine carries_expect_map (by decide) ⟨?_, fields, rfl⟩
  rw [hload, add_zero]
  rfl

/-! ## Expressions -/

/-- Parentheses around a string or a table alone are not part of the load. -/
theorem carries_arguments
    (hdeeper : deeper.Carries budget budget' other) :
    Carries budget budget' front (arguments deeper) (arguments other) fun load values =>
      load = .ofArguments (Expr.standAlone values) (Expr.loads values)
        (Expr.deeperLoads values) := by
  refine carries_peekKind_bind fun kind _ => ?_
  split
  · refine .ungroup (fun load values => load = .paren + Expr.deeperLoads values) ?_ ?_
    · refine carries_lparen_bind fun _ => ?_
      refine carries_peekKind_bind fun next _ => .ite (fun _ => ?_) fun _ => ?_
      · exact carries_expect_map (by decide) rfl
      · refine (carries_expressionList hdeeper).bind fun load values hload => ?_
        exact carries_expect_map (by decide) (by rw [hload, add_zero])
    · rintro load values rfl
      cases halone : Expr.standAlone values with
      | false => exact .inl rfl
      | true =>
          obtain ⟨value, rfl⟩ := Expr.eq_of_standAlone halone
          refine .inr ⟨value.load, ?_, ?_⟩
          · rw [Expr.deeperLoads, Expr.deeperLoads, add_zero]
          · simp only [Load.ofArguments, Expr.loads, add_zero, if_true]
  · refine (carries_table hdeeper).map fun load value hvalue => ?_
    obtain ⟨rfl, fields, rfl⟩ := hvalue
    exact (add_zero _).symm
  · exact carries_advance_bind fun _ => .pure rfl
  · exact carries_unexpected

/-- A primary expression carries the load of its tree: parentheses around it cost one level and
bring one parenthesis that the tree does not show. -/
theorem carries_primary
    (hdeeper : deeper.Carries budget budget' other) :
    Carries budget budget' front (primary deeper) (primary other) fun load value =>
      load = value.load := by
  refine carries_peekKind_bind fun kind _ => ?_
  split
  · exact carries_name_map fun _ => rfl
  · refine .ungroup (fun load value => load = .paren + value.load.below) ?_
      fun load value hload => .inr ⟨value.load, hload, rfl⟩
    refine carries_lparen_bind fun _ => ?_
    refine (carries_expression hdeeper).bind fun load value hload => ?_
    exact carries_expect_map (by decide) (by rw [hload, add_zero])
  · exact carries_unexpected

/-- What suffixes carry is added to the load of the expression in front. -/
theorem carries_suffixes
    (hdeeper : deeper.Carries budget budget' other)
    (value : Expr) :
    Carries budget budget' front (loop (suffixStep deeper) value) (loop (suffixStep other) value)
      fun more result => value.load + more = result.load := by
  refine carries_loop (fun load (value : Expr) => load = value.load) ?_ rfl
  rintro load value rfl
  have hcall : ∀ {front : Kind → Prop}, Carries budget budget' front
      (arguments deeper >>= fun values => pure (Step.again (Expr.call value values)))
      (arguments other >>= fun values => pure (Step.again (Expr.call value values)))
      (CarriesRound (fun load value => load = value.load) value.load) :=
    (carries_arguments hdeeper).map fun _ _ hload => congrArg _ hload
  refine carries_peekKind_bind fun kind _ => ?_
  split
  · exact carries_advance_bind fun _ => carries_name_map fun _ => rfl
  · refine carries_advance_bind fun _ => ?_
    refine (carries_expression hdeeper).bind fun load key hload => ?_
    refine carries_expect_map (by decide) ?_
    rw [hload, add_zero]
    rfl
  · refine carries_advance_bind fun _ => ?_
    refine carries_name_bind fun method => ?_
    exact (carries_arguments hdeeper).map fun _ _ hload => congrArg _ hload
  · exact hcall
  · exact hcall
  · exact hcall
  · exact .pure (add_zero _)

/-- Accesses and calls carry the load of the tree that they build. -/
theorem carries_suffixed
    (hdeeper : deeper.Carries budget budget' other) :
    Carries budget budget' front (suffixed deeper) (suffixed other) fun load value =>
      load = value.load := by
  refine (carries_primary hdeeper).bind fun load value hload => ?_
  rw [hload]
  exact carries_suffixes hdeeper value

/-- An expression without operators carries its own load. -/
theorem carries_simple
    (hdeeper : deeper.Carries budget budget' other) :
    Carries budget budget' front (simple deeper) (simple other) fun load value =>
      load = value.load := by
  refine carries_peekKind_bind fun kind _ => ?_
  split
  · exact carries_advance_bind fun _ => .pure rfl
  · exact carries_advance_bind fun _ => .pure rfl
  · exact carries_advance_bind fun _ => .pure rfl
  · exact carries_advance_bind fun _ => .pure rfl
  · refine carries_advance_bind fun token => ?_
    split
    · exact .pure rfl
    · exact carries_fail
  · exact carries_advance_bind fun _ => .pure rfl
  · refine carries_expect_bind (by decide) ?_
    exact (carries_functionBody hdeeper).map fun _ _ hload => hload
  · exact (carries_table hdeeper).mono fun _ _ hload => hload.1
  · exact carries_suffixed hdeeper

/-- An operator carries its operand one level below. -/
theorem carries_operand
    (hdeeper : deeper.Carries budget budget' other) :
    Carries budget budget' front (operand deeper) (operand other) fun load value =>
      load = value.load := by
  refine carries_peekKind_bind fun kind _ => ?_
  split
  · refine carries_advance_bind fun _ => ?_
    exact (hdeeper.operation _).map fun _ _ hload => hload
  · exact carries_simple hdeeper

/-- The operands on the right are one level deeper, those on the left are not. -/
theorem carries_operators
    (hdeeper : deeper.Carries budget budget' other)
    (least : Nat)
    (left : Expr) :
    Carries budget budget' front (loop (operatorStep deeper least) left)
      (loop (operatorStep other least) left) fun more result => left.load + more = result.load := by
  refine carries_loop (fun load (value : Expr) => load = value.load) ?_ rfl
  rintro load left rfl
  refine carries_peekKind_bind fun kind _ => ?_
  split
  · refine .ite (fun _ => .pure (add_zero _)) fun _ => ?_
    refine carries_advance_bind fun _ => ?_
    exact (hdeeper.operation _).map fun _ _ hload => congrArg _ hload
  · exact .pure (add_zero _)

/-- An expression carries its own load, whatever the precedence asked for. -/
theorem carries_expressionAt
    (hdeeper : deeper.Carries budget budget' other)
    (least : Nat) :
    Carries budget budget' front (expression deeper least) (expression other least)
      fun load value => load = value.load := by
  refine (carries_operand hdeeper).bind fun load left hload => ?_
  rw [hload]
  exact carries_operators hdeeper least left

/-! ## Statements -/

/-- The body of a loop is carried one level below. -/
theorem carries_loopBody
    (hdeeper : deeper.Carries budget budget' other) :
    Carries budget budget' front (loopBody deeper) (loopBody other) fun load body =>
      load = (Stmt.loads body).below := by
  refine carries_expect_bind (by decide) ?_
  refine hdeeper.block.bind fun load body hload => ?_
  exact carries_expect_map (by decide) (by rw [hload, add_zero])

theorem carries_whileStatement
    (hdeeper : deeper.Carries budget budget' other) :
    Carries budget budget' front (whileStatement deeper) (whileStatement other) fun load stmt =>
      load = stmt.load := by
  refine carries_expect_bind (by decide) ?_
  refine (carries_expression hdeeper).bind fun load test hload => ?_
  exact (carries_loopBody hdeeper).map fun more body hmore => by rw [hload, hmore]; rfl

theorem carries_doStatement
    (hdeeper : deeper.Carries budget budget' other) :
    Carries budget budget' front (doStatement deeper) (doStatement other) fun load stmt =>
      load = stmt.load :=
  (carries_loopBody hdeeper).map fun _ _ hload => hload

theorem carries_repeatStatement
    (hdeeper : deeper.Carries budget budget' other) :
    Carries budget budget' front (repeatStatement deeper) (repeatStatement other) fun load stmt =>
      load = stmt.load := by
  refine carries_expect_bind (by decide) ?_
  refine hdeeper.block.bind fun load body hload => ?_
  refine carries_expect_bind (by decide) ?_
  exact (carries_expression hdeeper).map fun more test hmore => by rw [hload, hmore]; rfl

/-- A condition and what depends on it. -/
def clauseLoad (clause : Expr × Block) : Load :=
  clause.1.load.below + (Stmt.loads clause.2).below

/-- A clause carries its test and its body one level below. -/
theorem carries_guarded
    (hdeeper : deeper.Carries budget budget' other) :
    Carries budget budget' front (guarded deeper) (guarded other) fun load clause =>
      load = clauseLoad clause := by
  refine (carries_expression hdeeper).bind fun load test hload => ?_
  refine carries_expect_bind (by decide) ?_
  exact hdeeper.block.map fun more body hmore => by rw [hload, hmore]; rfl

/-- The clauses of a chain carry their loads side by side. -/
theorem carries_clauses
    (hdeeper : deeper.Carries budget budget' other) :
    Carries budget budget' front (loop (clauseStep deeper) []) (loop (clauseStep other) [])
      fun load clauses => load = (clauses.map clauseLoad).sum := by
  refine carries_loop_start
    (fun load (clauses : List (Expr × Block)) => load = (clauses.map clauseLoad).sum) ?_ rfl
  rintro load clauses rfl
  refine carries_accept_ite (by decide) ?_ (.pure (add_zero _))
  refine (carries_guarded hdeeper).map fun more clause hmore => ?_
  simp only [CarriesRound, hmore, List.map_append, List.sum_append, List.map_singleton,
    List.sum_singleton]

theorem carries_lastAlternative
    (hdeeper : deeper.Carries budget budget' other) :
    Carries budget budget' front (lastAlternative deeper) (lastAlternative other)
      fun load last => load = ElseBranch.optionLoad last :=
  carries_accept_ite (by decide) (hdeeper.block.map fun _ _ hload => hload) (.pure rfl)

/-- However long a chain of conditions is, all of them are on one level. -/
theorem load_chain (clauses : List (Expr × Block)) (last : Option ElseBranch) :
    ElseBranch.optionLoad (chain clauses last) =
      (clauses.map clauseLoad).sum + ElseBranch.optionLoad last := by
  induction clauses with
  | nil => exact (zero_add _).symm
  | cons clause clauses ih =>
      have hstep : ElseBranch.optionLoad (chain (clause :: clauses) last) =
          (ElseBranch.elseIf clause.1 clause.2 (chain clauses last)).load := rfl
      rw [hstep, ElseBranch.load_elseIf, ih, List.map_cons, List.sum_cons, ← add_assoc]
      rfl

/-- A condition carries its own load, with all of its clauses on one level. -/
theorem carries_ifStatement
    (hdeeper : deeper.Carries budget budget' other) :
    Carries budget budget' front (ifStatement deeper) (ifStatement other) fun load stmt =>
      load = stmt.load := by
  refine carries_expect_bind (by decide) ?_
  refine (carries_guarded hdeeper).bind fun load clause hload => ?_
  refine (carries_clauses hdeeper).bind fun others clauses hothers => ?_
  refine (carries_lastAlternative hdeeper).bind fun final last hfinal => ?_
  refine carries_expect_map (by decide) ?_
  rw [Stmt.load_ifThen, load_chain, hload, hothers, hfinal, add_zero]
  rfl

/-- A step that is not written carries nothing. -/
theorem carries_loopStep
    (hdeeper : deeper.Carries budget budget' other) :
    Carries budget budget' front (loopStep deeper) (loopStep other) fun load step =>
      load = step.load.below ∨ load = 0 ∧ step = .int 1 :=
  carries_accept_ite (by decide) ((carries_expression hdeeper).mono fun _ _ hload => .inl hload)
    (.pure (.inr ⟨rfl, rfl⟩))

theorem carries_moreNames (first : Name) :
    Carries budget budget' front (moreItems name [first]) (moreItems name [first])
      fun load _ => load = 0 := by
  have hmeets : ∀ whole, (moreItems name [first] : Parser (List Name)).Meets whole anyKind
      fun _ _ => True := fun whole =>
    @meets_moreItems _ _ _ _ (fun _ _ => True) meets_name (fun _ _ _ _ _ _ _ _ => trivial)
      [] [first] trivial
  exact Carries.weaken (.of_meets hmeets)

/-- Loops carry their own loads, and names carry nothing. -/
theorem carries_forStatement
    (hdeeper : deeper.Carries budget budget' other) :
    Carries budget budget' front (forStatement deeper) (forStatement other) fun load stmt =>
      load = stmt.load := by
  refine carries_expect_bind (by decide) ?_
  refine carries_name_bind fun first => ?_
  have hgeneric : ∀ {front : Kind → Prop}, Carries budget budget' front
      (do
        let names ← moreItems name [first]
        expectWord .in_
        let iterators ← deeper.expressionList
        let body ← loopBody deeper
        return Stmt.genericFor names iterators body)
      (do
        let names ← moreItems name [first]
        expectWord .in_
        let iterators ← other.expressionList
        let body ← loopBody other
        return Stmt.genericFor names iterators body)
      fun load stmt => load = stmt.load := by
    intro front
    refine (carries_moreNames first).bind_zero fun names => ?_
    refine carries_expect_bind (by decide) ?_
    refine (carries_expressionList hdeeper).bind fun load iterators hload => ?_
    exact (carries_loopBody hdeeper).map fun more body hmore => by rw [hload, hmore]; rfl
  refine carries_peekKind_bind fun kind _ => ?_
  split
  · refine carries_advance_bind fun _ => ?_
    refine (carries_expression hdeeper).bind fun load start hload => ?_
    refine carries_expect_bind (by decide) ?_
    refine (carries_expression hdeeper).bind fun load' stop hload' => ?_
    refine (carries_loopStep hdeeper).bind fun load'' step hload'' => ?_
    refine (carries_loopBody hdeeper).map fun more body hmore => ?_
    rw [hload, hload', hmore]
    rcases hload'' with rfl | ⟨rfl, rfl⟩
    · simp only [Stmt.load, add_assoc]
    · -- the level of the step that is not written is that of the two values in front of it
      ext
      · simp only [Stmt.load, Expr.int, Expr.load, Load.levels_add, Load.levels_below,
          Load.levels_zero]
        omega
      · simp only [Stmt.load, Expr.int, Expr.load, Load.parens_add, Load.parens_below,
          Load.parens_zero]
        omega
  · exact hgeneric
  · exact hgeneric
  · exact carries_unexpected

/-- A dotted name carries nothing for its points. -/
theorem carries_path (value : Expr) :
    Carries budget budget' front (loop dottedStep value) (loop dottedStep value)
      fun more path => value.load + more = path.load := by
  refine carries_loop (fun load (path : Expr) => load = path.load) ?_ rfl
  rintro load value rfl
  exact carries_accept_ite (by decide) (carries_name_map fun _ => rfl) (.pure (add_zero _))

theorem carries_functionStatement
    (hdeeper : deeper.Carries budget budget' other) :
    Carries budget budget' front (functionStatement deeper) (functionStatement other)
      fun load stmt => load = stmt.load := by
  refine carries_expect_bind (by decide) ?_
  refine carries_name_bind fun first => ?_
  refine (carries_path _).bind fun load path hpath => ?_
  obtain rfl : load = path.load := (zero_add load).symm.trans hpath
  refine carries_accept_ite (by decide) ?_ ?_
  · refine carries_name_bind fun method => ?_
    refine (carries_functionBody hdeeper).map fun more function hmore => ?_
    rw [hmore, ← add_assoc, ← add_assoc]
    rfl
  · refine (carries_functionBody hdeeper).map fun more function hmore => ?_
    rw [hmore, ← add_assoc, ← add_assoc]
    rfl

theorem carries_initialValues
    (hdeeper : deeper.Carries budget budget' other) :
    Carries budget budget' front (initialValues deeper) (initialValues other) fun load values =>
      load = Expr.deeperLoads values :=
  carries_accept_ite (by decide) (carries_expressionList hdeeper) (.pure rfl)

/-- A local function or a declaration carries its own load. -/
theorem carries_localStatement
    (hdeeper : deeper.Carries budget budget' other) :
    Carries budget budget' front (localStatement deeper) (localStatement other) fun load stmt =>
      load = stmt.load := by
  refine carries_expect_bind (by decide) ?_
  refine carries_accept_ite (by decide) ?_ ?_
  · refine carries_name_bind fun id => ?_
    exact (carries_functionBody hdeeper).map fun _ _ hload => hload
  · refine (Carries.of_meets fun _ => meets_names).bind_zero fun names => ?_
    refine (carries_initialValues hdeeper).map fun load values hload => ?_
    rw [hload, Stmt.load, Expr.loads_names, zero_add]

theorem carries_checkTarget
    (value : Expr)
    (span : Span) :
    Carries budget budget' front (checkTarget value span) (checkTarget value span)
      fun load result => load = 0 ∧ result = value :=
  .ite (fun _ => .pure ⟨rfl, rfl⟩) fun _ => carries_fail

theorem carries_target
    (hdeeper : deeper.Carries budget budget' other) :
    Carries budget budget' front (target deeper) (target other) fun load value =>
      load = value.load := by
  refine carries_peek_bind fun start => ?_
  refine (carries_suffixed hdeeper).bind fun load value hload => ?_
  refine (carries_checkTarget value start.span).mono fun more result hresult => ?_
  rw [hload, hresult.1, hresult.2, add_zero]

/-- Assignments and calls carry their own loads. -/
theorem carries_expressionStatement
    (hdeeper : deeper.Carries budget budget' other) :
    Carries budget budget' front (expressionStatement deeper) (expressionStatement other)
      fun load stmt => load = stmt.load := by
  refine carries_peek_bind fun start => ?_
  refine (carries_suffixed hdeeper).bind fun load value hload => ?_
  rw [hload]
  have hassign : ∀ {front : Kind → Prop}, Carries budget budget' front
      (do
        let first ← checkTarget value start.span
        let targets ← moreItems (target deeper) [first]
        expectSymbol .eq
        let values ← deeper.expressionList
        return Stmt.assign targets values)
      (do
        let first ← checkTarget value start.span
        let targets ← moreItems (target other) [first]
        expectSymbol .eq
        let values ← other.expressionList
        return Stmt.assign targets values)
      fun more stmt => value.load + more = stmt.load := by
    intro front
    refine (carries_checkTarget value start.span).bind fun load first hfirst => ?_
    obtain ⟨rfl, rfl⟩ := hfirst
    refine (carries_moreItems (carries_target hdeeper) [first]).bind fun load targets htargets => ?_
    refine carries_expect_bind (by decide) ?_
    refine (carries_expressionList hdeeper).map fun more values hmore => ?_
    rw [List.map_singleton, List.sum_singleton, ← Expr.loads_eq_sum] at htargets
    rw [hmore, zero_add, ← add_assoc, htargets]
    rfl
  refine carries_peekKind_bind fun kind _ => ?_
  split
  · exact hassign
  · exact hassign
  · exact .ite (fun _ => .pure (add_zero _)) fun _ => carries_unexpected

/-- Every statement carries its own load. -/
theorem carries_statement
    (hdeeper : deeper.Carries budget budget' other) :
    Carries budget budget' front (statement deeper) (statement other) fun load stmt =>
      load = stmt.load := by
  refine carries_peekKind_bind fun kind _ => ?_
  split
  · exact carries_advance_bind fun _ => .pure rfl
  · refine carries_expect_bind (by decide) ?_
    exact carries_name_bind fun id => carries_expect_map (by decide) rfl
  · exact carries_advance_bind fun _ => .pure rfl
  · exact carries_advance_bind fun _ => carries_name_map fun _ => rfl
  · exact carries_whileStatement hdeeper
  · exact carries_doStatement hdeeper
  · exact carries_repeatStatement hdeeper
  · exact carries_ifStatement hdeeper
  · exact carries_forStatement hdeeper
  · exact carries_functionStatement hdeeper
  · exact carries_localStatement hdeeper
  · exact carries_expressionStatement hdeeper

/-! ## Blocks and programs -/

theorem carries_returnStatement
    (hdeeper : deeper.Carries budget budget' other) :
    Carries budget budget' front (returnStatement deeper) (returnStatement other) fun load stmt =>
      load = stmt.load := by
  refine carries_expect_bind (by decide) ?_
  have hvalues : Carries budget budget' anyKind (returnedValues deeper) (returnedValues other)
      fun load values => load = Expr.deeperLoads values :=
    carries_peekKind_bind fun kind _ =>
      .ite (fun _ => .pure rfl) fun _ => carries_expressionList hdeeper
  refine hvalues.bind fun load values hload => ?_
  have hstmt : load + 0 = (Stmt.returnValues values).load := by
    rw [hload, add_zero]
    rfl
  exact carries_accept_bind (by decide) (.pure hstmt) (.pure hstmt)

/-- A block carries the loads of its statements. -/
theorem carries_blockAt
    (hdeeper : deeper.Carries budget budget' other) :
    Carries budget budget' front (block deeper) (block other) fun load body =>
      load = Stmt.loads body := by
  refine carries_loop_start (fun load (stmts : Block) => load = Stmt.loads stmts) ?_ rfl
  rintro load stmts rfl
  have hstmts : ∀ more (stmt : Stmt), more = stmt.load →
      Stmt.loads stmts + more = Stmt.loads (stmts ++ [stmt]) := by
    rintro more stmt rfl
    rw [Stmt.loads_append, Stmt.loads, Stmt.loads, add_zero]
  refine carries_peekKind_bind fun kind _ => ?_
  refine .ite (fun _ => .pure (add_zero _)) fun _ => ?_
  refine .ite (fun _ => ?_) fun _ => ?_
  · exact (carries_returnStatement hdeeper).map hstmts
  · exact (carries_statement hdeeper).map hstmts

/-- The load of a phrase is one level below the budget that is asked for it. -/
theorem carries_phrase
    (limit limit' budget budget' : Nat) :
    Descent.Carries budget budget' (phrase limit budget) (phrase limit' budget') := by
  induction budget generalizing budget' with
  | zero =>
      refine ⟨fun tokens body rest _ hfirst => ?_, fun least tokens value rest _ hfirst => ?_⟩
      · cases hfirst
      · cases hfirst
  | succ budget ih =>
      cases budget' with
      | zero =>
          exact ⟨(carries_blockAt (ih 0)).below_zero, fun least =>
            (carries_expressionAt (ih 0) least).below_zero⟩
      | succ budget' =>
          exact ⟨(carries_blockAt (ih budget')).below, fun least =>
            (carries_expressionAt (ih budget') least).below⟩

/-- A program carries its own load, whatever the two limits are. -/
theorem carries_chunk (limit limit' : Nat) :
    Carries limit limit' anyKind (chunk limit) (chunk limit') fun load program =>
      load = program.load := by
  refine (carries_phrase limit limit' limit limit').block.bind fun load body hload => ?_
  refine carries_peekKind_bind fun kind _ => .ite (fun _ => ?_) fun _ => carries_unexpected
  exact .pure (by rw [hload, add_zero]; rfl)

end Grammar

namespace Session

/-- A parsed program is what its tokens are read as. -/
theorem chunk_of_parse
    {session : Session}
    {program : Chunk}
    (h : session.parse.1 = .ok program) :
    ∃ rest, Grammar.chunk session.limit session.tokens = .ok program rest := by
  unfold parse at h
  cases hchunk : Grammar.chunk session.limit session.tokens with
  | ok result rest =>
      rw [hchunk] at h
      cases h
      exact ⟨rest, rfl⟩
  | fail error rest =>
      rw [hchunk] at h
      cases h

/-- A program that is parsed has no more levels than the limit. -/
theorem levels_le_limit
    {session : Session}
    {program : Chunk}
    (h : session.parse.1 = .ok program) :
    program.load.levels ≤ session.limit := by
  obtain ⟨rest, hchunk⟩ := chunk_of_parse h
  obtain ⟨_, _, _, rfl, hcovers⟩ :=
    Grammar.carries_chunk session.limit 0 _ _ _ trivial hchunk
  exact hcovers.levels

/-- Tokens that are parsed to a program under some limit are parsed to it under every limit that has
room for its levels and for the parentheses it does not ask for. -/
theorem parse_of_room
    {tokens : List Token}
    {limit limit' : Nat}
    {program : Chunk}
    (h : (Session.mk tokens limit).parse.1 = .ok program)
    (hroom : program.load.levels + Token.parens tokens ≤ limit' + program.load.parens) :
    (Session.mk tokens limit').parse.1 = .ok program := by
  obtain ⟨rest, hchunk⟩ := chunk_of_parse h
  obtain ⟨used, _, rfl, rfl, hcovers⟩ :=
    Grammar.carries_chunk limit limit' _ _ _ trivial hchunk
  have hsame : Grammar.chunk limit' (used ++ rest) = .ok program rest := by
    refine hcovers.same ?_
    rw [Token.parens_append] at hroom
    omega
  rw [parse, hsame]

end Session
end LuaView
