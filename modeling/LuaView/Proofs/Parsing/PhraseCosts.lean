import LuaView.Proofs.Parsing.Credit

/-!
# What phrases cost

Every parser of the grammar can afford its steps.  The credit behind it shows what it has consumed:
a phrase that begins with a token of its own ends with more than it began with, whatever it has
spent on the phrases inside.

A block may be empty, and still costs its own step and that of the round that finds its end.  They
are paid with the word in front of it, or with the parenthesis behind the parameters.
-/

namespace LuaView

open LuaView.Parser (anyKind)

/-- The phrases inside one that is parsed at the site.  An expression ends with more than it began
with; a block may find nothing. -/
structure Site.Descends
    (site : Site)
    (deeper : Descent Act)
    (metered : Descent Metered) : Prop where
  block : Affords site 2 anyKind (deeper .block) (metered .block) fun _ => 0
  expression : ∀ least,
    Affords site 2 anyKind (deeper (.expression least)) (metered (.expression least)) fun _ => 3

/-- The phrases inside are asked for behind a token, so only what they do there matters. -/
theorem Site.Descends.of_eq
    {site : Site}
    {deeper other : Descent Act}
    {metered : Descent Metered}
    (h : site.Descends deeper metered)
    (hother : ∀ asked next, next.left < site.asking → next.place.depth = site.depth →
      other asked next = deeper asked next) :
    site.Descends other metered := by
  have hasked : ∀ asked next, site.Holds next → next.worth 2 ≤ site.fund →
      other asked next = deeper asked next := by
    intro asked next hholds hfund
    refine hother asked next ?_ hholds.depth_eq
    unfold Machine.worth Site.fund at hfund
    omega
  exact ⟨h.block.of_eq (hasked .block), fun least =>
    (h.expression least).of_eq (hasked (.expression least))⟩

namespace Grammar

open TokenReader (loop peekSecondKind)
open LuaView.Parser (Step expectSymbol expectWord itemStep moreItems name)

variable {site : Site}
variable {credit : Nat}
variable {front : Kind → Prop}
variable {deeper : Descent Act} {metered : Descent Metered}

theorem affords_block
    (hdeeper : site.Descends deeper metered) :
    Affords site (credit + 2) front deeper.block metered.block fun _ => credit :=
  (hdeeper.block.frame credit).weaken

theorem affords_operation
    (hdeeper : site.Descends deeper metered)
    (least : Nat) :
    Affords site (credit + 2) front (deeper.operation least) (metered.operation least)
      fun _ => credit + 3 :=
  ((hdeeper.expression least).frame credit).weaken

theorem affords_expression
    (hdeeper : site.Descends deeper metered) :
    Affords site (credit + 2) front deeper.expression metered.expression fun _ => credit + 3 :=
  affords_operation hdeeper _

/-- Each comma pays for the round of the expression behind it. -/
theorem affords_expressionList
    (hdeeper : site.Descends deeper metered) :
    Affords site (credit + 2) front deeper.expressionList metered.expressionList
      fun _ => credit + 2 :=
  affords_commaSeparated (affords_expression hdeeper)

/-! ## Functions and tables -/

/-- A round of parameters earns the step of the next one with its name and its comma. -/
theorem affords_parameterStep (parameters : List Expr) :
    Affords site credit front (parameterStep parameters) (parameterStep parameters)
      (roundCredit credit parameters) := by
  refine affords_peekKind_bind fun kind _ => ?_
  split
  · exact affords_advance_bind (by decide) fun _ => .found _ (by omega)
  · refine affords_name_bind fun id => ?_
    exact affords_accept_ite (by decide) (.found _ (by omega)) (.found _ (by omega))
  · exact affords_unexpected _

/-- The parentheses of a function pay for a body that may be empty. -/
theorem affords_functionBody
    (hdeeper : site.Descends deeper metered) :
    Affords site credit front (functionBody deeper) (functionBody metered)
      fun _ => credit + 4 := by
  refine affords_expect_bind (by decide) ?_
  refine affords_peekKind_bind fun next _ => ?_
  have hrest : ∀ {front : Kind → Prop} (parameters : List Expr),
      Affords site (credit + 3) front
      (do
        expectSymbol .rparen
        let body ← deeper.block
        expectWord .end_
        return (parameters, body))
      (do
        expectSymbol .rparen
        let body ← metered.block
        expectWord .end_
        return (parameters, body)) fun _ => credit + 4 := by
    intro front parameters
    refine affords_expect_bind (by decide) ?_
    refine (affords_block hdeeper).bind fun body => ?_
    exact affords_expect_map (by decide) (parameters, body) (by omega)
  -- Only a list that is not empty costs the step of a loop.
  exact .ite (fun _ => (Affords.pure [] (by omega)).bind hrest) fun _ =>
    (Affords.loop affords_parameterStep []).bind hrest

/-- An entry that starts with a name costs no more than its expression, whether or not the name is
a key. -/
theorem affords_fieldAtName
    (hdeeper : site.Descends deeper metered) :
    Affords site (credit + 2) front (fieldAtName deeper) (fieldAtName metered)
      fun _ => credit + 3 := by
  refine affords_peekSecondKind_bind fun second => .ite (fun _ => ?_) fun _ => ?_
  · refine affords_name_bind fun key => ?_
    refine affords_advance_any_bind fun _ => ?_
    exact (affords_expression hdeeper).map (Field.named key) fun _ => by omega
  · exact (affords_expression hdeeper).map Field.positional fun _ => Nat.le_refl _

/-- The entry of a table ends with more than it began with. -/
theorem affords_field
    (hdeeper : site.Descends deeper metered) :
    Affords site (credit + 2) front (field deeper) (field metered) fun _ => credit + 3 := by
  refine affords_peekKind_bind fun kind _ => ?_
  split
  · refine affords_advance_bind (by decide) fun _ => ?_
    refine (affords_expression hdeeper).bind fun key => ?_
    refine affords_expect_bind (by decide) ?_
    refine affords_expect_bind (by decide) ?_
    exact (affords_expression hdeeper).map (Field.bracketed key) fun _ => by omega
  · exact affords_fieldAtName hdeeper
  · exact (affords_expression hdeeper).map Field.positional fun _ => Nat.le_refl _

/-- A round of entries earns the step of the next one with its separator. -/
theorem affords_fieldStep
    (hdeeper : site.Descends deeper metered)
    (fields : List Field) :
    Affords site (credit + 2) front (fieldStep deeper fields) (fieldStep metered fields)
      (roundCredit (credit + 2) fields) := by
  refine affords_peekKind_bind fun kind _ => .ite (fun _ => .done fields) fun _ => ?_
  refine (affords_field hdeeper).bind fun field => ?_
  refine affords_accept_ite (by decide) (.found _ (by omega)) ?_
  exact affords_accept_ite (by decide) (.found _ (by omega)) (.found _ (by omega))

/-- The braces pay for the loop over the entries. -/
theorem affords_table
    (hdeeper : site.Descends deeper metered) :
    Affords site credit front (table deeper) (table metered) fun _ => credit + 4 := by
  refine affords_expect_bind (by decide) ?_
  refine (Affords.loop (affords_fieldStep hdeeper) []).bind fun fields => ?_
  exact affords_expect_map (by decide) (Expr.table fields) (by omega)

/-! ## Expressions -/

/-- Arguments end with a token of their own to spare. -/
theorem affords_arguments
    (hdeeper : site.Descends deeper metered) :
    Affords site credit front (arguments deeper) (arguments metered) fun _ => credit + 4 := by
  refine affords_peekKind_bind fun kind _ => ?_
  split
  · refine affords_advance_bind (by decide) fun _ => ?_
    refine affords_peekKind_bind fun next _ => ?_
    refine .ite (fun _ => ?_) fun _ => ?_
    · exact (Affords.pure [] (Nat.le_refl _)).bind fun values =>
        affords_expect_map (by decide) values (by omega)
    · exact (affords_expressionList hdeeper).bind fun values =>
        affords_expect_map (by decide) values (by omega)
  · exact (affords_table hdeeper).map (fun table => [table]) fun _ => Nat.le_refl _
  · exact affords_advance_bind (by simp) fun _ => .pure _ (Nat.le_refl _)
  · exact affords_unexpected _

/-- A primary expression ends with a token of its own to spare. -/
theorem affords_primary
    (hdeeper : site.Descends deeper metered) :
    Affords site credit front (primary deeper) (primary metered) fun _ => credit + 4 := by
  refine affords_peekKind_bind fun kind _ => ?_
  split
  · exact affords_name.map Expr.name fun _ => Nat.le_refl _
  · refine affords_advance_bind (by decide) fun _ => ?_
    refine (affords_expression hdeeper).bind fun value => ?_
    exact affords_expect_map (by decide) value (by omega)
  · exact affords_unexpected _

/-- A round of suffixes earns the step of the next one with the suffix. -/
theorem affords_suffixStep
    (hdeeper : site.Descends deeper metered)
    (value : Expr) :
    Affords site credit front (suffixStep deeper value) (suffixStep metered value)
      (roundCredit credit value) := by
  have hcall : ∀ {front : Kind → Prop}, Affords site credit front
      (arguments deeper >>= fun values => pure (Step.again (Expr.call value values)))
      (arguments metered >>= fun values => pure (Step.again (Expr.call value values)))
      (roundCredit credit value) :=
    (affords_arguments hdeeper).round _ (by omega)
  refine affords_peekKind_bind fun kind _ => ?_
  split
  · refine affords_advance_bind (by decide) fun _ => ?_
    exact affords_name.round (fun key => Step.again (Expr.dot value key)) (by omega)
  · refine affords_advance_bind (by decide) fun _ => ?_
    refine (affords_expression hdeeper).bind fun key => ?_
    exact (affords_expect (by decide)).round _ (by omega)
  · refine affords_advance_bind (by decide) fun _ => ?_
    refine affords_name_bind fun method => ?_
    exact (affords_arguments hdeeper).round
      (fun values => Step.again (Expr.invoke value method values)) (by omega)
  · exact hcall
  · exact hcall
  · exact hcall
  · exact .done value

/-- An expression of accesses and calls pays for its loop with its first token. -/
theorem affords_suffixed
    (hdeeper : site.Descends deeper metered) :
    Affords site credit front (suffixed deeper) (suffixed metered) fun _ => credit + 3 :=
  (affords_primary hdeeper).bind fun value => .loop (affords_suffixStep hdeeper) value

theorem affords_numeral :
    Affords site credit (· = .number) numeral numeral fun _ => credit + 4 := by
  refine affords_advance_bind (by decide) fun token => ?_
  split
  · exact .pure _ (Nat.le_refl _)
  · exact affords_fail _ _

/-- A simple expression is worth its first token, less the step of a loop over suffixes. -/
theorem affords_simple
    (hdeeper : site.Descends deeper metered) :
    Affords site credit front (simple deeper) (simple metered) fun _ => credit + 3 := by
  refine affords_peekKind_bind fun kind _ => ?_
  split
  · exact affords_advance_bind (by decide) fun _ => .pure _ (by omega)
  · exact affords_advance_bind (by decide) fun _ => .pure _ (by omega)
  · exact affords_advance_bind (by decide) fun _ => .pure _ (by omega)
  · exact affords_advance_bind (by decide) fun _ => .pure _ (by omega)
  · exact affords_numeral.mono fun _ => by omega
  · exact affords_advance_bind (by simp) fun _ => .pure _ (by omega)
  · refine affords_expect_bind (by decide) ?_
    exact (affords_functionBody hdeeper).map (fun function =>
      Expr.function function.1 function.2) fun _ => by omega
  · exact (affords_table hdeeper).mono fun _ => by omega
  · exact affords_suffixed hdeeper

/-- An operator pays for the phrase of its operand. -/
theorem affords_operand
    (hdeeper : site.Descends deeper metered) :
    Affords site credit front (operand deeper) (operand metered) fun _ => credit + 3 := by
  refine affords_peekKind_bind fun kind _ => ?_
  split
  · rename_i op hop
    have hkind : kind ≠ .eof := by
      rintro rfl
      cases hop
    refine affords_advance_bind hkind fun _ => ?_
    exact (affords_operation hdeeper _).map (Expr.unary op) fun _ => by omega
  · exact affords_simple hdeeper

/-- A binary operator pays for the phrase of its right operand and for the next round. -/
theorem affords_operatorStep
    (hdeeper : site.Descends deeper metered)
    (least : Nat)
    (left : Expr) :
    Affords site credit front (operatorStep deeper least left) (operatorStep metered least left)
      (roundCredit credit left) := by
  refine affords_peekKind_bind fun kind _ => ?_
  split
  · rename_i op hop
    have hkind : kind ≠ .eof := by
      rintro rfl
      cases hop
    refine .ite (fun _ => .done left) fun _ => ?_
    refine affords_advance_bind hkind fun _ => ?_
    exact (affords_operation hdeeper _).round
      (fun right => Step.again (Expr.binary op left right)) (by omega)
  · exact .done left

/-- An expression pays for the loop over its operators with its first operand. -/
theorem affords_expressionAt
    (hdeeper : site.Descends deeper metered)
    (least : Nat) :
    Affords site credit front (expression deeper least) (expression metered least)
      fun _ => credit + 2 :=
  (affords_operand hdeeper).bind fun left => .loop (affords_operatorStep hdeeper least) left

/-! ## Statements -/

/-- The word in front of the body of a loop pays for the body. -/
theorem affords_loopBody
    (hdeeper : site.Descends deeper metered) :
    Affords site credit front (loopBody deeper) (loopBody metered) fun _ => credit + 4 := by
  refine affords_expect_bind (by decide) ?_
  refine (affords_block hdeeper).bind fun body => ?_
  exact affords_expect_map (by decide) body (by omega)

theorem affords_whileStatement
    (hdeeper : site.Descends deeper metered) :
    Affords site credit front (whileStatement deeper) (whileStatement metered)
      fun _ => credit + 4 := by
  refine affords_expect_bind (by decide) ?_
  refine (affords_expression hdeeper).bind fun test => ?_
  exact (affords_loopBody hdeeper).map (Stmt.whileLoop test) fun _ => by omega

theorem affords_doStatement
    (hdeeper : site.Descends deeper metered) :
    Affords site credit front (doStatement deeper) (doStatement metered) fun _ => credit + 4 :=
  (affords_loopBody hdeeper).map Stmt.doBlock fun _ => Nat.le_refl _

theorem affords_repeatStatement
    (hdeeper : site.Descends deeper metered) :
    Affords site credit front (repeatStatement deeper) (repeatStatement metered)
      fun _ => credit + 4 := by
  refine affords_expect_bind (by decide) ?_
  refine (affords_block hdeeper).bind fun body => ?_
  refine affords_expect_bind (by decide) ?_
  exact (affords_expression hdeeper).map (Stmt.repeatLoop body) fun _ => by omega

/-- The word behind a condition pays for the block that depends on it. -/
theorem affords_guarded
    (hdeeper : site.Descends deeper metered) :
    Affords site (credit + 2) front (guarded deeper) (guarded metered) fun _ => credit + 5 := by
  refine (affords_expression hdeeper).bind fun test => ?_
  refine affords_expect_bind (by decide) ?_
  exact (affords_block hdeeper).map (fun body => (test, body)) fun _ => Nat.le_refl _

/-- A clause earns the step of the next round with its first word. -/
theorem affords_clauseStep
    (hdeeper : site.Descends deeper metered)
    (clauses : List (Expr × Block)) :
    Affords site credit front (clauseStep deeper clauses) (clauseStep metered clauses)
      (roundCredit credit clauses) :=
  affords_accept_ite (by decide)
    ((affords_guarded hdeeper).round (fun clause => Step.again (clauses ++ [clause])) (by omega))
    (.done clauses)

theorem affords_lastAlternative
    (hdeeper : site.Descends deeper metered) :
    Affords site credit front (lastAlternative deeper) (lastAlternative metered)
      fun _ => credit :=
  affords_accept_ite (by decide)
    ((affords_block hdeeper).map (fun body => some (ElseBranch.final body)) fun _ => by omega)
    (.pure _ (Nat.le_refl _))

/-- A condition pays for the round that finds no further clause. -/
theorem affords_ifStatement
    (hdeeper : site.Descends deeper metered) :
    Affords site credit front (ifStatement deeper) (ifStatement metered) fun _ => credit + 4 := by
  refine affords_expect_bind (by decide) ?_
  refine (affords_guarded hdeeper).bind fun clause => ?_
  refine (Affords.loop (affords_clauseStep hdeeper) []).bind fun clauses => ?_
  refine (affords_lastAlternative hdeeper).bind fun last => ?_
  exact affords_expect_map (by decide) (Stmt.ifThen clause.1 clause.2 (chain clauses last))
    (by omega)

theorem affords_loopStep
    (hdeeper : site.Descends deeper metered) :
    Affords site credit front (loopStep deeper) (loopStep metered) fun _ => credit :=
  affords_accept_ite (by decide) ((affords_expression hdeeper).mono fun _ => by omega)
    (.pure _ (Nat.le_refl _))

/-- A name as an item of a list. -/
theorem affords_nameItem : Affords site 2 front (name : Act Name) name fun _ => 3 :=
  affords_name.mono fun _ => by omega

/-- Both kinds of loops pay for their lists with their words and marks. -/
theorem affords_forStatement
    (hdeeper : site.Descends deeper metered) :
    Affords site credit front (forStatement deeper) (forStatement metered)
      fun _ => credit + 4 := by
  refine affords_expect_bind (by decide) ?_
  refine affords_name_bind fun first => ?_
  have hgeneric : ∀ {front : Kind → Prop}, Affords site (credit + 4 + 4) front
      (do
        let names ← moreItems name [first]
        expectWord .in_
        let iterators ← deeper.expressionList
        let body ← loopBody deeper
        return Stmt.genericFor names iterators body)
      (do
        let names ← moreItems name [first]
        expectWord .in_
        let iterators ← metered.expressionList
        let body ← loopBody metered
        return Stmt.genericFor names iterators body) fun _ => credit + 4 := by
    intro front
    refine (affords_moreItems affords_nameItem [first]).bind fun names => ?_
    refine affords_expect_bind (by decide) ?_
    refine (affords_expressionList hdeeper).bind fun iterators => ?_
    exact (affords_loopBody hdeeper).map (Stmt.genericFor names iterators) fun _ => by omega
  refine affords_peekKind_bind fun kind _ => ?_
  split
  · refine affords_advance_bind (by decide) fun _ => ?_
    refine (affords_expression hdeeper).bind fun start => ?_
    refine affords_expect_bind (by decide) ?_
    refine (affords_expression hdeeper).bind fun stop => ?_
    refine (affords_loopStep hdeeper).bind fun step => ?_
    exact (affords_loopBody hdeeper).map (Stmt.numericFor first start stop step) fun _ => by omega
  · exact hgeneric
  · exact hgeneric
  · exact affords_unexpected _

/-- A round of a dotted name earns the step of the next one with the point and the name. -/
theorem affords_dottedStep (value : Expr) :
    Affords site credit front (dottedStep value) (dottedStep value) (roundCredit credit value) :=
  affords_accept_ite (by decide)
    (affords_name.round (fun key => Step.again (Expr.dot value key)) (by omega)) (.done value)

/-- A function statement pays for its dotted name and for its body. -/
theorem affords_functionStatement
    (hdeeper : site.Descends deeper metered) :
    Affords site credit front (functionStatement deeper) (functionStatement metered)
      fun _ => credit + 4 := by
  refine affords_expect_bind (by decide) ?_
  refine affords_name_bind fun first => ?_
  refine (Affords.loop affords_dottedStep _).bind fun path => ?_
  refine affords_accept_ite (by decide) ?_ ?_
  · refine affords_name_bind fun method => ?_
    exact (affords_functionBody hdeeper).map (fun function =>
      Stmt.method path method function.1 function.2) fun _ => by omega
  · exact (affords_functionBody hdeeper).map (fun function =>
      Stmt.function path function.1 function.2) fun _ => by omega

theorem affords_initialValues
    (hdeeper : site.Descends deeper metered) :
    Affords site credit front (initialValues deeper) (initialValues metered) fun _ => credit :=
  affords_accept_ite (by decide) ((affords_expressionList hdeeper).mono fun _ => by omega)
    (.pure _ (Nat.le_refl _))

/-- Local functions and declarations end with the first word to spare. -/
theorem affords_localStatement
    (hdeeper : site.Descends deeper metered) :
    Affords site credit front (localStatement deeper) (localStatement metered)
      fun _ => credit + 4 := by
  refine affords_expect_bind (by decide) ?_
  refine affords_accept_ite (by decide) ?_ ?_
  · refine affords_name_bind fun id => ?_
    exact (affords_functionBody hdeeper).map (fun function =>
      Stmt.localFunction id function.1 function.2) fun _ => by omega
  · refine (affords_commaSeparated affords_nameItem).bind fun names => ?_
    exact (affords_initialValues hdeeper).map (Stmt.localAssign (names.map Expr.name))
      fun _ => Nat.le_refl _

theorem affords_labelStatement :
    Affords site credit front labelStatement labelStatement fun _ => credit + 4 := by
  refine affords_expect_bind (by decide) ?_
  refine affords_name_bind fun id => ?_
  exact affords_expect_map (by decide) (Stmt.label id) (by omega)

theorem affords_checkTarget (value : Expr) (span : Span) :
    Affords site credit front (checkTarget value span) (checkTarget value span) fun _ => credit :=
  .ite (fun _ => .pure value (Nat.le_refl _)) fun _ => affords_fail _ _

theorem affords_target
    (hdeeper : site.Descends deeper metered) :
    Affords site credit front (target deeper) (target metered) fun _ => credit + 3 := by
  refine affords_peek_bind fun start => ?_
  exact (affords_suffixed hdeeper).bind fun value => affords_checkTarget value start.span

/-- A target as an item of a list. -/
theorem affords_targetItem
    (hdeeper : site.Descends deeper metered) :
    Affords site 2 front (target deeper) (target metered) fun _ => 3 :=
  (affords_target hdeeper).mono fun _ => by omega

/-- Assignments and calls keep what their first expression is worth. -/
theorem affords_expressionStatement
    (hdeeper : site.Descends deeper metered) :
    Affords site credit front (expressionStatement deeper) (expressionStatement metered)
      fun _ => credit + 3 := by
  refine affords_peek_bind fun start => ?_
  refine (affords_suffixed hdeeper).bind fun value => ?_
  have hassign : ∀ {front : Kind → Prop}, Affords site (credit + 3) front
      (do
        let first ← checkTarget value start.span
        let targets ← moreItems (target deeper) [first]
        expectSymbol .eq
        let values ← deeper.expressionList
        return Stmt.assign targets values)
      (do
        let first ← checkTarget value start.span
        let targets ← moreItems (target metered) [first]
        expectSymbol .eq
        let values ← metered.expressionList
        return Stmt.assign targets values) fun _ => credit + 3 := by
    intro front
    refine (affords_checkTarget value start.span).bind fun first => ?_
    refine (affords_moreItems (affords_targetItem hdeeper) [first]).bind fun targets => ?_
    refine affords_expect_bind (by decide) ?_
    exact (affords_expressionList hdeeper).map (Stmt.assign targets) fun _ => by omega
  refine affords_peekKind_bind fun kind _ => ?_
  split
  · exact hassign
  · exact hassign
  · exact .ite (fun _ => .pure _ (Nat.le_refl _)) fun _ => affords_unexpected _

/-- Every statement ends with more than it began with. -/
theorem affords_statement
    (hdeeper : site.Descends deeper metered) :
    Affords site credit front (statement deeper) (statement metered) fun _ => credit + 3 := by
  have hmore : ∀ {front : Kind → Prop} {act : Act Stmt} {other : Metered Stmt},
      Affords site credit front act other (fun _ => credit + 4) →
        Affords site credit front act other fun _ => credit + 3 :=
    fun h => h.mono fun _ => Nat.le_succ _
  refine affords_peekKind_bind fun kind _ => ?_
  split
  · exact affords_advance_bind (by decide) fun _ => .pure _ (by omega)
  · exact hmore affords_labelStatement
  · exact affords_advance_bind (by decide) fun _ => .pure _ (by omega)
  · refine affords_advance_bind (by decide) fun _ => ?_
    exact affords_name.map Stmt.goto fun _ => by omega
  · exact hmore (affords_whileStatement hdeeper)
  · exact hmore (affords_doStatement hdeeper)
  · exact hmore (affords_repeatStatement hdeeper)
  · exact hmore (affords_ifStatement hdeeper)
  · exact hmore (affords_forStatement hdeeper)
  · exact hmore (affords_functionStatement hdeeper)
  · exact hmore (affords_localStatement hdeeper)
  · exact affords_expressionStatement hdeeper

/-! ## Blocks and programs -/

theorem affords_returnStatement
    (hdeeper : site.Descends deeper metered) :
    Affords site credit front (returnStatement deeper) (returnStatement metered)
      fun _ => credit + 4 := by
  refine affords_expect_bind (by decide) ?_
  have hvalues : Affords site (credit + 4) anyKind (returnedValues deeper)
      (returnedValues metered) fun _ => credit + 4 :=
    affords_peekKind_bind fun kind _ =>
      .ite (fun _ => .pure [] (Nat.le_refl _)) fun _ => affords_expressionList hdeeper
  refine hvalues.bind fun values => ?_
  exact affords_accept_bind (by decide) (.pure _ (by omega)) (.pure _ (Nat.le_refl _))

/-- A round of a block earns the step of the next one with its statement. -/
theorem affords_blockStep
    (hdeeper : site.Descends deeper metered)
    (stmts : Block) :
    Affords site credit front (blockStep deeper stmts) (blockStep metered stmts)
      (roundCredit credit stmts) := by
  refine affords_peekKind_bind fun kind _ => ?_
  refine .ite (fun _ => .done stmts) fun _ => ?_
  refine .ite (fun _ => ?_) fun _ => ?_
  · exact (affords_returnStatement hdeeper).round (fun stmt => Step.done (stmts ++ [stmt]))
      (by omega)
  · exact (affords_statement hdeeper).round (fun stmt => Step.again (stmts ++ [stmt])) (by omega)

/-- A block pays for the round that finds its end with the one step it begins with. -/
theorem affords_blockAt
    (hdeeper : site.Descends deeper metered) :
    Affords site (credit + 1) front (block deeper) (block metered) fun _ => credit :=
  .loop (affords_blockStep hdeeper) []

/-- A program costs what its block does. -/
theorem affords_program
    (hdeeper : site.Descends deeper metered) :
    Affords site (credit + 2) front (program deeper) (program metered) fun _ => credit := by
  refine (affords_block hdeeper).bind fun body => ?_
  refine affords_peekKind_bind fun kind _ => ?_
  exact .ite (fun _ => .pure _ (Nat.le_refl _)) fun _ => affords_unexpected _

end Grammar

/-- With more room than there is below the limit, a phrase is the one whose recursion is bounded by
the tokens alone. -/
theorem Site.descends_phrase
    {site : Site}
    {room : Nat}
    (hroom : site.limit < site.depth + room) :
    site.Descends (Act.phrase room) (Metered.phrase site.asking) := by
  induction room generalizing site with
  | zero =>
      -- The limit is passed, and both refuse the phrase.
      have hlevel : site.limit ≤ site.depth := Nat.le_of_lt hroom
      constructor
      · rw [Metered.phrase]
        exact .refused hlevel
      · intro least
        rw [Metered.phrase]
        exact .refused hlevel
  | succ room ih =>
      have hinside : ∀ left, Site.Descends { site with depth := site.depth + 1, asking := left }
          (Act.phrase room) (Metered.phrase left) := fun left =>
        ih (by simp only; omega)
      constructor
      · rw [Metered.phrase]
        exact .nested (.descend fun left _ => Grammar.affords_blockAt (hinside left))
      · intro least
        rw [Metered.phrase]
        exact .nested (.descend fun left _ => Grammar.affords_expressionAt (hinside left) least)

end LuaView
