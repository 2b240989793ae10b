import LuaView.Proofs.Parsing.Simulation

/-!
# Phrases agree if the phrases below them do

Every parser of the grammar asks for a deeper phrase only behind a token.  So under any simulation
two readers agree on a phrase with one token more than they do on deeper phrases.

At one place the grammar looks at two tokens: an entry of a table that starts with a name may be a
key.  What a simulation has to say of it may depend on the deeper phrases, therefore it is asked
for together with them.
-/

namespace LuaView

open LuaView.Parser (anyKind)

/-- The parsers of deeper phrases agree where at most `n` tokens are left, and so do the entries of
tables that start with a name. -/
structure Simulation.Descends
    {m m' : Type → Type}
    [TokenReader m]
    [LawfulMonad m]
    [TokenReader m']
    [LawfulMonad m']
    (sim : Simulation m m')
    (n : Nat)
    (deeper : Descent m)
    (other : Descent m') : Prop where
  phrase : ∀ phrase, sim.Agree n n anyKind (deeper phrase) (other phrase)
  fieldAtName : sim.Agree n n (· = .name) (Grammar.fieldAtName deeper) (Grammar.fieldAtName other)

namespace Grammar

open TokenReader (loop peekSecondKind)
open LuaView.Parser (Step expectSymbol expectWord moreItems name)

variable {m m' : Type → Type} [TokenReader m] [LawfulMonad m] [TokenReader m'] [LawfulMonad m']
variable {sim : Simulation m m'}
variable {n : Nat}
variable {front : Kind → Prop}
variable {deeper : Descent m} {other : Descent m'}

/-- A simulation that sees two tokens ahead has nothing to say of its own. -/
theorem descends_of_peekSecondKind
    (hphrases : ∀ phrase, sim.Agree n n anyKind (deeper phrase) (other phrase))
    (hsecond : ∀ {next : Kind → m Field} {next' : Kind → m' Field},
      (∀ kind, sim.Agree n n (· = .name) (next kind) (next' kind)) →
        sim.Agree n n (· = .name) (peekSecondKind >>= next) (peekSecondKind >>= next')) :
    sim.Descends n deeper other where
  phrase := hphrases
  fieldAtName := by
    have hexpression {front : Kind → Prop} :
        sim.Agree n n front deeper.expression other.expression :=
      (hphrases (.expression _)).weaken
    refine hsecond fun second => .ite (fun _ => ?_) fun _ => hexpression.map Field.positional
    refine agree_name_bind fun key => ?_
    exact sim.advance_any_bind fun _ _ _ => hexpression.map (Field.named key)

theorem agree_block
    (hdeeper : sim.Descends n deeper other) :
    sim.Agree n n front deeper.block other.block :=
  (hdeeper.phrase .block).weaken

theorem agree_operation
    (hdeeper : sim.Descends n deeper other)
    (least : Nat) :
    sim.Agree n n front (deeper.operation least) (other.operation least) :=
  (hdeeper.phrase (.expression least)).weaken

theorem agree_expression
    (hdeeper : sim.Descends n deeper other) :
    sim.Agree n n front deeper.expression other.expression :=
  agree_operation hdeeper _

/-- Lists of expressions agree, as each expression in them does. -/
theorem agree_expressionList
    (hdeeper : sim.Descends n deeper other) :
    sim.Agree n n front deeper.expressionList other.expressionList :=
  agree_commaSeparated (agree_expression hdeeper)

/-! ## Functions and tables -/

/-- Parameters agree without any phrase below them. -/
theorem agree_parameters :
    sim.Agree n n front (loop parameterStep []) (loop parameterStep []) := by
  refine agree_loop (fun parameters => ?_) []
  refine agree_peekKind_bind fun kind _ => ?_
  split
  · exact agree_advance_bind (by decide) fun _ _ _ => .pure _ (Nat.le_refl n)
  · refine agree_name_bind fun id => ?_
    exact agree_accept_ite (by decide) (.pure _ (Nat.le_refl n)) (.pure _ (Nat.le_refl n))
  · exact agree_unexpected _

/-- Functions agree with one token more: the parenthesis in front of their parameters. -/
theorem agree_functionBody
    (hdeeper : sim.Descends n deeper other) :
    sim.Agree (n + 1) n front (functionBody deeper) (functionBody other) := by
  refine agree_expect_bind (by decide) ?_
  refine agree_peekKind_bind fun kind _ => ?_
  have hrest : ∀ {front : Kind → Prop} (parameters : List Expr), sim.Agree n n front
      (do
        expectSymbol .rparen
        let body ← deeper.block
        expectWord .end_
        return (parameters, body))
      (do
        expectSymbol .rparen
        let body ← other.block
        expectWord .end_
        return (parameters, body)) := by
    intro front parameters
    refine agree_expect_bind (by decide) ?_
    refine (agree_block hdeeper).bind fun body => ?_
    exact agree_expect_map (by decide) (parameters, body)
  exact .ite (fun _ => (Simulation.Agree.pure [] (Nat.le_refl n)).bind hrest) fun _ =>
    agree_parameters.bind hrest

theorem agree_positional
    (hdeeper : sim.Descends n deeper other) :
    sim.Agree n n front
      (deeper.expression >>= fun value => pure (Field.positional value))
      (other.expression >>= fun value => pure (Field.positional value)) :=
  (agree_expression hdeeper).map Field.positional

/-- Entries of tables agree; the ones that begin with a name do so by assumption. -/
theorem agree_field
    (hdeeper : sim.Descends n deeper other) :
    sim.Agree n n front (field deeper) (field other) := by
  refine agree_peekKind_bind fun kind _ => ?_
  split
  · refine agree_advance_bind (by decide) fun _ _ _ => ?_
    refine (agree_expression hdeeper).bind fun key => ?_
    refine agree_expect_bind (by decide) ?_
    refine agree_expect_bind (by decide) ?_
    exact (agree_expression hdeeper).map (Field.bracketed key)
  · exact hdeeper.fieldAtName
  · exact agree_positional hdeeper

/-- All entries of a table agree, round by round. -/
theorem agree_fields
    (hdeeper : sim.Descends n deeper other) :
    sim.Agree n n front (loop (fieldStep deeper) []) (loop (fieldStep other) []) := by
  refine agree_loop (fun fields => ?_) []
  refine agree_peekKind_bind fun kind _ => .ite (fun _ => .pure _ (Nat.le_refl n)) fun _ => ?_
  refine (agree_field hdeeper).bind fun field => ?_
  refine agree_accept_ite (by decide) (.pure _ (Nat.le_refl n)) ?_
  exact agree_accept_ite (by decide) (.pure _ (Nat.le_refl n)) (.pure _ (Nat.le_refl n))

/-- Tables agree with one token more, the brace. -/
theorem agree_table
    (hdeeper : sim.Descends n deeper other) :
    sim.Agree (n + 1) n front (table deeper) (table other) := by
  refine agree_expect_bind (by decide) ?_
  refine (agree_fields hdeeper).bind fun fields => ?_
  exact agree_expect_map (by decide) (Expr.table fields)

/-! ## Expressions -/

/-- Arguments agree with one token more: a parenthesis, a brace or a string. -/
theorem agree_arguments
    (hdeeper : sim.Descends n deeper other) :
    sim.Agree (n + 1) n front (arguments deeper) (arguments other) := by
  refine agree_peekKind_bind fun kind _ => ?_
  split
  · refine agree_advance_bind (by decide) fun _ _ _ => ?_
    refine agree_peekKind_bind fun next _ => ?_
    refine .ite (fun _ => ?_) fun _ => ?_
    · exact (Simulation.Agree.pure [] (Nat.le_refl n)).bind fun values =>
        agree_expect_map (by decide) values
    · exact (agree_expressionList hdeeper).bind fun values => agree_expect_map (by decide) values
  · exact (agree_table hdeeper).map fun table => [table]
  · refine agree_advance_bind (by simp) fun token other hsame => ?_
    rw [sim.text_eq hsame]
    exact .pure _ (Nat.le_refl n)
  · exact agree_unexpected _

/-- Primary expressions agree with one token more: a name or a parenthesis. -/
theorem agree_primary
    (hdeeper : sim.Descends n deeper other) :
    sim.Agree (n + 1) n front (primary deeper) (primary other) := by
  refine agree_peekKind_bind fun kind _ => ?_
  split
  · exact agree_name_map Expr.name
  · refine agree_advance_bind (by decide) fun _ _ _ => ?_
    refine (agree_expression hdeeper).bind fun value => ?_
    exact agree_expect_map (by decide) value
  · exact agree_unexpected _

/-- Suffixes agree round by round; each one begins with a token of its own. -/
theorem agree_suffixes
    (hdeeper : sim.Descends n deeper other)
    (value : Expr) :
    sim.Agree n n front (loop (suffixStep deeper) value)
      (loop (suffixStep other) value) := by
  refine agree_loop (fun value => ?_) value
  have hcall : ∀ {front : Kind → Prop}, sim.Agree n n front
      (arguments deeper >>= fun values => pure (Step.again (Expr.call value values)))
      (arguments other >>= fun values => pure (Step.again (Expr.call value values))) :=
    ((agree_arguments hdeeper).narrow (Nat.le_succ n)).map _
  refine agree_peekKind_bind fun kind _ => ?_
  split
  · refine agree_advance_bind (by decide) fun _ _ _ => ?_
    exact agree_name_map fun key => Step.again (Expr.dot value key)
  · refine agree_advance_bind (by decide) fun _ _ _ => ?_
    refine (agree_expression hdeeper).bind fun key => ?_
    exact agree_expect_map (by decide) (Step.again (Expr.bracket value key))
  · refine agree_advance_bind (by decide) fun _ _ _ => ?_
    refine agree_name_bind fun method => ?_
    exact ((agree_arguments hdeeper).narrow (Nat.le_succ n)).map fun values =>
      Step.again (Expr.invoke value method values)
  · exact hcall
  · exact hcall
  · exact hcall
  · exact .pure _ (Nat.le_refl n)

/-- Expressions of accesses and calls agree with the token that they begin with. -/
theorem agree_suffixed
    (hdeeper : sim.Descends n deeper other) :
    sim.Agree (n + 1) n front (suffixed deeper) (suffixed other) :=
  (agree_primary hdeeper).bind (agree_suffixes hdeeper)

/-- Expressions without operators agree; an unreadable numeral is the same error in both. -/
theorem agree_simple
    (hdeeper : sim.Descends n deeper other) :
    sim.Agree (n + 1) n front (simple deeper) (simple other) := by
  refine agree_peekKind_bind fun kind _ => ?_
  split
  · exact agree_advance_bind (by decide) fun _ _ _ => .pure _ (Nat.le_refl n)
  · exact agree_advance_bind (by decide) fun _ _ _ => .pure _ (Nat.le_refl n)
  · exact agree_advance_bind (by decide) fun _ _ _ => .pure _ (Nat.le_refl n)
  · exact agree_advance_bind (by decide) fun _ _ _ => .pure _ (Nat.le_refl n)
  · exact sim.numeral
  · refine agree_advance_bind (by simp) fun token other hsame => ?_
    rw [sim.text_eq hsame]
    exact .pure _ (Nat.le_refl n)
  · refine agree_expect_bind (by decide) ?_
    exact ((agree_functionBody hdeeper).narrow (Nat.le_succ n)).map fun function =>
      Expr.function function.1 function.2
  · exact agree_table hdeeper
  · exact agree_suffixed hdeeper

/-- Operands agree with one token more, which is an operator or begins a simple expression. -/
theorem agree_operand
    (hdeeper : sim.Descends n deeper other) :
    sim.Agree (n + 1) n front (operand deeper) (operand other) := by
  refine agree_peekKind_bind fun kind _ => ?_
  split
  · rename_i op hop
    have hkind : kind ≠ .eof := by
      rintro rfl
      cases hop
    refine agree_advance_bind hkind fun _ _ _ => ?_
    exact (agree_operation hdeeper _).map (Expr.unary op)
  · exact agree_simple hdeeper

/-- Operators agree round by round, for any precedence that is asked for. -/
theorem agree_operators
    (hdeeper : sim.Descends n deeper other)
    (least : Nat)
    (left : Expr) :
    sim.Agree n n front (loop (operatorStep deeper least) left)
      (loop (operatorStep other least) left) := by
  refine agree_loop (fun left => ?_) left
  refine agree_peekKind_bind fun kind _ => ?_
  split
  · rename_i op hop
    have hkind : kind ≠ .eof := by
      rintro rfl
      cases hop
    refine .ite (fun _ => .pure _ (Nat.le_refl n)) fun _ => ?_
    refine agree_advance_bind hkind fun _ _ _ => ?_
    exact (agree_operation hdeeper _).map fun right => Step.again (Expr.binary op left right)
  · exact .pure _ (Nat.le_refl n)

/-- Expressions agree with one token more than those below them. -/
theorem agree_expressionAt
    (hdeeper : sim.Descends n deeper other)
    (least : Nat) :
    sim.Agree (n + 1) n front (expression deeper least) (expression other least) :=
  (agree_operand hdeeper).bind (agree_operators hdeeper least)

/-! ## Statements -/

theorem agree_loopBody
    (hdeeper : sim.Descends n deeper other) :
    sim.Agree (n + 1) n front (loopBody deeper) (loopBody other) := by
  refine agree_expect_bind (by decide) ?_
  refine (agree_block hdeeper).bind fun body => ?_
  exact agree_expect_map (by decide) body

/-- The body of a loop behind its head. -/
theorem agree_laterBody
    (hdeeper : sim.Descends n deeper other) :
    sim.Agree n n front (loopBody deeper) (loopBody other) :=
  (agree_loopBody hdeeper).narrow (Nat.le_succ n)

theorem agree_whileStatement
    (hdeeper : sim.Descends n deeper other) :
    sim.Agree (n + 1) n front (whileStatement deeper) (whileStatement other) := by
  refine agree_expect_bind (by decide) ?_
  refine (agree_expression hdeeper).bind fun test => ?_
  exact (agree_laterBody hdeeper).map (Stmt.whileLoop test)

theorem agree_doStatement
    (hdeeper : sim.Descends n deeper other) :
    sim.Agree (n + 1) n front (doStatement deeper) (doStatement other) :=
  (agree_loopBody hdeeper).map Stmt.doBlock

theorem agree_repeatStatement
    (hdeeper : sim.Descends n deeper other) :
    sim.Agree (n + 1) n front (repeatStatement deeper) (repeatStatement other) := by
  refine agree_expect_bind (by decide) ?_
  refine (agree_block hdeeper).bind fun body => ?_
  refine agree_expect_bind (by decide) ?_
  exact (agree_expression hdeeper).map (Stmt.repeatLoop body)

/-- Conditions agree, with the blocks that depend on them. -/
theorem agree_guarded
    (hdeeper : sim.Descends n deeper other) :
    sim.Agree n n front (guarded deeper) (guarded other) := by
  refine (agree_expression hdeeper).bind fun test => ?_
  refine agree_expect_bind (by decide) ?_
  exact (agree_block hdeeper).map fun body => (test, body)

/-- Clauses agree round by round. -/
theorem agree_clauses
    (hdeeper : sim.Descends n deeper other) :
    sim.Agree n n front (loop (clauseStep deeper) []) (loop (clauseStep other) []) := by
  refine agree_loop (fun clauses => ?_) []
  exact agree_accept_ite (by decide)
    ((agree_guarded hdeeper).map fun clause => Step.again (clauses ++ [clause]))
    (.pure _ (Nat.le_refl n))

theorem agree_lastAlternative
    (hdeeper : sim.Descends n deeper other) :
    sim.Agree n n front (lastAlternative deeper) (lastAlternative other) :=
  agree_accept_ite (by decide) ((agree_block hdeeper).map fun body => some (ElseBranch.final body))
    (.pure _ (Nat.le_refl n))

/-- Conditions with all their alternatives agree. -/
theorem agree_ifStatement
    (hdeeper : sim.Descends n deeper other) :
    sim.Agree (n + 1) n front (ifStatement deeper) (ifStatement other) := by
  refine agree_expect_bind (by decide) ?_
  refine (agree_guarded hdeeper).bind fun clause => ?_
  refine (agree_clauses hdeeper).bind fun clauses => ?_
  refine (agree_lastAlternative hdeeper).bind fun last => ?_
  exact agree_expect_map (by decide) (Stmt.ifThen clause.1 clause.2 (chain clauses last))

theorem agree_loopStep
    (hdeeper : sim.Descends n deeper other) :
    sim.Agree n n front (loopStep deeper) (loopStep other) :=
  agree_accept_ite (by decide) (agree_expression hdeeper) (.pure _ (Nat.le_refl n))

/-- Loops agree, as both readers see the same token behind the first name. -/
theorem agree_forStatement
    (hdeeper : sim.Descends n deeper other) :
    sim.Agree (n + 1) n front (forStatement deeper) (forStatement other) := by
  refine agree_expect_bind (by decide) ?_
  refine agree_name_bind fun first => ?_
  have hgeneric : ∀ {front : Kind → Prop}, sim.Agree n n front
      (do
        let names ← moreItems name [first]
        expectWord .in_
        let iterators ← deeper.expressionList
        let body ← loopBody deeper
        return Stmt.genericFor names iterators body)
      (do
        let names ← moreItems name [first]
        expectWord .in_
        let iterators ← other.expressionList
        let body ← loopBody other
        return Stmt.genericFor names iterators body) := by
    intro front
    refine (agree_moreItems agree_name [first]).bind fun names => ?_
    refine agree_expect_bind (by decide) ?_
    refine (agree_expressionList hdeeper).bind fun iterators => ?_
    exact (agree_laterBody hdeeper).map (Stmt.genericFor names iterators)
  refine agree_peekKind_bind fun kind _ => ?_
  split
  · refine agree_advance_bind (by decide) fun _ _ _ => ?_
    refine (agree_expression hdeeper).bind fun start => ?_
    refine agree_expect_bind (by decide) ?_
    refine (agree_expression hdeeper).bind fun stop => ?_
    refine (agree_loopStep hdeeper).bind fun step => ?_
    exact (agree_laterBody hdeeper).map (Stmt.numericFor first start stop step)
  · exact hgeneric
  · exact hgeneric
  · exact agree_unexpected _

/-- Dotted names agree without any phrase below them. -/
theorem agree_path (value : Expr) :
    sim.Agree n n front (loop dottedStep value) (loop dottedStep value) := by
  refine agree_loop (fun value => ?_) value
  exact agree_accept_ite (by decide) (agree_name_map fun key => Step.again (Expr.dot value key))
    (.pure _ (Nat.le_refl n))

/-- The parameters and the body of a function behind what names it. -/
theorem agree_laterFunctionBody
    (hdeeper : sim.Descends n deeper other) :
    sim.Agree n n front (functionBody deeper) (functionBody other) :=
  (agree_functionBody hdeeper).narrow (Nat.le_succ n)

theorem agree_functionStatement
    (hdeeper : sim.Descends n deeper other) :
    sim.Agree (n + 1) n front (functionStatement deeper) (functionStatement other) := by
  refine agree_expect_bind (by decide) ?_
  refine agree_name_bind fun first => ?_
  refine (agree_path _).bind fun path => ?_
  refine agree_accept_ite (by decide) ?_ ?_
  · refine agree_name_bind fun method => ?_
    exact (agree_laterFunctionBody hdeeper).map fun function =>
      Stmt.method path method function.1 function.2
  · exact (agree_laterFunctionBody hdeeper).map fun function =>
      Stmt.function path function.1 function.2

theorem agree_initialValues
    (hdeeper : sim.Descends n deeper other) :
    sim.Agree n n front (initialValues deeper) (initialValues other) :=
  agree_accept_ite (by decide) (agree_expressionList hdeeper) (.pure _ (Nat.le_refl n))

/-- Local functions and declarations agree. -/
theorem agree_localStatement
    (hdeeper : sim.Descends n deeper other) :
    sim.Agree (n + 1) n front (localStatement deeper) (localStatement other) := by
  refine agree_expect_bind (by decide) ?_
  refine agree_accept_ite (by decide) ?_ ?_
  · refine agree_name_bind fun id => ?_
    exact (agree_laterFunctionBody hdeeper).map fun function =>
      Stmt.localFunction id function.1 function.2
  · refine (agree_commaSeparated agree_name).bind fun names => ?_
    exact (agree_initialValues hdeeper).map (Stmt.localAssign (names.map Expr.name))

theorem agree_labelStatement :
    sim.Agree (n + 1) n front labelStatement labelStatement := by
  refine agree_expect_bind (by decide) ?_
  refine agree_name_bind fun id => ?_
  exact agree_expect_map (by decide) (Stmt.label id)

/-- The check of a target fails in both readers, at tokens that correspond. -/
theorem agree_checkTarget
    (value : Expr)
    {start start' : Token}
    (hstart : sim.same start start') :
    sim.Agree n n front (checkTarget value start.span) (checkTarget value start'.span) :=
  .ite (fun _ => .pure value (Nat.le_refl n)) fun _ => (sim.notAssignable hstart).weaken

/-- Assignment targets agree, for both readers remember the token in front of them. -/
theorem agree_target
    (hdeeper : sim.Descends n deeper other) :
    sim.Agree n n front (target deeper) (target other) := by
  refine agree_peek_bind fun start start' hstart => ?_
  refine ((agree_suffixed hdeeper).narrow (Nat.le_succ n)).bind fun value => ?_
  exact agree_checkTarget value hstart

/-- Assignments and calls agree with one token more. -/
theorem agree_expressionStatement
    (hdeeper : sim.Descends n deeper other) :
    sim.Agree (n + 1) n front (expressionStatement deeper) (expressionStatement other) := by
  refine agree_peek_bind fun start start' hstart => ?_
  refine (agree_suffixed hdeeper).bind fun value => ?_
  have hassign : ∀ {front : Kind → Prop}, sim.Agree n n front
      (do
        let first ← checkTarget value start.span
        let targets ← moreItems (target deeper) [first]
        expectSymbol .eq
        let values ← deeper.expressionList
        return Stmt.assign targets values)
      (do
        let first ← checkTarget value start'.span
        let targets ← moreItems (target other) [first]
        expectSymbol .eq
        let values ← other.expressionList
        return Stmt.assign targets values) := by
    intro front
    refine (agree_checkTarget value hstart).bind fun first => ?_
    refine (agree_moreItems (agree_target hdeeper) [first]).bind fun targets => ?_
    refine agree_expect_bind (by decide) ?_
    exact (agree_expressionList hdeeper).map (Stmt.assign targets)
  refine agree_peekKind_bind fun kind _ => ?_
  split
  · exact hassign
  · exact hassign
  · exact .ite (fun _ => .pure _ (Nat.le_refl n)) fun _ => agree_unexpected _

/-- Statements agree with one token more than the phrases below them. -/
theorem agree_statement
    (hdeeper : sim.Descends n deeper other) :
    sim.Agree (n + 1) n front (statement deeper) (statement other) := by
  refine agree_peekKind_bind fun kind _ => ?_
  split
  · exact agree_advance_bind (by decide) fun _ _ _ => .pure _ (Nat.le_refl n)
  · exact agree_labelStatement
  · exact agree_advance_bind (by decide) fun _ _ _ => .pure _ (Nat.le_refl n)
  · refine agree_advance_bind (by decide) fun _ _ _ => ?_
    exact agree_name_map Stmt.goto
  · exact agree_whileStatement hdeeper
  · exact agree_doStatement hdeeper
  · exact agree_repeatStatement hdeeper
  · exact agree_ifStatement hdeeper
  · exact agree_forStatement hdeeper
  · exact agree_functionStatement hdeeper
  · exact agree_localStatement hdeeper
  · exact agree_expressionStatement hdeeper

/-! ## Blocks and programs -/

/-- Return statements agree, with or without values and semicolon. -/
theorem agree_returnStatement
    (hdeeper : sim.Descends n deeper other) :
    sim.Agree (n + 1) n front (returnStatement deeper) (returnStatement other) := by
  refine agree_expect_bind (by decide) ?_
  have hvalues : sim.Agree n n anyKind (returnedValues deeper) (returnedValues other) :=
    agree_peekKind_bind fun kind _ =>
      .ite (fun _ => .pure [] (Nat.le_refl n)) fun _ => agree_expressionList hdeeper
  refine hvalues.bind fun values => ?_
  exact agree_accept_bind (by decide) (.pure _ (Nat.le_refl n)) (.pure _ (Nat.le_refl n))

/-- Blocks agree although they may be empty: a statement begins with a token of its own. -/
theorem agree_blockAt
    (hdeeper : sim.Descends n deeper other) :
    sim.Agree (n + 1) (n + 1) front (block deeper) (block other) := by
  refine agree_loop (fun stmts => ?_) []
  refine agree_peekKind_bind fun kind _ => ?_
  refine .ite (fun _ => .pure _ (Nat.le_refl _)) fun _ => ?_
  refine .ite (fun _ => ?_) fun _ => ?_
  · exact ((agree_returnStatement hdeeper).widen (Nat.le_succ n)).map fun stmt =>
      Step.done (stmts ++ [stmt])
  · exact ((agree_statement hdeeper).widen (Nat.le_succ n)).map fun stmt =>
      Step.again (stmts ++ [stmt])

/-- Programs agree if their blocks do, and both readers ask for the end of the source. -/
theorem agree_program
    (hdeeper : sim.Descends n deeper other) :
    sim.Agree n n front (program deeper) (program other) := by
  refine (agree_block hdeeper).bind fun body => ?_
  refine agree_peekKind_bind fun kind _ => ?_
  exact .ite (fun _ => .pure _ (Nat.le_refl n)) fun _ => agree_unexpected _

end Grammar
end LuaView
