import LuaView.Proofs.Parsing.ReadingExpression

/-!
# Statements and programs are read back from their marks

The marks of a readable statement are read as that statement, in front of whatever may follow it: a
kind that ends the block, or the first mark of the next statement.  From this follows, by induction
on the budget of levels, that every block with fewer marks than levels is read back.
-/

namespace LuaView
namespace Kind

/-- A statement may end before the kind. -/
structure EndsStmt (wide : Bool) (kind : Kind) : Prop where
  exprs : kind.EndsExprs wide
  equals : kind ≠ .symbol .eq

/-- What ends a block ends a statement. -/
theorem EndsStmt.of_endsBlock
    {kind : Kind}
    (h : kind.endsBlock = true)
    (wide : Bool) :
    kind.EndsStmt wide := by
  cases kind with
  | keyword word => cases word <;> first | (cases h; done) | exact ⟨⟨⟨rfl, rfl⟩, nofun⟩, nofun⟩
  | eof => exact ⟨⟨⟨rfl, rfl⟩, nofun⟩, nofun⟩
  | _ => cases h

end Kind

/-! ## First marks -/

/-- The mark may be the first one of a statement. -/
structure Mark.StartsStmt (wide : Bool) (mark : Mark) : Prop where
  endsBlock : mark.kind.endsBlock = false
  endsStmt : mark.kind.EndsStmt wide
  hash : mark.kind ≠ .symbol .hash

theorem Mark.StartsStmt.of_startsStatement
    {mark : Mark}
    (h : mark.kind.startsStatement = true ∨ mark.kind = .keyword .return_)
    (wide : Bool) :
    mark.StartsStmt wide := by
  obtain ⟨kind, text⟩ := mark
  rcases h with h | rfl
  · cases kind with
    | keyword word =>
        cases word <;> first | (cases h; done) | exact ⟨rfl, ⟨⟨⟨rfl, rfl⟩, nofun⟩, nofun⟩, nofun⟩
    | symbol symbol =>
        cases symbol <;> first | (cases h; done) | exact ⟨rfl, ⟨⟨⟨rfl, rfl⟩, nofun⟩, nofun⟩, nofun⟩
    | _ => cases h
  · exact ⟨rfl, ⟨⟨⟨rfl, rfl⟩, nofun⟩, nofun⟩, nofun⟩

theorem Kind.ne_return_of_startsStatement
    {kind : Kind}
    (h : kind.startsStatement = true) :
    kind ≠ .keyword .return_ := by
  rintro rfl
  cases h

/-- The first mark of an expression that is accessed or called may start a statement. -/
theorem Expr.Fronts.startsStmt
    {wide : Bool}
    {value : Expr}
    {mark : Mark}
    (h : value.Fronts wide mark)
    (hhead : value.isHead false = true) :
    mark.StartsStmt wide ∧ mark.kind ≠ .keyword .return_ := by
  have hstarts := h.startsValue (Expr.isOperation_of_isHead hhead)
  have hname := fun hwide => h.isName hwide hhead
  obtain ⟨kind, text⟩ := mark
  cases kind with
  | keyword word =>
      cases word <;>
        first
        | (cases hstarts; done)
        | exact ⟨⟨rfl, ⟨⟨⟨rfl, rfl⟩, nofun⟩, nofun⟩, nofun⟩, nofun⟩
  | symbol symbol =>
      cases wide with
      | false => cases hname rfl
      | true =>
          cases symbol <;>
            first
            | (cases hstarts; done)
            | exact ⟨⟨rfl, ⟨⟨⟨rfl, rfl⟩, nofun⟩, nofun⟩, nofun⟩, nofun⟩
  | string delimiter =>
      cases wide with
      | false => cases hname rfl
      | true => exact ⟨⟨rfl, ⟨⟨⟨rfl, rfl⟩, nofun⟩, nofun⟩, nofun⟩, nofun⟩
  | number => exact ⟨⟨rfl, ⟨⟨⟨rfl, rfl⟩, nofun⟩, nofun⟩, nofun⟩, nofun⟩
  | name => exact ⟨⟨rfl, ⟨⟨⟨rfl, rfl⟩, nofun⟩, nofun⟩, nofun⟩, nofun⟩
  | eof => cases hstarts

theorem Expr.isHead_of_isAssignable
    {value : Expr}
    (h : value.isAssignable = true) :
    value.isHead false = true := by
  cases value with
  | name id => rfl
  | index value key style => rfl
  | _ => cases h

theorem Expr.isHead_of_isCall
    {value : Expr}
    (h : value.isCall = true) :
    value.isHead false = true := by
  cases value with
  | call callee arguments => rfl
  | invoke receiver method arguments => rfl
  | _ => cases h

/-- What follows a function at the front does so as well if more marks are appended. -/
theorem Mark.function_append
    {marks tail : List Mark}
    (hmarks : ∀ first more, marks = first :: more → first.kind = .keyword .function_ →
      ∃ others, more = .sign .lparen :: others)
    (hnonempty : marks ≠ [])
    {first : Mark}
    {more : List Mark}
    (h : marks ++ tail = first :: more)
    (hkind : first.kind = .keyword .function_) :
    ∃ others, more = .sign .lparen :: others := by
  cases marks with
  | nil => exact absurd rfl hnonempty
  | cons mark marks =>
      obtain ⟨rfl, rfl⟩ := List.cons.inj h
      obtain ⟨others, rfl⟩ := hmarks _ _ rfl hkind
      exact ⟨others ++ tail, rfl⟩

/-- A function at the front of an expression is followed by its parameters. -/
theorem Expr.marks_function
    {wide : Bool} :
    ∀ value : Expr, value.Obeys (.readable wide) → value.isOperation = false →
      ∀ first more, value.marks = first :: more → first.kind = .keyword .function_ →
        ∃ others, more = .sign .lparen :: others
  | .nil, _, _, _, _, h, hkind => by cases h; cases hkind
  | .boolean true, _, _, _, _, h, hkind => by cases h; cases hkind
  | .boolean false, _, _, _, _, h, hkind => by cases h; cases hkind
  | .varargs, _, _, _, _, h, hkind => by cases h; cases hkind
  | .number value, _, _, _, _, h, hkind => by cases h; cases hkind
  | .string text delimiter, _, _, _, _, h, hkind => by cases h; cases hkind
  | .name id, _, _, _, _, h, hkind => by cases h; cases hkind
  | .table fields, _, _, _, _, h, hkind => by cases h; cases hkind
  | .function parameters body, _, _, _, _, h, _ => ⟨_, (List.cons.inj h).2.symm⟩
  | .index value key .dot, hobeys, _, _, _, h, hkind =>
      Mark.function_append (Expr.marks_function value hobeys.2.1
        (Expr.isOperation_of_isHead hobeys.1.1)) (Expr.marks_ne_nil hobeys.2.1) h hkind
  | .index value key .bracket, hobeys, _, _, _, h, hkind =>
      Mark.function_append (Expr.marks_function value hobeys.2.1
        (Expr.isOperation_of_isHead hobeys.1.1)) (Expr.marks_ne_nil hobeys.2.1) h hkind
  | .call callee arguments, hobeys, _, _, _, h, hkind =>
      Mark.function_append (Expr.marks_function callee hobeys.2.1
        (Expr.isOperation_of_isHead hobeys.1)) (Expr.marks_ne_nil hobeys.2.1) h hkind
  | .invoke receiver method arguments, hobeys, _, _, _, h, hkind =>
      Mark.function_append (Expr.marks_function receiver hobeys.2.1
        (Expr.isOperation_of_isHead hobeys.1.1)) (Expr.marks_ne_nil hobeys.2.1) h hkind
  | .binary op left right, _, hoperation, _, _, _, _ => nomatch hoperation
  | .unary op operand, _, hoperation, _, _, _, _ => nomatch hoperation

/-- The first mark of a statement. -/
theorem Stmt.marks_front
    {wide : Bool}
    {stmt : Stmt}
    (h : stmt.Obeys (.readable wide)) :
    ∃ mark more, stmt.marks = mark :: more ∧ mark.StartsStmt wide ∧
      (stmt.isReturn = false → mark.kind ≠ .keyword .return_) := by
  have hstarted {front : Mark} {others : List Mark} (hfront : front.kind.startsStatement = true) :
      ∃ mark more, front :: others = mark :: more ∧ mark.StartsStmt wide ∧
        (stmt.isReturn = false → mark.kind ≠ .keyword .return_) :=
    ⟨_, _, rfl, .of_startsStatement (.inl hfront) wide, fun _ =>
      Kind.ne_return_of_startsStatement hfront⟩
  cases stmt with
  | assign targets values =>
      obtain ⟨⟨hnonempty, -, hassignable⟩, htargets, -⟩ := h
      cases targets with
      | nil => exact absurd rfl hnonempty
      | cons target targets =>
          obtain ⟨mark, more, hmarks, hfront⟩ := target.marks_front htargets.1
          have hhead := Expr.isHead_of_isAssignable
            (List.all_eq_true.mp hassignable target List.mem_cons_self)
          obtain ⟨hmark, hreturn⟩ := hfront.startsStmt hhead
          exact ⟨mark, _, by rw [Stmt.marks, Expr.marksOfEach, Mark.commas_cons, hmarks]; rfl,
            hmark, fun _ => hreturn⟩
  | expr value =>
      obtain ⟨mark, more, hmarks, hfront⟩ := value.marks_front h.2
      obtain ⟨hmark, hreturn⟩ := hfront.startsStmt (Expr.isHead_of_isCall h.1)
      exact ⟨mark, more, hmarks, hmark, fun _ => hreturn⟩
  | localAssign targets values =>
      cases values with
      | nil => exact hstarted rfl
      | cons value values => exact hstarted rfl
  | ifThen test body orelse =>
      cases orelse with
      | none => exact hstarted rfl
      | some orelse => exact hstarted rfl
  | returnValues values =>
      refine ⟨_, _, rfl, .of_startsStatement (.inr rfl) wide, fun hreturn => ?_⟩
      cases hreturn
  | _ => exact hstarted rfl

namespace PlainGrammar

open LuaView.Parser (Reads anyKind Step)
open LuaView.Parser.Reads

variable {wide : Bool}
variable {deeper : Descent}
variable {n : Nat}
variable {stop : Kind → Prop}

/-! ## Compound statements -/

theorem endsExpr_word
    {word : Keyword}
    (hword : word ≠ .and_ ∧ word ≠ .or_) :
    Kind.EndsExpr wide (.keyword word) := by
  cases word <;> first | exact ⟨rfl, rfl⟩ | exact absurd rfl hword.1 | exact absurd rfl hword.2

/-- The body of a loop is read back between its words. -/
theorem reads_loopBody
    (hdeeper : deeper.Covers wide n)
    {body : Block}
    (hbody : Block.Obeys (.readable wide) body)
    (hsize : (Stmt.marksOfAll body).length < n) :
    (Grammar.loopBody deeper).Reads (Mark.loopBody (Stmt.marksOfAll body)) anyKind body :=
  (expectWord .do_).bind_mark
    ((hdeeper.block body hbody hsize).bind ((expectWord .end_).bind_mark pure) rfl)

/-- A loop with its test in front is read back. -/
theorem reads_whileLoop
    (hdeeper : deeper.Covers wide n)
    {test : Expr}
    {body : Block}
    (h : (Stmt.whileLoop test body).Obeys (.readable wide))
    (hsize : (Stmt.whileLoop test body).marks.length ≤ n) :
    (Grammar.whileStatement deeper).Reads (Stmt.whileLoop test body).marks anyKind
      (.whileLoop test body) := by
  obtain ⟨-, htest, hblock, hbody⟩ := h
  simp only [Stmt.marks, Mark.loopBody, List.length_cons, List.length_append] at hsize
  refine (expectWord .while_).bind_mark ?_
  refine (hdeeper.expression test htest (by omega)).bind ?_ (endsExpr_word (by decide))
  exact (reads_loopBody hdeeper ⟨hblock, hbody⟩ (by omega)).map

/-- A block of its own is read back. -/
theorem reads_doBlock
    (hdeeper : deeper.Covers wide n)
    {body : Block}
    (h : (Stmt.doBlock body).Obeys (.readable wide))
    (hsize : (Stmt.doBlock body).marks.length ≤ n) :
    (Grammar.doStatement deeper).Reads (Stmt.doBlock body).marks anyKind (.doBlock body) := by
  simp only [Stmt.marks, Mark.loopBody, List.length_cons, List.length_append] at hsize
  exact (reads_loopBody hdeeper h.2 (by omega)).map

/-- A loop with its test behind the body is read back up to what ends the test. -/
theorem reads_repeatLoop
    (hdeeper : deeper.Covers wide n)
    {body : Block}
    {test : Expr}
    (h : (Stmt.repeatLoop body test).Obeys (.readable wide))
    (hsize : (Stmt.repeatLoop body test).marks.length ≤ n) :
    (Grammar.repeatStatement deeper).Reads (Stmt.repeatLoop body test).marks
      (Kind.EndsExpr wide) (.repeatLoop body test) := by
  obtain ⟨-, hblock, hbody, htest⟩ := h
  simp only [Stmt.marks, List.length_cons, List.length_append] at hsize
  refine (expectWord .repeat_).bind_mark ?_
  refine (hdeeper.block body ⟨hblock, hbody⟩ (by omega)).bind ?_ rfl
  exact (expectWord .until_).bind_mark (hdeeper.expression test htest (by omega)).map

/-! ## Conditions -/

/-- A test and the block that depends on it are read back. -/
theorem reads_guarded
    (hdeeper : deeper.Covers wide n)
    {test : Expr}
    {body : Block}
    (htest : test.Obeys (.readable wide))
    (hbody : Block.Obeys (.readable wide) body)
    (hsize : (test.marks ++ .word .then_ :: Stmt.marksOfAll body).length ≤ n) :
    (Grammar.guarded deeper).Reads (test.marks ++ .word .then_ :: Stmt.marksOfAll body)
      (fun kind => kind.endsBlock = true) (test, body) := by
  simp only [List.length_cons, List.length_append] at hsize
  refine (hdeeper.expression test htest (by omega)).bind ?_ (endsExpr_word (by decide))
  exact (expectWord .then_).bind_mark (hdeeper.block body hbody (by omega)).map

/-- The rest of a chain of conditions behind some of its clauses. -/
def restOfChain (deeper : Descent) (test : Expr) (body : Block) (clauses : List (Expr × Block)) :
    Parser Stmt := do
  let clauses ← Parser.loop (Grammar.clauseStep deeper) clauses
  let last ← Grammar.lastAlternative deeper
  Parser.expectWord .end_
  return .ifThen test body (Grammar.chain clauses last)

/-- A further clause at the end of a chain is the alternative of the one before it. -/
theorem chain_append
    (clauses : List (Expr × Block))
    (test : Expr)
    (body : Block)
    (orelse : Option ElseBranch) :
    Grammar.chain (clauses ++ [(test, body)]) orelse =
      Grammar.chain clauses (some (.elseIf test body orelse)) := by
  rw [Grammar.chain, List.foldr_append]
  rfl

/-- A chain without further alternatives is closed by its last word. -/
theorem reads_noOrelse (test : Expr) (body : Block) (clauses : List (Expr × Block)) :
    (restOfChain deeper test body clauses).Reads [.word .end_] anyKind
      (.ifThen test body (Grammar.chain clauses none)) := by
  have hloop : Reads (Parser.loop (Grammar.clauseStep deeper) clauses) [] (· ≠ .keyword .elseif_)
      clauses :=
    loop_done (bind_nil (acceptWord_other .elseif_) pure fun _ hkind => hkind)
  have hlast : (Grammar.lastAlternative deeper).Reads [] (· ≠ .keyword .else_) none :=
    bind_nil (acceptWord_other .else_) pure fun _ hkind => hkind
  refine hloop.bind_nil ?_ nofun
  refine hlast.bind_nil ?_ nofun
  exact (expectWord .end_).bind_mark pure

/-- A clause in front of the others. -/
theorem reads_clause
    (hdeeper : deeper.Covers wide n)
    {test : Expr}
    {body : Block}
    {clauses : List (Expr × Block)}
    {next : Expr}
    {then_ : Block}
    (hnext : next.Obeys (.readable wide))
    (hthen : Block.Obeys (.readable wide) then_)
    (hsize : (next.marks ++ .word .then_ :: Stmt.marksOfAll then_).length ≤ n)
    {more : List Mark}
    {result : Stmt}
    (hrest : (restOfChain deeper test body (clauses ++ [(next, then_)])).Reads more anyKind result)
    (hleads : Mark.Leads more anyKind fun kind => kind.endsBlock = true) :
    (restOfChain deeper test body clauses).Reads
      (.word .elseif_ :: (next.marks ++ .word .then_ :: Stmt.marksOfAll then_) ++ more) anyKind
      result := by
  have hstep : (Grammar.clauseStep deeper clauses).Reads
      (.word .elseif_ :: (next.marks ++ .word .then_ :: Stmt.marksOfAll then_))
      (fun kind => kind.endsBlock = true) (.again (clauses ++ [(next, then_)])) :=
    (acceptWord .elseif_).bind_mark (reads_guarded hdeeper hnext hthen hsize).map
  exact loop_again hstep (List.cons_ne_nil _ _) hrest hleads

/-- Every alternative begins with a word that ends the block before it. -/
theorem leads_orelse (orelse : ElseBranch) (more : List Mark) :
    Mark.Leads (orelse.marks ++ more) anyKind fun kind => kind.endsBlock = true := by
  cases orelse with
  | elseIf test body orelse => cases orelse <;> rfl
  | final body => rfl

/-- Alternatives are read back behind the clauses already read, by recursion on the chain. -/
theorem reads_orelse
    (hdeeper : deeper.Covers wide n)
    (test : Expr)
    (body : Block) :
    ∀ orelse : ElseBranch, orelse.Obeys (.readable wide) → orelse.marks.length ≤ n →
      ∀ clauses : List (Expr × Block),
        (restOfChain deeper test body clauses).Reads (orelse.marks ++ [.word .end_]) anyKind
          (.ifThen test body (Grammar.chain clauses (some orelse)))
  | .final last, h, hsize, clauses => by
      rw [ElseBranch.marks, List.length_cons] at hsize
      have hloop : Reads (Parser.loop (Grammar.clauseStep deeper) clauses) []
          (· ≠ .keyword .elseif_) clauses :=
        loop_done (bind_nil (acceptWord_other .elseif_) pure fun _ hkind => hkind)
      have hlast : (Grammar.lastAlternative deeper).Reads (.word .else_ :: Stmt.marksOfAll last)
          (fun kind => kind.endsBlock = true) (some (.final last)) :=
        (acceptWord .else_).bind_mark (hdeeper.block last h (by omega)).map
      refine hloop.bind_nil ?_ nofun
      refine hlast.bind ?_ rfl
      exact (expectWord .end_).bind_mark pure
  | .elseIf next then_ none, h, hsize, clauses => by
      obtain ⟨hnext, hblock, hthen⟩ := h
      rw [ElseBranch.marks, List.length_cons] at hsize
      rw [← chain_append, ElseBranch.marks]
      exact reads_clause hdeeper hnext ⟨hblock, hthen⟩ (by omega) (reads_noOrelse _ _ _) rfl
  | .elseIf next then_ (some orelse), h, hsize, clauses => by
      obtain ⟨hnext, hblock, hthen, horelse⟩ := h
      simp only [ElseBranch.marks, List.length_cons, List.length_append] at hsize
      have hlength : (next.marks ++ .word .then_ :: Stmt.marksOfAll then_).length ≤ n := by
        simp only [List.length_cons, List.length_append]
        omega
      have hrest := reads_orelse hdeeper test body orelse horelse (by omega)
        (clauses ++ [(next, then_)])
      have hmarks : (ElseBranch.elseIf next then_ (some orelse)).marks ++ [.word .end_] =
          .word .elseif_ :: (next.marks ++ .word .then_ :: Stmt.marksOfAll then_) ++
            (orelse.marks ++ [.word .end_]) := by
        simp [ElseBranch.marks]
      rw [← chain_append, hmarks]
      exact reads_clause hdeeper hnext ⟨hblock, hthen⟩ hlength hrest (leads_orelse orelse _)

/-- A condition is read back with its alternatives. -/
theorem reads_ifThen
    (hdeeper : deeper.Covers wide n)
    {test : Expr}
    {body : Block}
    {orelse : Option ElseBranch}
    (h : (Stmt.ifThen test body orelse).Obeys (.readable wide))
    (hsize : (Stmt.ifThen test body orelse).marks.length ≤ n) :
    (Grammar.ifStatement deeper).Reads (Stmt.ifThen test body orelse).marks anyKind
      (.ifThen test body orelse) := by
  have hstart : ∀ more, Block.Obeys (.readable wide) body → test.Obeys (.readable wide) →
      (test.marks ++ .word .then_ :: Stmt.marksOfAll body).length ≤ n →
      (restOfChain deeper test body []).Reads more anyKind (.ifThen test body orelse) →
      Mark.Leads more anyKind (fun kind => kind.endsBlock = true) →
      (Grammar.ifStatement deeper).Reads
        (.word .if_ :: ((test.marks ++ .word .then_ :: Stmt.marksOfAll body) ++ more)) anyKind
        (.ifThen test body orelse) := by
    intro more hbody htest hlength hrest hleads
    exact (expectWord .if_).bind_mark
      ((reads_guarded hdeeper htest hbody hlength).bind hrest hleads)
  cases orelse with
  | none =>
      obtain ⟨-, htest, hblock, hbody⟩ := h
      simp only [Stmt.marks, List.length_cons, List.length_append] at hsize
      have hread := hstart [.word .end_] ⟨hblock, hbody⟩ htest
        (by simp only [List.length_cons, List.length_append]; omega)
        (reads_noOrelse test body []) rfl
      rw [List.append_assoc] at hread
      exact hread
  | some orelse =>
      obtain ⟨-, htest, hblock, hbody, horelse⟩ := h
      simp only [Stmt.marks, List.length_cons, List.length_append] at hsize
      have hread := hstart (orelse.marks ++ [.word .end_]) ⟨hblock, hbody⟩ htest
        (by simp only [List.length_cons, List.length_append]; omega)
        (reads_orelse hdeeper test body orelse horelse (by omega) []) (leads_orelse orelse _)
      rw [List.append_assoc] at hread
      exact hread

/-! ## Loops with a counter and over iterators -/

/-- The step of a loop, which is not written if it is one. -/
theorem reads_loopStep
    (hdeeper : deeper.Covers wide n)
    {step : Expr}
    (hstep : step.Obeys (.readable wide))
    (hdefault : step.isDefaultStep = true → step = .int 1)
    (hsize : (if step.isDefaultStep then [] else Mark.sign .comma :: step.marks).length ≤ n) :
    (Grammar.loopStep deeper).Reads
      (if step.isDefaultStep then [] else .sign .comma :: step.marks)
      (· = .keyword .do_) step := by
  cases h : step.isDefaultStep with
  | true =>
      obtain rfl := hdefault h
      exact bind_nil (acceptSymbol_other .comma) pure fun _ hkind => by rw [hkind]; exact nofun
  | false =>
      rw [h] at hsize
      refine (acceptSymbol .comma).bind_mark ((hdeeper.expression step hstep hsize).mono ?_)
      rintro _ rfl
      exact endsExpr_word (by decide)

/-- A counting loop is read back, with its step or without it. -/
theorem reads_numericFor
    (hdeeper : deeper.Covers wide n)
    {counter : Name}
    {start limit step : Expr}
    {body : Block}
    (h : (Stmt.numericFor counter start limit step body).Obeys (.readable wide))
    (hsize : (Stmt.numericFor counter start limit step body).marks.length ≤ n) :
    (Grammar.forStatement deeper).Reads (Stmt.numericFor counter start limit step body).marks
      anyKind (.numericFor counter start limit step body) := by
  obtain ⟨⟨-, hdefault⟩, hstart, hlimit, hstep, hblock, hbody⟩ := h
  rw [Stmt.marks] at hsize ⊢
  simp only [Mark.loopBody, List.length_cons, List.length_append] at hsize
  have hsteps := reads_loopStep hdeeper hstep hdefault (by omega)
  have hbodies := reads_loopBody hdeeper ⟨hblock, hbody⟩ (by omega)
  refine (expectWord .for_).bind_mark ((Parser.Reads.name counter).bind_mark (peekKind ?_))
  refine advance nofun fun _ _ => ?_
  refine (hdeeper.expression start hstart (by omega)).bind ?_ endsExpr_comma
  refine (expectSymbol .comma).bind_mark ?_
  refine (hdeeper.expression limit hlimit (by omega)).bind (hsteps.bind hbodies.map rfl) ?_
  cases step.isDefaultStep with
  | true => exact endsExpr_word (by decide)
  | false => exact endsExpr_comma

/-- A loop over iterators is read back. -/
theorem reads_genericFor
    (hdeeper : deeper.Covers wide n)
    {names : List Name}
    {iterators : List Expr}
    {body : Block}
    (h : (Stmt.genericFor names iterators body).Obeys (.readable wide))
    (hsize : (Stmt.genericFor names iterators body).marks.length ≤ n) :
    (Grammar.forStatement deeper).Reads (Stmt.genericFor names iterators body).marks anyKind
      (.genericFor names iterators body) := by
  obtain ⟨⟨hnames, hnonempty, -⟩, hiterators, hblock, hbody⟩ := h
  rw [Stmt.marks] at hsize ⊢
  simp only [Mark.loopBody, List.length_cons, List.length_append] at hsize
  cases names with
  | nil => exact absurd rfl hnames
  | cons first names =>
      have hmore : (Parser.moreItems Parser.name [first] : Parser (List Name)).Reads
          (names.flatMap fun id => [.sign .comma, .name id])
          (fun kind => anyKind kind ∧ kind ≠ .symbol .comma) (first :: names) :=
        moreItems (fun id _ => Parser.Reads.name id) trivial [first]
      have hlist := reads_expressionList hdeeper hnonempty hiterators (by omega)
      have hbodies := reads_loopBody hdeeper ⟨hblock, hbody⟩ (by omega)
      have hrest : Reads
          (do
            let names ← Parser.moreItems Parser.name [first]
            Parser.expectWord .in_
            let iterators ← deeper.expressionList
            let body ← Grammar.loopBody deeper
            return Stmt.genericFor names iterators body)
          ((names.flatMap fun id => [.sign .comma, .name id]) ++ .word .in_ ::
            (Mark.commas (Expr.marksOfEach iterators) ++ Mark.loopBody (Stmt.marksOfAll body)))
          anyKind (.genericFor (first :: names) iterators body) := by
        refine hmore.bind ?_ ⟨trivial, nofun⟩
        refine (expectWord .in_).bind_mark ?_
        exact hlist.bind hbodies.map ⟨endsExpr_word (by decide), nofun⟩
      rw [List.map_cons, Mark.commas_cons, List.flatMap_map]
      refine (expectWord .for_).bind_mark ((Parser.Reads.name first).bind_mark ?_)
      cases names with
      | nil => exact peekKind hrest
      | cons second names => exact peekKind hrest

/-! ## Functions with a name -/

/-- The marks of a dotted name are a name and the parts behind it, which are read one by one. -/
theorem dotted_chain :
    ∀ path : Expr, path.isDotted = true → ∃ first more, path.marks = .name first :: more ∧
      ∀ words rest : List Token, words.map Token.mark = more →
        Parser.loop Grammar.dottedStep (.name first) (words ++ rest) =
          Parser.loop Grammar.dottedStep path rest
  | .name id, _ => ⟨id, [], rfl, fun _ _ hwords => by
      obtain rfl := List.map_eq_nil_iff.mp hwords
      rfl⟩
  | .index value (.name id) .dot, h => by
      obtain ⟨first, more, hmarks, hchain⟩ := dotted_chain value h
      have hstep : (Grammar.dottedStep value : Parser (Parser.Step Expr)).Reads
          [.sign .dot, .name id] anyKind (.again (.dot value id)) :=
        (acceptSymbol .dot).bind_mark (Parser.Reads.name id).map
      refine ⟨first, more ++ [.sign .dot, .name id], by rw [Expr.marks, hmarks]; rfl, ?_⟩
      intro words rest hwords
      obtain ⟨before, last, rfl, hbefore, hlast⟩ := List.map_eq_append_iff.mp hwords
      rw [List.append_assoc, hchain before _ hbefore,
        loop_eq hstep (List.cons_ne_nil _ _) hlast trivial]
      rfl

/-- A dotted name is read back from its first name on. -/
theorem reads_dotted
    {path : Expr}
    (hpath : path.isDotted = true) :
    ∃ first more, path.marks = .name first :: more ∧
      Reads (Parser.loop Grammar.dottedStep (.name first)) more (· ≠ .symbol .dot) path := by
  obtain ⟨first, more, hmarks, hchain⟩ := dotted_chain path hpath
  refine ⟨first, more, hmarks, fun words rest hwords hrest => ?_⟩
  have hdone : Reads (Parser.loop Grammar.dottedStep path) [] (· ≠ .symbol .dot) path :=
    loop_done (bind_nil (acceptSymbol_other .dot) pure fun _ hkind => hkind)
  rw [hchain words rest hwords]
  exact hdone [] rest rfl hrest

/-- A function statement is read back. -/
theorem reads_function
    (hdeeper : deeper.Covers wide n)
    {name : Expr}
    {parameters : List Expr}
    {body : Block}
    (h : (Stmt.function name parameters body).Obeys (.readable wide))
    (hsize : (Stmt.function name parameters body).marks.length ≤ n) :
    (Grammar.functionStatement deeper).Reads (Stmt.function name parameters body).marks anyKind
      (.function name parameters body) := by
  obtain ⟨⟨hname, hparameters⟩, -, -, hblock, hbody⟩ := h
  rw [Stmt.marks] at hsize ⊢
  simp only [Mark.functionBody, List.length_cons, List.length_append] at hsize
  obtain ⟨first, more, hmarks, hpath⟩ := reads_dotted hname
  have hbodies := reads_functionBody hdeeper hparameters ⟨hblock, hbody⟩ (by omega)
  rw [hmarks]
  refine (expectWord .function_).bind_mark ((Parser.Reads.name first).bind_mark ?_)
  refine hpath.bind ?_ (by rintro ⟨⟩)
  refine bind_nil (acceptSymbol_other .colon) ?_ (by rintro ⟨⟩)
  exact hbodies.map

/-- A method is read back, with the colon in its name. -/
theorem reads_method
    (hdeeper : deeper.Covers wide n)
    {receiver : Expr}
    {name : Name}
    {parameters : List Expr}
    {body : Block}
    (h : (Stmt.method receiver name parameters body).Obeys (.readable wide))
    (hsize : (Stmt.method receiver name parameters body).marks.length ≤ n) :
    (Grammar.functionStatement deeper).Reads (Stmt.method receiver name parameters body).marks
      anyKind (.method receiver name parameters body) := by
  obtain ⟨⟨hreceiver, -, hparameters⟩, -, -, hblock, hbody⟩ := h
  rw [Stmt.marks] at hsize ⊢
  simp only [Mark.functionBody, List.length_cons, List.length_append] at hsize
  obtain ⟨first, more, hmarks, hpath⟩ := reads_dotted hreceiver
  have hbodies := reads_functionBody hdeeper hparameters ⟨hblock, hbody⟩ (by omega)
  rw [hmarks]
  refine (expectWord .function_).bind_mark ((Parser.Reads.name first).bind_mark ?_)
  refine hpath.bind ?_ (by rintro ⟨⟩)
  refine (acceptSymbol .colon).bind_mark ((Parser.Reads.name name).bind_mark ?_)
  exact hbodies.map

theorem reads_localFunction
    (hdeeper : deeper.Covers wide n)
    {name : Name}
    {parameters : List Expr}
    {body : Block}
    (h : (Stmt.localFunction name parameters body).Obeys (.readable wide))
    (hsize : (Stmt.localFunction name parameters body).marks.length ≤ n) :
    (Grammar.localStatement deeper).Reads (Stmt.localFunction name parameters body).marks
      anyKind (.localFunction name parameters body) := by
  obtain ⟨⟨-, hparameters⟩, -, hblock, hbody⟩ := h
  rw [Stmt.marks] at hsize ⊢
  simp only [Mark.functionBody, List.length_cons, List.length_append] at hsize
  have hbodies := reads_functionBody hdeeper hparameters ⟨hblock, hbody⟩ (by omega)
  refine (expectWord .local_).bind_mark ((acceptWord .function_).bind_mark ?_)
  exact (Parser.Reads.name name).bind_mark hbodies.map

/-! ## Declarations and assignments -/

/-- Targets that are all names are a list of names. -/
theorem exists_names
    {targets : List Expr}
    (h : targets.all Expr.isName = true) :
    ∃ names : List Name, targets = names.map .name := by
  induction targets with
  | nil => exact ⟨[], rfl⟩
  | cons target targets ih =>
      rw [List.all_cons, Bool.and_eq_true] at h
      obtain ⟨names, rfl⟩ := ih h.2
      cases target with
      | name id => exact ⟨id :: names, rfl⟩
      | _ => cases h.1

theorem reads_names
    {names : List Name}
    (hnames : names ≠ []) :
    (Parser.commaSeparated Parser.name : Parser (List Name)).Reads
      (Mark.commas (Expr.marksOfEach (names.map .name))) (· ≠ .symbol .comma) names := by
  have hmarks : Expr.marksOfEach (names.map .name) = names.map fun id => [Mark.name id] := by
    rw [Expr.marksOfEach_eq_map, List.map_map]
    rfl
  rw [hmarks]
  cases names with
  | nil => exact absurd rfl hnames
  | cons id names =>
      exact (commaSeparated (fun other _ => Parser.Reads.name other) trivial).mono
        fun _ hkind => ⟨trivial, hkind⟩

/-- A declaration is read back, with its values or without them. -/
theorem reads_localAssign
    (hdeeper : deeper.Covers wide n)
    {targets values : List Expr}
    (h : (Stmt.localAssign targets values).Obeys (.readable wide))
    (hsize : (Stmt.localAssign targets values).marks.length ≤ n) :
    (Grammar.localStatement deeper).Reads (Stmt.localAssign targets values).marks
      (Kind.EndsStmt wide) (.localAssign targets values) := by
  obtain ⟨⟨hnonempty, hall⟩, -, hvalues⟩ := h
  obtain ⟨names, rfl⟩ := exists_names hall
  have hnames := reads_names (fun hnil => hnonempty (by rw [hnil]; rfl) : names ≠ [])
  have hfront : ∀ more, Mark.Leads (Mark.commas (Expr.marksOfEach (names.map .name)) ++ more)
      (Kind.EndsStmt wide) (· ≠ .keyword .function_) := by
    intro more
    cases names with
    | nil => exact absurd rfl hnonempty
    | cons id names =>
        rw [List.map_cons, Expr.marksOfEach, Mark.commas_cons]
        rintro ⟨⟩
  cases values with
  | nil =>
      have hread : (Grammar.localAssignment deeper).Reads
          (Mark.commas (Expr.marksOfEach (names.map .name)) ++ []) (Kind.EndsStmt wide)
          (.localAssign (names.map .name) []) := by
        refine hnames.bind ?_ fun _ hkind => hkind.exprs.2
        refine bind_nil (bind_nil (acceptSymbol_other .eq) pure fun _ hkind => hkind) ?_
          fun _ hkind => hkind.equals
        exact pure
      refine (expectWord .local_).bind_mark ?_
      have hleads := hfront []
      rw [List.append_nil] at hread hleads
      exact bind_nil (acceptWord_other .function_) hread hleads
  | cons value values =>
      rw [Stmt.marks] at hsize ⊢
      simp only [List.length_cons, List.length_append] at hsize
      have hlist := (reads_expressionList hdeeper (List.cons_ne_nil _ _) hvalues
        (show (Mark.commas (Expr.marksOfEach (value :: values))).length < n by
          rw [Expr.marksOfEach]; omega)).mono fun _ (hkind : Kind.EndsStmt wide _) => hkind.exprs
      have hread : (Grammar.localAssignment deeper).Reads
          (Mark.commas (Expr.marksOfEach (names.map .name)) ++
            .sign .eq :: Mark.commas (Expr.marksOfEach (value :: values))) (Kind.EndsStmt wide)
          (.localAssign (names.map .name) (value :: values)) := by
        refine hnames.bind ?_ (by rintro ⟨⟩)
        have hinitial : (Grammar.initialValues deeper).Reads
            (.sign .eq :: Mark.commas (Expr.marksOfEach (value :: values)))
            (Kind.EndsStmt wide) (value :: values) :=
          (acceptSymbol .eq).bind_mark hlist
        exact hinitial.map
      refine (expectWord .local_).bind_mark ?_
      exact bind_nil (acceptWord_other .function_) hread (hfront _)

theorem isHead_wide
    {value : Expr}
    (h : value.isHead false = true) :
    value.isHead wide = true := by
  cases value <;> first | rfl | cases h

/-- An expression of accesses and calls at the start of a statement. -/
theorem reads_suffixed
    (hdeeper : deeper.Covers wide n)
    {value : Expr}
    (hvalue : value.Obeys (.readable wide))
    (hhead : value.isHead false = true)
    (hsize : value.marks.length ≤ n) :
    (suffixed wide deeper).Reads value.marks (Kind.EndsValue wide) value :=
  (chains_head hdeeper value hvalue (isHead_wide hhead) hsize).reads

theorem reads_checkTarget
    {value : Expr}
    (hassignable : value.isAssignable = true)
    (span : Span) :
    (Grammar.checkTarget value span : Parser Expr).Reads [] stop value := by
  rw [Grammar.checkTarget, if_pos hassignable]
  exact pure

/-- An assignment target is read back. -/
theorem reads_target
    (hdeeper : deeper.Covers wide n)
    {value : Expr}
    (hvalue : value.Obeys (.readable wide))
    (hassignable : value.isAssignable = true)
    (hsize : value.marks.length ≤ n) :
    (target wide deeper).Reads value.marks (Kind.EndsValue wide) value := by
  have hread := reads_suffixed hdeeper hvalue (Expr.isHead_of_isAssignable hassignable) hsize
  refine peek fun token => ?_
  exact hread.bind_last (reads_checkTarget hassignable token.span) fun _ hkind => hkind

/-- An assignment is read back up to what ends its values. -/
theorem reads_assign
    (hdeeper : deeper.Covers wide n)
    {targets values : List Expr}
    (h : (Stmt.assign targets values).Obeys (.readable wide))
    (hsize : (Stmt.assign targets values).marks.length ≤ n) :
    (expressionStatement wide deeper).Reads (Stmt.assign targets values).marks
      (Kind.EndsExprs wide) (.assign targets values) := by
  obtain ⟨⟨hnonempty, hvalues, hassignable⟩, htargets, hobey⟩ := h
  rw [Stmt.marks] at hsize ⊢
  simp only [List.length_cons, List.length_append] at hsize
  have hlist := reads_expressionList hdeeper hvalues hobey (by omega)
  have hitems : ∀ target ∈ targets,
      (PlainGrammar.target wide deeper).Reads target.marks (Kind.EndsValue wide) target := by
    intro target htarget
    have hlength := Mark.length_le_commas (List.mem_map_of_mem htarget (f := Expr.marks))
    rw [← Expr.marksOfEach_eq_map] at hlength
    exact reads_target hdeeper (Expr.allObey_iff.mp htargets target htarget)
      (List.all_eq_true.mp hassignable target htarget) (by omega)
  cases targets with
  | nil => exact absurd rfl hnonempty
  | cons first targets =>
      have hfirst := List.all_eq_true.mp hassignable first List.mem_cons_self
      have hlength : first.marks.length ≤ n := by
        rw [Expr.marksOfEach, Mark.commas_cons, List.length_append] at hsize
        omega
      have hmore := moreItems (fun target htarget => hitems target (List.mem_cons_of_mem _ htarget))
        (show Kind.EndsValue wide (.symbol .comma) from rfl) [first]
      have hrest : ∀ span : Span, Reads
          (do
            let first ← Grammar.checkTarget first span
            let targets ← Parser.moreItems (PlainGrammar.target wide deeper) [first]
            Parser.expectSymbol .eq
            let values ← deeper.expressionList
            return Stmt.assign targets values)
          ((targets.flatMap fun target => .sign .comma :: target.marks) ++
            .sign .eq :: Mark.commas (Expr.marksOfEach values))
          (Kind.EndsExprs wide) (.assign (first :: targets) values) := by
        intro span
        have hcheck : (Grammar.checkTarget first span : Parser Expr).Reads [] anyKind first :=
          reads_checkTarget hfirst span
        refine hcheck.bind_free ?_
        refine hmore.bind ?_ ⟨rfl, by rintro ⟨⟩⟩
        exact (expectSymbol .eq).bind_mark hlist.map
      have hread := reads_suffixed hdeeper htargets.1 (Expr.isHead_of_isAssignable hfirst) hlength
      rw [Expr.marksOfEach_eq_map, List.map_cons, Mark.commas_cons, List.flatMap_map,
        List.append_assoc]
      refine peek fun token => ?_
      cases targets with
      | nil => exact hread.bind (peekKind (hrest token.span)) rfl
      | cons second targets => exact hread.bind (peekKind (hrest token.span)) rfl

/-- A call that is a statement is read back. -/
theorem reads_expr
    (hdeeper : deeper.Covers wide n)
    {value : Expr}
    (h : (Stmt.expr value).Obeys (.readable wide))
    (hsize : (Stmt.expr value).marks.length ≤ n) :
    (expressionStatement wide deeper).Reads (Stmt.expr value).marks (Kind.EndsStmt wide)
      (.expr value) := by
  obtain ⟨hcall, hvalue⟩ : value.isCall = true ∧ _ := h
  have hread := reads_suffixed hdeeper hvalue (Expr.isHead_of_isCall hcall) hsize
  refine peek fun token => ?_
  refine hread.bind_last (peekKind_stop fun kind hkind => ?_) fun _ hkind => hkind.exprs.1.1
  have hdone : Reads (if value.isCall then Pure.pure (Stmt.expr value)
      else Parser.unexpected "'='") [] (Kind.EndsStmt wide) (.expr value) := by
    rw [if_pos hcall]
    exact pure
  cases kind with
  | symbol symbol =>
      cases symbol with
      | eq => exact absurd rfl hkind.equals
      | comma => exact absurd rfl hkind.exprs.2
      | _ => exact hdone
  | _ => exact hdone

/-! ## Blocks -/

theorem not_endsBlock_of_startsExpr
    {kind : Kind}
    (h : kind.startsExpr = true) :
    (kind.endsBlock || decide (kind = .symbol .semicolon)) = false := by
  cases kind with
  | keyword word => cases word <;> first | rfl | cases h
  | symbol symbol => cases symbol <;> first | rfl | cases h
  | eof => cases h
  | _ => rfl

/-- A `return` is read back where the block ends behind it. -/
theorem reads_return
    (hdeeper : deeper.Covers wide n)
    {values : List Expr}
    (h : (Stmt.returnValues values).Obeys (.readable wide))
    (hsize : (Stmt.returnValues values).marks.length ≤ n) :
    (Grammar.returnStatement deeper).Reads (Stmt.returnValues values).marks
      (fun kind => kind.endsBlock = true) (.returnValues values) := by
  have hvalues : (Grammar.returnedValues deeper).Reads (Mark.commas (Expr.marksOfEach values))
      (fun kind => kind.endsBlock = true) values := by
    cases values with
    | nil =>
        refine peekKind_stop fun kind hkind => ?_
        rw [hkind]
        exact pure
    | cons value values =>
        have hlist := (reads_expressionList hdeeper (List.cons_ne_nil _ _) h.2 hsize).mono
          fun _ (hkind : Kind.endsBlock _ = true) => (Kind.EndsStmt.of_endsBlock hkind wide).exprs
        have hleads := @leads_exprs wide (fun kind => kind.endsBlock = true)
          (fun kind => (kind.endsBlock || decide (kind = .symbol .semicolon)) = false)
          (fun _ => not_endsBlock_of_startsExpr) value values h.2 []
        rw [List.append_nil] at hleads
        refine peekKind_leads hleads fun kind hkind => ?_
        rw [hkind]
        exact hlist
  refine (expectWord .return_).bind_mark ?_
  refine hvalues.bind_last ?_ fun _ hkind => hkind
  refine bind_nil (acceptSymbol_other .semicolon) pure ?_
  rintro _ hkind rfl
  cases hkind

/-- A statement that its first mark tells apart. -/
theorem reads_started
    {mark : Mark}
    {marks : List Mark}
    {stmt : Stmt}
    (hmark : mark.kind.startsStatement = true)
    (hfunction : decide (mark.kind = .keyword .function_) = false)
    (h : (Grammar.statement deeper).Reads (mark :: marks) stop stmt) :
    (statement wide deeper).Reads (mark :: marks) stop stmt := by
  refine peekKind (peekSecondKind_any fun second => ?_)
  rw [hmark, hfunction, Bool.and_false, Bool.false_and]
  exact h

/-- A function with a name is not mistaken for one without. -/
theorem reads_named
    {id : Name}
    {marks : List Mark}
    {stmt : Stmt}
    (h : (Grammar.functionStatement deeper).Reads (.word .function_ :: .name id :: marks) stop
      stmt) :
    (statement wide deeper).Reads (.word .function_ :: .name id :: marks) stop stmt := by
  refine peekKind (peekSecondKind ?_)
  have hsecond : decide ((Mark.name id).kind = .symbol .lparen) = false := rfl
  rw [hsecond, Bool.and_false]
  exact peekKind h

/-- An assignment or a call. -/
theorem reads_expressionStatement
    {value : Expr}
    (hvalue : value.Obeys (.readable wide))
    (hhead : value.isHead false = true)
    {more : List Mark}
    {stmt : Stmt}
    (h : (expressionStatement wide deeper).Reads (value.marks ++ more) stop stmt) :
    (statement wide deeper).Reads (value.marks ++ more) stop stmt := by
  have hoperation := Expr.isOperation_of_isHead hhead
  obtain ⟨mark, others, hmarks, hfront⟩ := value.marks_front hvalue
  rw [hmarks, List.cons_append] at h ⊢
  cases hstarts : mark.kind.startsStatement with
  | false =>
      refine peekKind (peekSecondKind_any fun second => ?_)
      rw [hstarts]
      exact h
  | true =>
      -- Only a function without a name starts both a value and a statement.
      have hfunction : mark.kind = .keyword .function_ := by
        have hvalues := hfront.startsValue hoperation
        generalize mark.kind = kind at hstarts hvalues
        cases kind with
        | keyword word =>
            cases word <;> first | rfl | (cases hstarts; done) | cases hvalues
        | symbol symbol => cases symbol <;> first | (cases hstarts; done) | cases hvalues
        | _ => cases hstarts
      have hwide : wide = true := by
        cases wide with
        | true => rfl
        | false => cases (hfront.isName rfl hhead).symm.trans hfunction
      obtain ⟨rest, rfl⟩ := value.marks_function hvalue hoperation mark others hmarks hfunction
      refine peekKind (peekSecondKind ?_)
      rw [hfunction, hwide]
      rw [hwide] at h
      exact h

/-- A statement other than `return`, in front of what may follow it. -/
theorem reads_statement
    (hdeeper : deeper.Covers wide n)
    {stmt : Stmt}
    (h : stmt.Obeys (.readable wide))
    (hreturn : stmt.isReturn = false)
    (hsize : stmt.marks.length ≤ n) :
    (statement wide deeper).Reads stmt.marks (Kind.EndsStmt wide) stmt := by
  have hany : ∀ kind, Kind.EndsStmt wide kind → anyKind kind := fun _ _ => trivial
  cases stmt with
  | assign targets values =>
      have hread := (reads_assign hdeeper h hsize).mono
        fun _ (hkind : Kind.EndsStmt wide _) => hkind.exprs
      obtain ⟨⟨hnonempty, -, hassignable⟩, htargets, -⟩ := h
      cases targets with
      | nil => exact absurd rfl hnonempty
      | cons target targets =>
          have hhead := Expr.isHead_of_isAssignable
            (List.all_eq_true.mp hassignable target List.mem_cons_self)
          rw [Stmt.marks, Expr.marksOfEach, Mark.commas_cons, List.append_assoc] at hread ⊢
          exact reads_expressionStatement htargets.1 hhead hread
  | expr value =>
      have hread := reads_expr hdeeper h hsize
      rw [Stmt.marks, ← List.append_nil value.marks] at hread ⊢
      exact reads_expressionStatement h.2 (Expr.isHead_of_isCall h.1) hread
  | localAssign targets values =>
      have hread := reads_localAssign hdeeper h hsize
      cases values with
      | nil => exact reads_started rfl rfl (peekKind hread)
      | cons value values => exact reads_started rfl rfl (peekKind hread)
  | whileLoop test body =>
      have hread := (reads_whileLoop hdeeper h hsize).mono hany
      exact reads_started rfl rfl (peekKind hread)
  | doBlock body =>
      have hread := (reads_doBlock hdeeper h hsize).mono hany
      exact reads_started rfl rfl (peekKind hread)
  | repeatLoop body test =>
      have hread := (reads_repeatLoop hdeeper h hsize).mono
        fun _ (hkind : Kind.EndsStmt wide _) => hkind.exprs.1
      exact reads_started rfl rfl (peekKind hread)
  | ifThen test body orelse =>
      have hread := (reads_ifThen hdeeper h hsize).mono hany
      cases orelse with
      | none => exact reads_started rfl rfl (peekKind hread)
      | some orelse => exact reads_started rfl rfl (peekKind hread)
  | label id =>
      refine reads_started rfl rfl (peekKind ((expectSymbol .colonColon).bind_mark ?_))
      exact (Parser.Reads.name id).bind_mark ((expectSymbol .colonColon).bind_mark pure)
  | goto id =>
      refine reads_started rfl rfl (peekKind (advance (by rintro ⟨⟩) fun _ _ => ?_))
      exact (Parser.Reads.name id).map
  | breakLoop => exact reads_started rfl rfl (peekKind (advance (by rintro ⟨⟩) fun _ _ => pure))
  | returnValues values => cases hreturn
  | numericFor counter start limit step body =>
      have hread := (reads_numericFor hdeeper h hsize).mono hany
      exact reads_started rfl rfl (peekKind hread)
  | genericFor names iterators body =>
      have hread := (reads_genericFor hdeeper h hsize).mono hany
      exact reads_started rfl rfl (peekKind hread)
  | function name parameters body =>
      have hread := (reads_function hdeeper h hsize).mono hany
      obtain ⟨first, more, hmarks, -⟩ := reads_dotted h.1.1
      rw [Stmt.marks, hmarks] at hread ⊢
      exact reads_named hread
  | localFunction name parameters body =>
      have hread := (reads_localFunction hdeeper h hsize).mono hany
      exact reads_started rfl rfl (peekKind hread)
  | method receiver name parameters body =>
      have hread := (reads_method hdeeper h hsize).mono hany
      obtain ⟨first, more, hmarks, -⟩ := reads_dotted h.1.1
      rw [Stmt.marks, hmarks] at hread ⊢
      exact reads_named hread
  | semicolon => exact reads_started rfl rfl (peekKind (advance (by rintro ⟨⟩) fun _ _ => pure))

/-- Statements lead to what the one before them may end before. -/
theorem leads_stmts
    {stmts : Block}
    (hstmts : Stmt.AllObey (.readable wide) stmts) :
    Mark.Leads (Stmt.marksOfAll stmts) (fun kind => kind.endsBlock = true)
      (Kind.EndsStmt wide) := by
  cases stmts with
  | nil => exact fun _ hkind => .of_endsBlock hkind wide
  | cons stmt stmts =>
      obtain ⟨mark, more, hmarks, hmark, -⟩ := Stmt.marks_front hstmts.1
      rw [Stmt.marksOfAll, hmarks]
      exact hmark.endsStmt

/-- The statements of a block behind those that are already read. -/
theorem reads_stmts
    (hdeeper : deeper.Covers wide n)
    {stmts : Block}
    (hstmts : Block.Obeys (.readable wide) stmts)
    (hsize : (Stmt.marksOfAll stmts).length ≤ n)
    (before : Block) :
    Reads (Parser.loop (blockStep wide deeper) before) (Stmt.marksOfAll stmts)
      (fun kind => kind.endsBlock = true) (before ++ stmts) := by
  induction stmts generalizing before with
  | nil =>
      rw [List.append_nil]
      refine loop_done (peekKind_stop fun kind hkind => ?_)
      rw [if_pos hkind]
      exact pure
  | cons stmt stmts ih =>
      obtain ⟨hlast, hstmt, hrest⟩ := hstmts
      rw [Stmt.marksOfAll, List.length_append] at hsize
      obtain ⟨mark, more, hmarks, hmark, hother⟩ := Stmt.marks_front hstmt
      cases hreturn : stmt.isReturn with
      | true =>
          -- Nothing follows a `return`.
          obtain rfl : stmts = [] := by
            cases stmts with
            | nil => rfl
            | cons next stmts =>
                have hlast : (stmt :: next :: stmts).dropLast.all (fun stmt => !stmt.isReturn) =
                  true := hlast
                simp [hreturn] at hlast
          cases stmt with
          | returnValues values =>
              have hread := reads_return hdeeper hstmt (by omega)
              rw [Stmt.marksOfAll, Stmt.marksOfAll, List.append_nil]
              exact loop_done (peekKind hread.map)
          | _ => cases hreturn
      | false =>
          have hblock : Block.Obeys (.readable wide) stmts := by
            refine ⟨?_, hrest⟩
            have hlast : (stmt :: stmts).dropLast.all (fun stmt => !stmt.isReturn) = true := hlast
            show stmts.dropLast.all (fun stmt => !stmt.isReturn) = true
            cases stmts with
            | nil => rfl
            | cons next stmts =>
                rw [List.dropLast_cons_cons, List.all_cons, Bool.and_eq_true] at hlast
                exact hlast.2
          have hread := reads_statement hdeeper hstmt hreturn (by omega)
          have hstep : (blockStep wide deeper before).Reads stmt.marks (Kind.EndsStmt wide)
              (.again (before ++ [stmt])) := by
            rw [hmarks] at hread ⊢
            refine peekKind ?_
            rw [if_neg (by rw [hmark.endsBlock]; decide), if_neg (hother hreturn)]
            exact hread.map
          have hloop := ih hblock (by omega) (before ++ [stmt])
          rw [List.append_assoc] at hloop
          refine loop_round hstep ?_ hloop (leads_stmts hrest)
          rw [hmarks]
          exact List.cons_ne_nil _ _

/-- A budget of as many levels as there are marks is enough. -/
theorem covers_phrase (wide : Bool) (limit budget : Nat) :
    Descent.Covers wide (fun deeper => phrase wide limit budget deeper) budget := by
  induction budget with
  | zero => exact ⟨nofun, nofun, nofun⟩
  | succ budget ih =>
      refine ⟨fun value hvalue hsize => ?_, fun least value hvalue hsize => ?_,
        fun stmts hstmts hsize => ?_⟩
      · exact reads_expression ih hvalue (Nat.le_of_lt_succ hsize)
      · exact reads_operation ih least hvalue (Nat.le_of_lt_succ hsize)
      · exact reads_stmts ih hstmts (Nat.le_of_lt_succ hsize) []

end PlainGrammar

/-! ## Programs -/

/-- The marks of a readable program are parsed to it. -/
theorem Grammar.chunk_of_marks
    {chunk : Chunk}
    (h : chunk.Obeys (.readable false))
    {words : List Token}
    (hwords : words.map Token.mark = Stmt.marksOfAll chunk.body)
    {limit : Nat}
    (hlimit : words.length < limit)
    (last : Position) :
    Grammar.chunk limit (words ++ [Token.eof last]) = .ok chunk [Token.eof last] := by
  have hsize : (Stmt.marksOfAll chunk.body).length < limit := by
    rw [← hwords, List.length_map]
    exact hlimit
  have hbody := (PlainGrammar.covers_phrase false limit limit).block chunk.body h hsize
    words [Token.eof last] hwords rfl
  have hphrase :
      Descent.block (m := Parser) (Grammar.phrase limit limit) (words ++ [Token.eof last]) =
        .ok chunk.body [Token.eof last] :=
    (PlainGrammar.phrase_false limit limit .block _).symm.trans hbody
  change Parser.bind (Descent.block (m := Parser) (Grammar.phrase limit limit)) _ _ = _
  rw [Parser.bind, hphrase]
  rfl

/-- Readable programs with the same marks are the same. -/
theorem Chunk.eq_of_marks
    {wide : Bool}
    {chunk other : Chunk}
    (h : chunk.Obeys (.readable wide))
    (h' : other.Obeys (.readable wide))
    (hmarks : Stmt.marksOfAll chunk.body = Stmt.marksOfAll other.body) :
    chunk = other := by
  -- One parser reads the marks as either of them.
  let words : List Token := (Stmt.marksOfAll chunk.body).map fun mark => ⟨mark.kind, mark.text, {}⟩
  have hwords : words.map Token.mark = Stmt.marksOfAll chunk.body := by
    rw [List.map_map]
    exact List.map_id _
  have hcovers := PlainGrammar.covers_phrase wide 0 ((Stmt.marksOfAll chunk.body).length + 1)
  have hread := hcovers.block chunk.body h (Nat.lt_succ_self _) words [] hwords rfl
  have hread' := hcovers.block other.body h' (by rw [hmarks]; exact Nat.lt_succ_self _) words []
    (hwords.trans hmarks) rfl
  obtain ⟨body⟩ := chunk
  obtain ⟨body'⟩ := other
  rw [hread] at hread'
  cases hread'
  rfl

end LuaView
