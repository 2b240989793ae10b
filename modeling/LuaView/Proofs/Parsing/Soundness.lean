import LuaView.Proofs.Parsing.Derivation
import LuaView.Proofs.Parsing.Rules

/-!
# Parsing is sound

Every phrase consumes exactly the tokens that its tree derives, whatever the limit of nesting.  The
contract of a phrase is shown from the contracts of the phrases one level deeper, and the levels
are put together by induction on the budget.

The same contracts say where an error is placed, so an error about a numeral is always one about a
token of the source that has no value.
-/

namespace LuaView

open LuaView.Parser (anyKind)
open Grammar (Node Derives)

/-- A step of a loop may be written in any way. -/
def anyStep : Expr → Prop := fun _ => True

/-- All phrases one level deeper consume what their trees derive. -/
def Descent.Sound (whole : List Token) (deeper : Descent) : Prop :=
  ∀ phrase, (deeper phrase).Meets whole anyKind fun used tree =>
    Derives anyStep (.ofPhrase phrase tree) used

namespace Grammar

open LuaView.Parser

variable {whole : List Token}
variable {front : Kind → Prop}
variable {deeper : Descent}

theorem meets_block
    (hdeeper : deeper.Sound whole) :
    deeper.block.Meets whole front fun used body => Derives anyStep (.block body) used :=
  (hdeeper .block).weaken

theorem meets_operation
    (hdeeper : deeper.Sound whole)
    (least : Nat) :
    (deeper.operation least).Meets whole front fun used value =>
      Derives anyStep (.expression value) used :=
  (hdeeper (.expression least)).weaken

theorem meets_expression
    (hdeeper : deeper.Sound whole) :
    deeper.expression.Meets whole front fun used value =>
      Derives anyStep (.expression value) used :=
  meets_operation hdeeper _

theorem meets_expressionList
    (hdeeper : deeper.Sound whole) :
    deeper.expressionList.Meets whole front fun used values =>
      Derives anyStep (.expressions values) used := by
  refine (meets_commaSeparated _ (meets_expression hdeeper) ?_ ?_).weaken
  · intro used value hused
    exact .firstExpression hused
  · intro used values comma more value hused hcomma hmore
    exact .nextExpression hused hcomma hmore

/-! ## Functions and tables -/

/-- Parameters: names with commas between them, and three dots at most at the end. -/
theorem meets_parameters :
    Meets whole anyKind (loop parameterStep []) fun used parameters =>
      Derives anyStep (.parameters parameters) used := by
  refine meets_loop_start
    (fun used parameters => Derives anyStep (.leadingParameters parameters) used)
    ?_ .noLeadingParameter
  intro used parameters hused
  refine meets_peekKind_bind fun kind _ => ?_
  split
  · refine meets_advance_bind (by decide) fun dots hdots => Meets.pure ?_
    exact .lastVarargs hused hdots
  · refine meets_name_bind fun id hid => ?_
    refine meets_accept_ite (by decide) ?_ (Meets.pure ?_)
    · intro comma hcomma
      exact Meets.pure ⟨List.cons_ne_nil _ _, .nextLeadingParameter hused hid hcomma⟩
    · exact .lastParameter hused hid
  · exact meets_unexpected

/-- The parentheses around the parameters and the word behind the body belong to a function. -/
theorem meets_functionBody
    (hdeeper : deeper.Sound whole) :
    (functionBody deeper).Meets whole front fun used function =>
      Derives anyStep (.functionBody function.1 function.2) used := by
  have hrest : ∀ {front : Kind → Prop} (left : Token) (ts : List Token) (parameters : List Expr),
      left.kind = .symbol .lparen → Derives anyStep (.parameters parameters) ts →
      Meets whole front
        (do
          expectSymbol .rparen
          let body ← deeper.block
          expectWord .end_
          return (parameters, body))
        fun more function =>
          Derives anyStep (.functionBody function.1 function.2) (left :: (ts ++ more)) := by
    intro front left ts parameters hleft hts
    refine meets_expect_bind (by decide) fun right hright => ?_
    refine (meets_block hdeeper).bind fun us body hus => ?_
    refine meets_expect_map (by decide) fun word hword => ?_
    exact .functionBody hleft hts hright hus hword
  refine meets_expect_bind (by decide) fun left hleft => ?_
  refine meets_peekKind_bind fun kind _ => ?_
  refine Meets.ite (fun _ => Meets.pure_bind ?_) fun _ => ?_
  · exact hrest left [] [] hleft .noParameters
  · exact meets_parameters.weaken.bind fun ts parameters hts => hrest left ts parameters hleft hts

/-- The key of a named entry is known to be followed by `=`. -/
theorem meets_namedKey_bind
    {next : Name → Parser Field}
    {post : List Token → Field → Prop}
    (h : ∀ id eq : Token, id.kind = .name → eq.kind = .symbol .eq →
      (next id.text).Meets whole anyKind fun more field => post (id :: eq :: more) field)
    {other : Parser Field}
    (hother : other.Meets whole (· = .name) post) :
    Meets whole (· = .name)
      (peekSecondKind >>= fun second =>
        if second = .symbol .eq then name >>= fun key => advance >>= fun _ => next key
        else other) post := by
  intro tokens htokens hfront
  match tokens, htokens, hfront with
  | [token], htokens, hfront =>
      have hkind : token.kind ≠ .symbol .eq := by
        have hname : token.kind = .name := hfront
        simp [hname]
      have hsecond : (peekSecondKind >>= fun second =>
          if second = .symbol .eq then name >>= fun key => advance >>= fun _ => next key
          else other) [token] = other [token] := by
        change (if token.kind = .symbol .eq then _ else other) [token] = other [token]
        rw [if_neg hkind]
      rw [hsecond]
      exact hother [token] htokens hfront
  | token :: second :: rest, htokens, hfront =>
      change Outcome.Meets whole (token :: second :: rest) post
        ((if second.kind = .symbol .eq then name >>= fun key => advance >>= fun _ => next key
          else other) (token :: second :: rest))
      split
      · rename_i heq
        -- both tokens are known, so neither `name` nor `advance` has a choice
        have hname : (name : Parser Name) (token :: second :: rest) =
            .ok token.text (second :: rest) := by
          have hkind : token.kind = .name := hfront
          have heof : token.isEof = false := by simp [Token.isEof, hkind]
          change (if token.kind = Kind.name then (do return (← advance).text) else
            unexpected "name") (token :: second :: rest) = _
          rw [if_pos hkind]
          change Parser.bind advance _ _ = _
          simp [Parser.bind, advance, heof]
          rfl
        have hadvance : advance (second :: rest) = .ok second rest := by
          have heof : second.isEof = false := by simp [Token.isEof, heq]
          simp [advance, heof]
        have hrest : rest <:+ token :: second :: rest :=
          List.suffix_append [token, second] rest
        have hpost := h token second hfront heq rest (hrest.trans htokens) trivial
        change Outcome.Meets whole (token :: second :: rest) post
          (Parser.bind name _ (token :: second :: rest))
        simp only [Parser.bind, hname]
        change Outcome.Meets whole (token :: second :: rest) post
          (Parser.bind advance _ (second :: rest))
        simp only [Parser.bind, hadvance]
        cases hnext : next token.text rest with
        | fail error last =>
            rw [hnext] at hpost
            exact ⟨hpost.1.trans hrest, hpost.2⟩
        | ok field last =>
            rw [hnext] at hpost
            obtain ⟨more, rfl, hwords, hmore⟩ := hpost
            refine ⟨token :: second :: more, rfl, ?_, hmore⟩
            have htoken : token.kind = .name := hfront
            exact List.forall_mem_cons.mpr
              ⟨by simp [htoken], List.forall_mem_cons.mpr ⟨by simp [heq], hwords⟩⟩
      · exact hother _ htokens hfront

/-- An entry consumes a key in brackets, a key that is a name, or no key. -/
theorem meets_field
    (hdeeper : deeper.Sound whole) :
    (field deeper).Meets whole front fun used field => Derives anyStep (.field field) used := by
  have hpositional : ∀ {front : Kind → Prop}, Meets whole front
      (deeper.expression >>= fun value => pure (Field.positional value))
      fun used field => Derives anyStep (.field field) used := fun {_} =>
    (meets_expression hdeeper).map fun used value hused => .positionalField hused
  refine meets_peekKind_bind fun kind _ => ?_
  split
  · refine meets_advance_bind (by decide) fun left hleft => ?_
    refine (meets_expression hdeeper).bind fun ts key hts => ?_
    refine meets_expect_bind (by decide) fun right hright => ?_
    refine meets_expect_bind (by decide) fun eq heq => ?_
    refine (meets_expression hdeeper).map fun us value hus => ?_
    exact .bracketedField hleft hts hright heq hus
  · refine meets_namedKey_bind ?_ hpositional
    intro id eq hid heq
    refine (meets_expression hdeeper).map fun ts value hts => ?_
    exact .namedField hid heq hts
  · exact hpositional

/-- The entries of a table: all of them with a separator, or all but the last one. -/
theorem meets_fields
    (hdeeper : deeper.Sound whole) :
    Meets whole anyKind (loop (fieldStep deeper) []) fun used fields =>
      Derives anyStep (.entries fields) used ∨
        ∃ leading field ts us, fields = leading ++ [field] ∧ used = ts ++ us ∧
          Derives anyStep (.entries leading) ts ∧ Derives anyStep (.field field) us := by
  refine meets_loop_start (fun used fields => Derives anyStep (.entries fields) used) ?_ .noEntry
  intro used fields hused
  refine meets_peekKind_bind fun kind _ => Meets.ite ?_ ?_
  · exact fun _ => meets_done (.inl hused)
  · intro _
    refine (meets_field hdeeper).bind fun us field hus => ?_
    refine meets_accept_ite (by decide) ?_ (meets_accept_ite (by decide) ?_ (Meets.pure ?_))
    · intro comma hcomma
      exact Meets.pure ⟨by simp, .nextEntry hused hus (.inl hcomma)⟩
    · intro mark hmark
      exact Meets.pure ⟨by simp, .nextEntry hused hus (.inr hmark)⟩
    · refine .inr ⟨fields, field, used, us, rfl, ?_, hused, hus⟩
      rw [List.append_nil]

/-- A table consumes its braces and the entries in them. -/
theorem meets_table
    (hdeeper : deeper.Sound whole) :
    (table deeper).Meets whole front fun used value => ∃ fields,
      value = .table fields ∧ Derives anyStep (.table fields) used := by
  refine meets_expect_bind (by decide) fun left hleft => ?_
  refine (meets_fields hdeeper).bind fun ts fields hts => ?_
  refine meets_expect_map (by decide) fun right hright => ⟨fields, rfl, ?_⟩
  rcases hts with hts | ⟨leading, field, ts, us, rfl, rfl, hts, hus⟩
  · exact .separatedTable hleft hts hright
  · exact .unseparatedTable hleft hts hus hright

/-! ## Expressions -/

/-- Arguments are expressions in parentheses, a table or a string. -/
theorem meets_arguments
    (hdeeper : deeper.Sound whole) :
    (arguments deeper).Meets whole front fun used values =>
      Derives anyStep (.arguments values) used := by
  refine meets_peekKind_bind fun kind _ => ?_
  split
  · refine meets_advance_bind (by decide) fun left hleft => ?_
    refine meets_peekKind_bind fun next _ => ?_
    split
    · refine Meets.pure_bind ?_
      exact meets_expect_map (by decide) fun right hright => .noArguments hleft hright
    · refine (meets_expressionList hdeeper).bind fun ts values hts => ?_
      exact meets_expect_map (by decide) fun right hright => .listedArguments hleft hts hright
  · refine (meets_table hdeeper).map fun ts value hts => ?_
    obtain ⟨fields, rfl, htable⟩ := hts
    exact .tableArgument htable
  · refine meets_advance_bind (by simp) fun token htoken => Meets.pure ?_
    exact .stringArgument htoken
  · exact meets_unexpected

/-- A primary expression is a name or an expression in parentheses, whose tree is that of the
expression. -/
theorem meets_primary
    (hdeeper : deeper.Sound whole) :
    (primary deeper).Meets whole front fun used value =>
      Derives anyStep (.primary value) used := by
  refine meets_peekKind_bind fun kind _ => ?_
  split
  · exact meets_name_map fun id hid => .name hid
  · refine meets_advance_bind (by decide) fun left hleft => ?_
    refine (meets_expression hdeeper).bind fun ts value hts => ?_
    exact meets_expect_map (by decide) fun right hright => .parenthesised hleft hts hright
  · exact meets_unexpected

/-- Arguments take at least one token, so a call is longer than its callee. -/
theorem arguments_ne_nil
    {explicit : Expr → Prop}
    {values : List Expr}
    {ts : List Token}
    (h : Derives explicit (.arguments values) ts) :
    ts ≠ [] := by
  cases h with
  | noArguments | listedArguments | stringArgument => simp
  | tableArgument htable => cases htable <;> simp

/-- Each round of suffixes extends the expression in front, so the tokens of all rounds stand
behind those of the expression they began with. -/
theorem meets_suffixes
    (hdeeper : deeper.Sound whole)
    {used : List Token}
    {value : Expr}
    (hvalue : Derives anyStep (.suffixed value) used) :
    Meets whole anyKind (loop (suffixStep deeper) value) fun more result =>
      Derives anyStep (.suffixed result) (used ++ more) := by
  refine meets_loop (fun used value => Derives anyStep (.suffixed value) used)
    (fun used value => Derives anyStep (.suffixed value) used) ?_ hvalue
  intro used value hused
  have hcall : ∀ {front : Kind → Prop}, Meets whole front
      (arguments deeper >>= fun values => pure (Step.again (Expr.call value values)))
      (Round (fun used value => Derives anyStep (.suffixed value) used)
        (fun used value => Derives anyStep (.suffixed value) used) used) := fun {_} =>
    (meets_arguments hdeeper).map fun ts values hts =>
      ⟨arguments_ne_nil hts, .call hused hts⟩
  refine meets_peekKind_bind fun kind _ => ?_
  split
  · refine meets_advance_bind (by decide) fun dot hdot => ?_
    exact meets_name_map fun id hid => ⟨List.cons_ne_nil _ _, .dot hused hdot hid⟩
  · refine meets_advance_bind (by decide) fun left hleft => ?_
    refine (meets_expression hdeeper).bind fun ts key hts => ?_
    exact meets_expect_map (by decide) fun right hright =>
      ⟨List.cons_ne_nil _ _, .bracket hused hleft hts hright⟩
  · refine meets_advance_bind (by decide) fun colon hcolon => ?_
    refine meets_name_bind fun id hid => ?_
    exact (meets_arguments hdeeper).map fun ts values hts =>
      ⟨List.cons_ne_nil _ _, .invoke hused hcolon hid hts⟩
  · exact hcall
  · exact hcall
  · exact hcall
  · exact meets_done hused

/-- An expression of accesses and calls derives its first part and all suffixes. -/
theorem meets_suffixed
    (hdeeper : deeper.Sound whole) :
    (suffixed deeper).Meets whole front fun used value =>
      Derives anyStep (.suffixed value) used :=
  (meets_primary hdeeper).bind fun _ _ hused => meets_suffixes hdeeper (.primary hused)

/-- An expression without operators of its own consumes what it derives. -/
theorem meets_simple
    (hdeeper : deeper.Sound whole) :
    (simple deeper).Meets whole front fun used value =>
      Derives anyStep (.simple value) used := by
  refine meets_peekKind_bind fun kind _ => ?_
  split
  · exact meets_advance_bind (by decide) fun token htoken => Meets.pure (.nil htoken)
  · exact meets_advance_bind (by decide) fun token htoken => Meets.pure (.true htoken)
  · exact meets_advance_bind (by decide) fun token htoken => Meets.pure (.false htoken)
  · exact meets_advance_bind (by decide) fun token htoken => Meets.pure (.varargs htoken)
  · refine (meets_advance (by decide)).bind fun used token hused => ?_
    obtain ⟨rfl, htoken, hamong⟩ := hused
    split
    · exact Meets.pure (.number htoken ‹_›)
    · refine meets_fail hamong fun text htext => ?_
      cases htext
      exact ⟨htoken, rfl, ‹_›⟩
  · exact meets_advance_bind (by simp) fun token htoken => Meets.pure (.string htoken)
  · refine meets_expect_bind (by decide) fun word hword => ?_
    exact (meets_functionBody hdeeper).map fun ts function hts => .function hword hts
  · refine (meets_table hdeeper).mono fun ts value hts => ?_
    obtain ⟨fields, rfl, htable⟩ := hts
    exact .table htable
  · exact (meets_suffixed hdeeper).mono fun ts value hts => .suffixed hts

/-- A token that stands for a unary operator is spelled as the operator. -/
theorem display_of_unaryOp?
    {kind : Kind}
    {op : UnaryOp}
    (h : kind.unaryOp? = some op) :
    kind.display = op.symbol := by
  unfold Kind.unaryOp? at h
  split at h <;> cases h <;> rfl

/-- A token that stands for a binary operator is spelled as the operator. -/
theorem display_of_binaryOp?
    {kind : Kind}
    {op : BinaryOp}
    (h : kind.binaryOp? = some op) :
    kind.display = op.symbol := by
  unfold Kind.binaryOp? at h
  split at h <;> cases h <;> rfl

/-- A unary operator and its operand, or a simple expression. -/
theorem meets_operand
    (hdeeper : deeper.Sound whole) :
    (operand deeper).Meets whole front fun used value =>
      Derives anyStep (.expression value) used := by
  refine meets_peekKind_bind fun kind _ => ?_
  split
  · rename_i op hop
    have hkind : kind ≠ .eof := by
      rintro rfl
      cases hop
    refine meets_advance_bind hkind fun mark hmark => ?_
    refine (meets_operation hdeeper _).map fun ts value hts => ?_
    exact .unary (hmark ▸ display_of_unaryOp? hop) hts
  · exact (meets_simple hdeeper).mono fun ts value hts => .simple hts

/-- An expression derives its first operand and every operator with its right operand, whatever the
precedence asked for. -/
theorem meets_expressionAt
    (hdeeper : deeper.Sound whole)
    (least : Nat) :
    (expression deeper least).Meets whole front fun used value =>
      Derives anyStep (.expression value) used := by
  refine (meets_operand hdeeper).bind fun used left hused => ?_
  refine meets_loop (fun used value => Derives anyStep (.expression value) used)
    (fun used value => Derives anyStep (.expression value) used) ?_ hused
  intro used left hused
  refine meets_peekKind_bind fun kind _ => ?_
  split
  · rename_i op hop
    have hkind : kind ≠ .eof := by
      rintro rfl
      cases hop
    refine Meets.ite (fun _ => meets_done hused) fun _ => ?_
    refine meets_advance_bind hkind fun mark hmark => ?_
    refine (meets_operation hdeeper _).map fun ts right hts => ?_
    exact ⟨List.cons_ne_nil _ _, .binary hused (hmark ▸ display_of_binaryOp? hop) hts⟩
  · exact meets_done hused

/-! ## Statements -/

theorem meets_loopBody
    (hdeeper : deeper.Sound whole) :
    (loopBody deeper).Meets whole front fun used body =>
      Derives anyStep (.loopBody body) used := by
  refine meets_expect_bind (by decide) fun first hfirst => ?_
  refine (meets_block hdeeper).bind fun ts body hts => ?_
  exact meets_expect_map (by decide) fun last hlast => .loopBody hfirst hts hlast

theorem meets_whileStatement
    (hdeeper : deeper.Sound whole) :
    (whileStatement deeper).Meets whole front fun used stmt =>
      Derives anyStep (.statement stmt) used := by
  refine meets_expect_bind (by decide) fun word hword => ?_
  refine (meets_expression hdeeper).bind fun ts test hts => ?_
  exact (meets_loopBody hdeeper).map fun us body hus => .whileLoop hword hts hus

theorem meets_doStatement
    (hdeeper : deeper.Sound whole) :
    (doStatement deeper).Meets whole front fun used stmt =>
      Derives anyStep (.statement stmt) used :=
  (meets_loopBody hdeeper).map fun _ _ hts => .doBlock hts

theorem meets_repeatStatement
    (hdeeper : deeper.Sound whole) :
    (repeatStatement deeper).Meets whole front fun used stmt =>
      Derives anyStep (.statement stmt) used := by
  refine meets_expect_bind (by decide) fun first hfirst => ?_
  refine (meets_block hdeeper).bind fun ts body hts => ?_
  refine meets_expect_bind (by decide) fun word hword => ?_
  exact (meets_expression hdeeper).map fun us test hus => .repeatLoop hfirst hts hword hus

/-- A condition, the word behind it and the block that depends on it. -/
theorem meets_guarded
    (hdeeper : deeper.Sound whole) :
    (guarded deeper).Meets whole front fun used clause =>
      Derives anyStep (.guarded clause.1 clause.2) used := by
  refine (meets_expression hdeeper).bind fun ts test hts => ?_
  refine meets_expect_bind (by decide) fun word hword => ?_
  exact (meets_block hdeeper).map fun us body hus => .guarded hts hword hus

/-- Clauses are consumed one by one, in the order of the chain. -/
theorem meets_clauses
    (hdeeper : deeper.Sound whole) :
    Meets whole anyKind (loop (clauseStep deeper) []) fun used clauses =>
      Derives anyStep (.clauses clauses) used := by
  refine meets_loop_start (fun used clauses => Derives anyStep (.clauses clauses) used)
    ?_ .noClause
  intro used clauses hused
  refine meets_accept_ite (by decide) ?_ (meets_done hused)
  intro word hword
  exact (meets_guarded hdeeper).map fun us clause hus =>
    ⟨List.cons_ne_nil _ _, .nextClause hused hword hus⟩

/-- The last alternative may be missing. -/
theorem meets_lastAlternative
    (hdeeper : deeper.Sound whole) :
    (lastAlternative deeper).Meets whole front fun used last =>
      Derives anyStep (.alternative last) used := by
  refine meets_accept_ite (by decide) ?_ (Meets.pure .noAlternative)
  intro word hword
  exact (meets_block hdeeper).map fun ts body hts => .alternative hword hts

/-- A condition with all of its alternatives derives one chain. -/
theorem meets_ifStatement
    (hdeeper : deeper.Sound whole) :
    (ifStatement deeper).Meets whole front fun used stmt =>
      Derives anyStep (.statement stmt) used := by
  refine meets_expect_bind (by decide) fun first hfirst => ?_
  refine (meets_guarded hdeeper).bind fun ts clause hts => ?_
  refine (meets_clauses hdeeper).bind fun us clauses hus => ?_
  refine (meets_lastAlternative hdeeper).bind fun vs last hvs => ?_
  rw [chain_eq_alternatives]
  exact meets_expect_map (by decide) fun word hword => .ifThen hfirst hts hus hvs hword

/-- The step of a loop may be missing; then it is one and derives nothing. -/
theorem meets_loopStep
    (hdeeper : deeper.Sound whole) :
    (loopStep deeper).Meets whole front fun used step =>
      Derives anyStep (.loopStep step) used := by
  refine meets_accept_ite (by decide) ?_ (Meets.pure .omittedStep)
  intro comma hcomma
  exact (meets_expression hdeeper).mono fun ts step hts => .explicitStep hcomma hts trivial

/-- Further names, each behind a comma, extend the names in front. -/
theorem meets_moreNames
    {used : List Token}
    {ids : List Name}
    (hids : Derives anyStep (.names ids) used) :
    (moreItems name ids : Parser (List Name)).Meets whole anyKind fun more result =>
      Derives anyStep (.names result) (used ++ more) := by
  refine meets_moreItems (fun used ids => Derives anyStep (.names ids) used) meets_name
    ?_ hids
  rintro used ids comma more id hused hcomma ⟨token, rfl, htoken, rfl⟩
  exact .nextName hused hcomma htoken

theorem meets_names :
    (commaSeparated name : Parser (List Name)).Meets whole front fun used ids =>
      Derives anyStep (.names ids) used :=
  meets_name_bind fun _ hid => meets_moreNames (.firstName hid)

/-- A loop is a counting one or one over iterators, by the token behind its first name. -/
theorem meets_forStatement
    (hdeeper : deeper.Sound whole) :
    (forStatement deeper).Meets whole front fun used stmt =>
      Derives anyStep (.statement stmt) used := by
  refine meets_expect_bind (by decide) fun word hword => ?_
  refine meets_name_bind fun id hid => ?_
  have hgeneric : ∀ {front : Kind → Prop},
      Meets whole front
        (do
          let names ← moreItems name [id.text]
          expectWord .in_
          let iterators ← deeper.expressionList
          let body ← loopBody deeper
          return Stmt.genericFor names iterators body)
        fun more stmt => Derives anyStep (.statement stmt) (word :: id :: more) := by
    intro front
    refine (meets_moreNames (.firstName hid)).weaken.bind fun ts ids hts => ?_
    refine meets_expect_bind (by decide) fun middle hmiddle => ?_
    refine (meets_expressionList hdeeper).bind fun us iterators hus => ?_
    exact (meets_loopBody hdeeper).map fun vs body hvs => .genericFor hword hts hmiddle hus hvs
  refine meets_peekKind_bind fun kind _ => ?_
  split
  · refine meets_advance_bind (by decide) fun eq heq => ?_
    refine (meets_expression hdeeper).bind fun ts start hts => ?_
    refine meets_expect_bind (by decide) fun comma hcomma => ?_
    refine (meets_expression hdeeper).bind fun us stop hus => ?_
    refine (meets_loopStep hdeeper).bind fun vs step hvs => ?_
    exact (meets_loopBody hdeeper).map fun ws body hws =>
      .numericFor hword hid heq hts hcomma hus hvs hws
  · exact hgeneric
  · exact hgeneric
  · exact meets_unexpected

/-- The dotted name of a function, which begins with the name already consumed. -/
theorem meets_path
    {id : Token}
    (hid : id.kind = .name) :
    Meets whole anyKind (loop dottedStep (.name id.text)) fun more value =>
      Derives anyStep (.path value) (id :: more) := by
  refine meets_loop (fun used value => Derives anyStep (.path value) used)
    (fun used value => Derives anyStep (.path value) used) ?_ (.firstPart hid)
  intro used value hused
  refine meets_accept_ite (by decide) ?_ (meets_done hused)
  intro dot hdot
  exact meets_name_map fun id hid => ⟨List.cons_ne_nil _ _, .nextPart hused hdot hid⟩

/-- A function statement, which is a method if a colon stands in its name. -/
theorem meets_functionStatement
    (hdeeper : deeper.Sound whole) :
    (functionStatement deeper).Meets whole front fun used stmt =>
      Derives anyStep (.statement stmt) used := by
  refine meets_expect_bind (by decide) fun word hword => ?_
  refine meets_name_bind fun id hid => ?_
  refine (meets_path hid).bind fun ts path hts => ?_
  refine meets_accept_ite (by decide) ?_ ?_
  · intro colon hcolon
    refine meets_name_bind fun method hmethod => ?_
    exact (meets_functionBody hdeeper).map fun us function hus =>
      .method hword hts hcolon hmethod hus
  · exact (meets_functionBody hdeeper).map fun us function hus =>
      .functionStatement hword hts hus

theorem meets_initialValues
    (hdeeper : deeper.Sound whole) :
    (initialValues deeper).Meets whole front fun used values =>
      Derives anyStep (.initialValues values) used := by
  refine meets_accept_ite (by decide) ?_ (Meets.pure .noInitialValues)
  intro eq heq
  exact (meets_expressionList hdeeper).mono fun ts values hts => .initialValues heq hts

/-- A local function, or names with or without values. -/
theorem meets_localStatement
    (hdeeper : deeper.Sound whole) :
    (localStatement deeper).Meets whole front fun used stmt =>
      Derives anyStep (.statement stmt) used := by
  refine meets_expect_bind (by decide) fun first hfirst => ?_
  refine meets_accept_ite (by decide) ?_ ?_
  · intro word hword
    refine meets_name_bind fun id hid => ?_
    exact (meets_functionBody hdeeper).map fun ts function hts =>
      .localFunction hfirst hword hid hts
  · refine meets_names.bind fun ts ids hts => ?_
    exact (meets_initialValues hdeeper).map fun us values hus =>
      .localAssign hfirst hts hus

theorem meets_labelStatement :
    (labelStatement : Parser Stmt).Meets whole front fun used stmt =>
      Derives anyStep (.statement stmt) used := by
  refine meets_expect_bind (by decide) fun left hleft => ?_
  refine meets_name_bind fun id hid => ?_
  exact meets_expect_map (by decide) fun right hright => .label hleft hid hright

/-- The check of a target consumes nothing and lets assignable expressions through. -/
theorem meets_checkTarget
    {value : Expr}
    {start : Token}
    (hstart : start.Among whole) :
    (checkTarget value start.span : Parser Expr).Meets whole front fun used result =>
      used = [] ∧ result = value ∧ value.isAssignable = true := by
  refine Meets.ite (fun hvalue => Meets.pure ⟨rfl, rfl, hvalue⟩) fun _ => ?_
  exact meets_fail hstart fun _ htext => by cases htext

/-- An assignment target is an assignable expression of accesses and calls. -/
theorem meets_target
    (hdeeper : deeper.Sound whole) :
    (target deeper).Meets whole front fun used value =>
      Derives anyStep (.suffixed value) used ∧ value.isAssignable = true := by
  refine meets_peek_bind fun start hstart => ?_
  refine (meets_suffixed hdeeper).bind fun ts value hts => ?_
  refine (meets_checkTarget hstart).mono ?_
  rintro more result ⟨rfl, rfl, hassignable⟩
  rw [List.append_nil]
  exact ⟨hts, hassignable⟩

/-- A statement that begins with an expression is an assignment or a call. -/
theorem meets_expressionStatement
    (hdeeper : deeper.Sound whole) :
    (expressionStatement deeper).Meets whole front fun used stmt =>
      Derives anyStep (.statement stmt) used := by
  refine meets_peek_bind fun start hstart => ?_
  refine (meets_suffixed hdeeper).bind fun ts value hts => ?_
  have hassign : ∀ {front : Kind → Prop},
      Meets whole front
        (do
          let first ← checkTarget value start.span
          let targets ← moreItems (target deeper) [first]
          expectSymbol .eq
          let values ← deeper.expressionList
          return Stmt.assign targets values)
        fun more stmt => Derives anyStep (.statement stmt) (ts ++ more) := by
    intro front
    refine (meets_checkTarget hstart).bind ?_
    rintro _ first ⟨rfl, rfl, hassignable⟩
    have htargets : (moreItems (target deeper) [first]).Meets whole anyKind fun more targets =>
        Derives anyStep (.targets targets) (ts ++ more) := by
      refine meets_moreItems (fun used values => Derives anyStep (.targets values) used)
        (meets_target hdeeper) ?_ (.firstTarget hts hassignable)
      intro used values comma more value hused hcomma hmore
      exact .nextTarget hused hcomma hmore.1 hmore.2
    refine htargets.bind fun us targets hus => ?_
    refine meets_expect_bind (by decide) fun eq heq => ?_
    refine (meets_expressionList hdeeper).map fun vs values hvs => ?_
    have hassign := Derives.assign hus heq hvs
    rw [List.append_assoc] at hassign
    exact hassign
  refine meets_peekKind_bind fun kind _ => ?_
  split
  · exact hassign
  · exact hassign
  · refine Meets.ite (fun hcall => Meets.pure ?_) fun _ => meets_unexpected
    rw [List.append_nil]
    exact .callStatement hts hcall

/-- Every statement derives exactly the tokens that it consumes. -/
theorem meets_statement
    (hdeeper : deeper.Sound whole) :
    (statement deeper).Meets whole front fun used stmt =>
      Derives anyStep (.statement stmt) used := by
  refine meets_peekKind_bind fun kind _ => ?_
  split
  · exact meets_advance_bind (by decide) fun mark hmark => Meets.pure (.semicolon hmark)
  · exact meets_labelStatement
  · exact meets_advance_bind (by decide) fun word hword => Meets.pure (.breakLoop hword)
  · refine meets_advance_bind (by decide) fun word hword => ?_
    exact meets_name_map fun id hid => .goto hword hid
  · exact meets_whileStatement hdeeper
  · exact meets_doStatement hdeeper
  · exact meets_repeatStatement hdeeper
  · exact meets_ifStatement hdeeper
  · exact meets_forStatement hdeeper
  · exact meets_functionStatement hdeeper
  · exact meets_localStatement hdeeper
  · exact meets_expressionStatement hdeeper

/-! ## Blocks and programs -/

/-- Expressions, targets, bodies of loops and statements take at least one token. -/
theorem statement_ne_nil
    {explicit : Expr → Prop}
    {node : Node}
    {ts : List Token}
    (h : Derives explicit node ts) :
    match node with
    | .primary _ | .suffixed _ | .simple _ | .expression _ | .expressions _ | .arguments _
    | .table _ | .targets _ | .loopBody _ | .statement _ => ts ≠ []
    | _ => True := by
  induction h <;> simp_all

/-- Returned values may be missing. -/
theorem meets_returnedValues
    (hdeeper : deeper.Sound whole) :
    (returnedValues deeper).Meets whole front fun used values =>
      Derives anyStep (.returnedValues values) used := by
  refine meets_peekKind_bind fun kind _ => ?_
  refine Meets.ite (fun _ => Meets.pure .noReturnedValues) fun _ => ?_
  exact (meets_expressionList hdeeper).mono fun ts values hts => .returnedValues hts

/-- A block derives its statements, the last of which may be a `return`. -/
theorem meets_blockAt
    (hdeeper : deeper.Sound whole) :
    (block deeper).Meets whole anyKind fun used stmts => Derives anyStep (.block stmts) used := by
  refine meets_loop_start (fun used stmts => Derives anyStep (.statements stmts) used)
    ?_ .noStatement
  intro used stmts hused
  refine meets_peekKind_bind fun kind _ => ?_
  refine Meets.ite (fun _ => meets_done (.openBlock hused)) fun _ => ?_
  refine Meets.ite (fun _ => ?_) fun _ => ?_
  · have hreturn : (returnStatement deeper).Meets whole (· = kind) fun more stmt =>
        Derives anyStep (.block (stmts ++ [stmt])) (used ++ more) := by
      refine meets_expect_bind (by decide) fun word hword => ?_
      refine (meets_returnedValues hdeeper).bind fun ts values hts => ?_
      refine meets_accept_bind (by decide) ?_ (Meets.pure ?_)
      · intro mark hmark
        exact Meets.pure (.returningBlockClosed hused hword hts hmark)
      · rw [List.append_nil]
        exact .returningBlock hused hword hts
    exact hreturn.map fun more stmt hmore => hmore
  · refine (meets_statement hdeeper).map fun more stmt hmore => ?_
    exact ⟨statement_ne_nil hmore, .nextStatement hused hmore⟩

/-- Every phrase derives what it consumes, by induction on the levels that are left. -/
theorem sound_phrase
    (limit budget : Nat) :
    Descent.Sound whole (phrase limit budget) := by
  induction budget with
  | zero =>
      intro asked tokens htokens _
      cases asked <;>
        exact ⟨List.suffix_refl tokens, nextToken tokens, nextToken_among htokens, rfl, nofun⟩
  | succ budget ih =>
      intro asked
      cases asked with
      | block => exact meets_blockAt ih
      | expression least => exact meets_expressionAt ih least

/-- A program is a block of all tokens up to the end of the source. -/
theorem meets_chunk
    (limit : Nat) :
    (chunk limit).Meets whole anyKind fun used program =>
      Derives anyStep (.block program.body) used := by
  refine (meets_block (sound_phrase limit limit)).bind fun ts body hts => ?_
  refine meets_peekKind_bind fun kind _ => ?_
  refine Meets.ite (fun _ => Meets.pure ?_) fun _ => meets_unexpected
  rw [List.append_nil]
  exact hts

end Grammar
end LuaView
