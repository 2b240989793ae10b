import LuaView.Proofs.Parsing.Soundness

/-!
# Idle steps

A numeric loop has a step of one if none is written.  A step that is written and is one makes no
difference to the program; it is called idle here.  A run of tokens without idle steps has a
derivation in which every step that is written is active.
-/

namespace LuaView

open Grammar (Node Derives)

/-- The head of a numeric loop whose step is written and is the default. -/
def IsIdleHead (head : List Token) : Prop :=
  ∃ (word id eq comma another last : Token) (start stop step : Expr)
      (ts us vs : List Token),
    head = word :: id :: eq :: (ts ++ comma :: (us ++ another :: (vs ++ [last]))) ∧
      word.kind = .keyword .for_ ∧ id.kind = .name ∧ eq.kind = .symbol .eq ∧
      comma.kind = .symbol .comma ∧ another.kind = .symbol .comma ∧ last.kind = .keyword .do_ ∧
      Derives anyStep (.expression start) ts ∧ Derives anyStep (.expression stop) us ∧
      Derives anyStep (.expression step) vs ∧ step.isDefaultStep = true

/-- No loop among the tokens has a step that is written although it is the default. -/
def NoIdleStep (tokens : List Token) : Prop :=
  ∀ head, head <:+: tokens → ¬ IsIdleHead head

namespace NoIdleStep

/-- A part of a source without idle steps has none. -/
theorem of_infix
    {part tokens : List Token}
    (h : NoIdleStep tokens)
    (hpart : part <:+: tokens) :
    NoIdleStep part :=
  fun head hhead => h head (hhead.trans hpart)

theorem left
    {ts us : List Token}
    (h : NoIdleStep (ts ++ us)) :
    NoIdleStep ts :=
  h.of_infix (List.prefix_append ts us).isInfix

theorem right
    {ts us : List Token}
    (h : NoIdleStep (ts ++ us)) :
    NoIdleStep us :=
  h.of_infix (List.suffix_append ts us).isInfix

/-- Behind its first token there is no idle step either. -/
theorem tail
    {token : Token}
    {ts : List Token}
    (h : NoIdleStep (token :: ts)) :
    NoIdleStep ts :=
  h.of_infix (List.suffix_cons token ts).isInfix

/-- An idle step stands behind two commas. -/
theorem of_commas
    {tokens : List Token}
    (h : tokens.countP (fun token => token.kind == .symbol .comma) < 2) :
    NoIdleStep tokens := by
  rintro head hhead ⟨word, id, eq, comma, another, last, _, _, _, ts, us, vs, rfl, _, _, _,
    hcomma, hanother, _⟩
  have hle := hhead.sublist.countP_le (p := fun token => token.kind == .symbol .comma)
  simp only [List.countP_cons, List.countP_append, hcomma, hanother, BEq.rfl, if_true] at hle
  omega

end NoIdleStep

/-- A step that is written has an effect. -/
def activeStep (step : Expr) : Prop := step.isDefaultStep = false

/-- What a node without idle steps derives; a step by itself must be said to be active. -/
def Grammar.Node.DerivesActive (node : Node) (tokens : List Token) : Prop :=
  match node with
  | .loopStep step => tokens = [] ∨ activeStep step → Derives activeStep node tokens
  | node => Derives activeStep node tokens

/-- A derivation whose tokens hold no idle step derives active steps only. -/
theorem derivesActive
    {node : Node}
    {tokens : List Token}
    (h : Derives anyStep node tokens)
    (hidle : NoIdleStep tokens) :
    node.DerivesActive tokens := by
  induction h with
  | name hid => exact .name hid
  | parenthesised hleft _ hright ih => exact .parenthesised hleft (ih hidle.tail.left) hright
  | primary _ ih => exact .primary (ih hidle)
  | dot _ hdot hid ih => exact .dot (ih hidle.left) hdot hid
  | bracket _ hleft _ hright ihvalue ihkey =>
      exact .bracket (ihvalue hidle.left) hleft (ihkey hidle.right.tail.left) hright
  | call _ _ ihvalue iharguments =>
      exact .call (ihvalue hidle.left) (iharguments hidle.right)
  | invoke _ hcolon hid _ ihvalue iharguments =>
      exact .invoke (ihvalue hidle.left) hcolon hid (iharguments hidle.right.tail.tail)
  | noArguments hleft hright => exact .noArguments hleft hright
  | listedArguments hleft _ hright ih =>
      exact .listedArguments hleft (ih hidle.tail.left) hright
  | tableArgument _ ih => exact .tableArgument (ih hidle)
  | stringArgument htoken => exact .stringArgument htoken
  | nil htoken => exact .nil htoken
  | true htoken => exact .true htoken
  | false htoken => exact .false htoken
  | varargs htoken => exact .varargs htoken
  | number htoken hvalue => exact .number htoken hvalue
  | string htoken => exact .string htoken
  | function hword _ ih => exact .function hword (ih hidle.tail)
  | table _ ih => exact .table (ih hidle)
  | suffixed _ ih => exact .suffixed (ih hidle)
  | simple _ ih => exact .simple (ih hidle)
  | unary hmark _ ih => exact .unary hmark (ih hidle.tail)
  | binary _ hmark _ ihleft ihright =>
      exact .binary (ihleft hidle.left) hmark (ihright hidle.right.tail)
  | firstExpression _ ih => exact .firstExpression (ih hidle)
  | nextExpression _ hcomma _ ihvalues ihvalue =>
      exact .nextExpression (ihvalues hidle.left) hcomma (ihvalue hidle.right.tail)
  | bracketedField hleft _ hright heq _ ihkey ihvalue =>
      exact .bracketedField hleft (ihkey hidle.tail.left) hright heq
        (ihvalue hidle.tail.right.tail.tail)
  | namedField hid heq _ ih => exact .namedField hid heq (ih hidle.tail.tail)
  | positionalField _ ih => exact .positionalField (ih hidle)
  | noEntry => exact .noEntry
  | nextEntry _ _ hseparator ihfields ihfield =>
      exact .nextEntry (ihfields hidle.left) (ihfield hidle.right.left) hseparator
  | separatedTable hleft _ hright ih => exact .separatedTable hleft (ih hidle.tail.left) hright
  | unseparatedTable hleft _ _ hright ihfields ihfield =>
      exact .unseparatedTable hleft (ihfields hidle.tail.left.left)
        (ihfield hidle.tail.left.right) hright
  | noLeadingParameter => exact .noLeadingParameter
  | nextLeadingParameter _ hid hcomma ih =>
      exact .nextLeadingParameter (ih hidle.left) hid hcomma
  | noParameters => exact .noParameters
  | lastParameter _ hid ih => exact .lastParameter (ih hidle.left) hid
  | lastVarargs _ hdots ih => exact .lastVarargs (ih hidle.left) hdots
  | functionBody hleft _ hright _ hword ihparameters ihbody =>
      exact .functionBody hleft (ihparameters hidle.tail.left) hright
        (ihbody hidle.tail.right.tail.left) hword
  | firstName hid => exact .firstName hid
  | nextName _ hcomma hid ih => exact .nextName (ih hidle.left) hcomma hid
  | firstPart hid => exact .firstPart hid
  | nextPart _ hdot hid ih => exact .nextPart (ih hidle.left) hdot hid
  | firstTarget _ hassignable ih => exact .firstTarget (ih hidle) hassignable
  | nextTarget _ hcomma _ hassignable ihvalues ihvalue =>
      exact .nextTarget (ihvalues hidle.left) hcomma (ihvalue hidle.right.tail) hassignable
  | noInitialValues => exact .noInitialValues
  | initialValues heq _ ih => exact .initialValues heq (ih hidle.tail)
  | noReturnedValues => exact .noReturnedValues
  | returnedValues _ ih => exact .returnedValues (ih hidle)
  | omittedStep => exact fun _ => .omittedStep
  | explicitStep hcomma _ _ ih =>
      rintro (hnil | hactive)
      · cases hnil
      · exact .explicitStep hcomma (ih hidle.tail) hactive
  | loopBody hfirst _ hlast ih => exact .loopBody hfirst (ih hidle.tail.left) hlast
  | guarded _ hword _ ihtest ihbody =>
      exact .guarded (ihtest hidle.left) hword (ihbody hidle.right.tail)
  | noClause => exact .noClause
  | nextClause _ hword _ ihclauses ihclause =>
      exact .nextClause (ihclauses hidle.left) hword (ihclause hidle.right.tail)
  | noAlternative => exact .noAlternative
  | alternative hword _ ih => exact .alternative hword (ih hidle.tail)
  | semicolon hmark => exact .semicolon hmark
  | label hleft hid hright => exact .label hleft hid hright
  | breakLoop hword => exact .breakLoop hword
  | goto hword hid => exact .goto hword hid
  | whileLoop hword _ _ ihtest ihbody =>
      exact .whileLoop hword (ihtest hidle.tail.left) (ihbody hidle.tail.right)
  | doBlock _ ih => exact .doBlock (ih hidle)
  | repeatLoop hfirst _ hword _ ihbody ihtest =>
      exact .repeatLoop hfirst (ihbody hidle.tail.left) hword (ihtest hidle.tail.right.tail)
  | ifThen hfirst _ _ _ hlast ihguarded ihclauses ihalternative =>
      exact .ifThen hfirst (ihguarded hidle.tail.left) (ihclauses hidle.tail.right.left)
        (ihalternative hidle.tail.right.right.left) hlast
  | @numericFor word id eq comma start stop step body ts us vs ws hword hid heq hstart hcomma hstop
      hstep hbody ihstart ihstop ihstep ihbody =>
      have hrest := hidle.tail.tail.tail.right.tail.right
      have hactive : vs = [] ∨ activeStep step := by
        cases hstep with
        | omittedStep => exact .inl rfl
        | @explicitStep another _ written hanother hwritten _ =>
            right
            cases hbody with
            | @loopBody first last _ inner hfirst _ _ =>
                refine Bool.eq_false_iff.mpr fun hdefault => hidle
                  (word :: id :: eq :: (ts ++ comma :: (us ++ another :: (written ++ [first]))))
                  ⟨[], inner ++ [last], by simp⟩ ?_
                exact ⟨word, id, eq, comma, another, first, start, stop, step, ts, us, written, rfl,
                  hword, hid, heq, hcomma, hanother, hfirst, hstart, hstop, hwritten, hdefault⟩
      exact .numericFor hword hid heq (ihstart hidle.tail.tail.tail.left) hcomma
        (ihstop hidle.tail.tail.tail.right.tail.left) (ihstep hrest.left hactive)
        (ihbody hrest.right)
  | genericFor hword _ hmiddle _ _ ihids ihiterators ihbody =>
      exact .genericFor hword (ihids hidle.tail.left) hmiddle
        (ihiterators hidle.tail.right.tail.left) (ihbody hidle.tail.right.tail.right)
  | functionStatement hword _ _ ihpath ihbody =>
      exact .functionStatement hword (ihpath hidle.tail.left) (ihbody hidle.tail.right)
  | method hword _ hcolon hid _ ihpath ihbody =>
      exact .method hword (ihpath hidle.tail.left) hcolon hid (ihbody hidle.tail.right.tail.tail)
  | localFunction hfirst hword hid _ ih =>
      exact .localFunction hfirst hword hid (ih hidle.tail.tail.tail)
  | localAssign hword _ _ ihids ihvalues =>
      exact .localAssign hword (ihids hidle.tail.left) (ihvalues hidle.tail.right)
  | assign _ heq _ ihtargets ihvalues =>
      exact .assign (ihtargets hidle.left) heq (ihvalues hidle.right.tail)
  | callStatement _ hcall ih => exact .callStatement (ih hidle) hcall
  | noStatement => exact .noStatement
  | nextStatement _ _ ihstmts ihstmt =>
      exact .nextStatement (ihstmts hidle.left) (ihstmt hidle.right)
  | openBlock _ ih => exact .openBlock (ih hidle)
  | returningBlock _ hword _ ihstmts ihvalues =>
      exact .returningBlock (ihstmts hidle.left) hword (ihvalues hidle.right.tail)
  | returningBlockClosed _ hword _ hmark ihstmts ihvalues =>
      exact .returningBlockClosed (ihstmts hidle.left) hword (ihvalues hidle.right.tail.left) hmark

end LuaView
