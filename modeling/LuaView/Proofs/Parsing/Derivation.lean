import LuaView.Grammar.Statement

/-!
# Derivations

The grammar as a relation between trees and runs of tokens.  `Derives explicit node tokens` says
that the tokens, read from left to right, are the node: every token of the run is accounted for by
one rule, and every part of the tree by the tokens it was read from.

A tree does not record everything.  A pair of parentheses leaves no trace in it, nor do the
separators of a table, the semicolon behind `return`, the short forms of a call, and the digits of
a numeral.  A numeric loop without a step has the same tree as one whose step is written as one;
the parameter `explicit` limits which expressions may be written as a step.

Operators are grouped in any way here.  Which of the groupings is chosen is a matter of precedence
and not of the grammar.
-/

namespace LuaView
namespace Grammar

/-- What a run of tokens is read as. -/
inductive Node where
  | primary (value : Expr)
  | suffixed (value : Expr)
  | simple (value : Expr)
  | expression (value : Expr)
  | expressions (values : List Expr)
  | arguments (values : List Expr)
  | field (field : Field)
  /-- Entries of a table, each with the separator behind it. -/
  | entries (fields : List Field)
  | table (fields : List Field)
  /-- Parameters, each with the comma behind it. -/
  | leadingParameters (parameters : List Expr)
  | parameters (parameters : List Expr)
  | functionBody (parameters : List Expr) (body : Block)
  | names (ids : List Name)
  /-- The dotted name of a function. -/
  | path (value : Expr)
  | targets (values : List Expr)
  | initialValues (values : List Expr)
  | returnedValues (values : List Expr)
  | loopStep (step : Expr)
  | loopBody (body : Block)
  | guarded (test : Expr) (body : Block)
  | clauses (clauses : List (Expr × Block))
  | alternative (last : Option ElseBranch)
  | statement (stmt : Stmt)
  /-- Statements that a block may go on behind. -/
  | statements (stmts : Block)
  | block (stmts : Block)

/-- The clauses of a condition, each inside the one before it, and the last alternative inside the
last clause. -/
def alternatives : List (Expr × Block) → Option ElseBranch → Option ElseBranch
  | [], last => last
  | (test, body) :: clauses, last => some (.elseIf test body (alternatives clauses last))

/-- The chain that is parsed is that of the grammar. -/
theorem chain_eq_alternatives
    (clauses : List (Expr × Block))
    (last : Option ElseBranch) :
    chain clauses last = alternatives clauses last := by
  induction clauses with
  | nil => rfl
  | cons clause clauses ih =>
      show some (ElseBranch.elseIf clause.1 clause.2 (chain clauses last)) = _
      rw [ih]
      rfl

/-- The tokens are read as the node. -/
inductive Derives (explicit : Expr → Prop) : Node → List Token → Prop
  | name
      {id : Token}
      (hid : id.kind = .name) :
      Derives explicit (.primary (.name id.text)) [id]
  | parenthesised
      {left right : Token} {value : Expr} {ts : List Token}
      (hleft : left.kind = .symbol .lparen)
      (hvalue : Derives explicit (.expression value) ts)
      (hright : right.kind = .symbol .rparen) :
      Derives explicit (.primary value) (left :: (ts ++ [right]))
  | primary
      {value : Expr} {ts : List Token}
      (hvalue : Derives explicit (.primary value) ts) :
      Derives explicit (.suffixed value) ts
  | dot
      {value : Expr} {ts : List Token} {dot id : Token}
      (hvalue : Derives explicit (.suffixed value) ts)
      (hdot : dot.kind = .symbol .dot)
      (hid : id.kind = .name) :
      Derives explicit (.suffixed (.dot value id.text)) (ts ++ [dot, id])
  | bracket
      {value key : Expr} {ts us : List Token} {left right : Token}
      (hvalue : Derives explicit (.suffixed value) ts)
      (hleft : left.kind = .symbol .lbracket)
      (hkey : Derives explicit (.expression key) us)
      (hright : right.kind = .symbol .rbracket) :
      Derives explicit (.suffixed (.bracket value key)) (ts ++ left :: (us ++ [right]))
  | call
      {value : Expr} {arguments : List Expr} {ts us : List Token}
      (hvalue : Derives explicit (.suffixed value) ts)
      (harguments : Derives explicit (.arguments arguments) us) :
      Derives explicit (.suffixed (.call value arguments)) (ts ++ us)
  | invoke
      {value : Expr} {arguments : List Expr} {ts us : List Token} {colon id : Token}
      (hvalue : Derives explicit (.suffixed value) ts)
      (hcolon : colon.kind = .symbol .colon)
      (hid : id.kind = .name)
      (harguments : Derives explicit (.arguments arguments) us) :
      Derives explicit (.suffixed (.invoke value id.text arguments)) (ts ++ colon :: id :: us)
  | noArguments
      {left right : Token}
      (hleft : left.kind = .symbol .lparen)
      (hright : right.kind = .symbol .rparen) :
      Derives explicit (.arguments []) [left, right]
  | listedArguments
      {left right : Token} {values : List Expr} {ts : List Token}
      (hleft : left.kind = .symbol .lparen)
      (hvalues : Derives explicit (.expressions values) ts)
      (hright : right.kind = .symbol .rparen) :
      Derives explicit (.arguments values) (left :: (ts ++ [right]))
  | tableArgument
      {fields : List Field} {ts : List Token}
      (htable : Derives explicit (.table fields) ts) :
      Derives explicit (.arguments [.table fields]) ts
  | stringArgument
      {token : Token} {delimiter : Delimiter}
      (htoken : token.kind = .string delimiter) :
      Derives explicit (.arguments [.string token.text delimiter]) [token]
  | nil
      {token : Token}
      (htoken : token.kind = .keyword .nil_) :
      Derives explicit (.simple .nil) [token]
  | true
      {token : Token}
      (htoken : token.kind = .keyword .true_) :
      Derives explicit (.simple (.boolean true)) [token]
  | false
      {token : Token}
      (htoken : token.kind = .keyword .false_) :
      Derives explicit (.simple (.boolean false)) [token]
  | varargs
      {token : Token}
      (htoken : token.kind = .symbol .ellipsis) :
      Derives explicit (.simple .varargs) [token]
  | number
      {token : Token} {value : Number}
      (htoken : token.kind = .number)
      (hvalue : Number.ofNumeral? token.text.toList = some value) :
      Derives explicit (.simple (.number value)) [token]
  | string
      {token : Token} {delimiter : Delimiter}
      (htoken : token.kind = .string delimiter) :
      Derives explicit (.simple (.string token.text delimiter)) [token]
  | function
      {word : Token} {parameters : List Expr} {body : Block} {ts : List Token}
      (hword : word.kind = .keyword .function_)
      (hbody : Derives explicit (.functionBody parameters body) ts) :
      Derives explicit (.simple (.function parameters body)) (word :: ts)
  | table
      {fields : List Field} {ts : List Token}
      (htable : Derives explicit (.table fields) ts) :
      Derives explicit (.simple (.table fields)) ts
  | suffixed
      {value : Expr} {ts : List Token}
      (hvalue : Derives explicit (.suffixed value) ts) :
      Derives explicit (.simple value) ts
  | simple
      {value : Expr} {ts : List Token}
      (hvalue : Derives explicit (.simple value) ts) :
      Derives explicit (.expression value) ts
  | unary
      {mark : Token} {op : UnaryOp} {operand : Expr} {ts : List Token}
      (hmark : mark.kind.display = op.symbol)
      (hoperand : Derives explicit (.expression operand) ts) :
      Derives explicit (.expression (.unary op operand)) (mark :: ts)
  | binary
      {mark : Token} {op : BinaryOp} {left right : Expr} {ts us : List Token}
      (hleft : Derives explicit (.expression left) ts)
      (hmark : mark.kind.display = op.symbol)
      (hright : Derives explicit (.expression right) us) :
      Derives explicit (.expression (.binary op left right)) (ts ++ mark :: us)
  | firstExpression
      {value : Expr} {ts : List Token}
      (hvalue : Derives explicit (.expression value) ts) :
      Derives explicit (.expressions [value]) ts
  | nextExpression
      {values : List Expr} {value : Expr} {ts us : List Token} {comma : Token}
      (hvalues : Derives explicit (.expressions values) ts)
      (hcomma : comma.kind = .symbol .comma)
      (hvalue : Derives explicit (.expression value) us) :
      Derives explicit (.expressions (values ++ [value])) (ts ++ comma :: us)
  | bracketedField
      {left right eq : Token} {key value : Expr} {ts us : List Token}
      (hleft : left.kind = .symbol .lbracket)
      (hkey : Derives explicit (.expression key) ts)
      (hright : right.kind = .symbol .rbracket)
      (heq : eq.kind = .symbol .eq)
      (hvalue : Derives explicit (.expression value) us) :
      Derives explicit (.field (.bracketed key value)) (left :: (ts ++ right :: eq :: us))
  | namedField
      {id eq : Token} {value : Expr} {ts : List Token}
      (hid : id.kind = .name)
      (heq : eq.kind = .symbol .eq)
      (hvalue : Derives explicit (.expression value) ts) :
      Derives explicit (.field (.named id.text value)) (id :: eq :: ts)
  | positionalField
      {value : Expr} {ts : List Token}
      (hvalue : Derives explicit (.expression value) ts) :
      Derives explicit (.field (.positional value)) ts
  | noEntry :
      Derives explicit (.entries []) []
  | nextEntry
      {fields : List Field} {field : Field} {ts us : List Token} {separator : Token}
      (hfields : Derives explicit (.entries fields) ts)
      (hfield : Derives explicit (.field field) us)
      (hseparator : separator.kind = .symbol .comma ∨ separator.kind = .symbol .semicolon) :
      Derives explicit (.entries (fields ++ [field])) (ts ++ (us ++ [separator]))
  | separatedTable
      {left right : Token} {fields : List Field} {ts : List Token}
      (hleft : left.kind = .symbol .lbrace)
      (hfields : Derives explicit (.entries fields) ts)
      (hright : right.kind = .symbol .rbrace) :
      Derives explicit (.table fields) (left :: (ts ++ [right]))
  | unseparatedTable
      {left right : Token} {fields : List Field} {field : Field} {ts us : List Token}
      (hleft : left.kind = .symbol .lbrace)
      (hfields : Derives explicit (.entries fields) ts)
      (hfield : Derives explicit (.field field) us)
      (hright : right.kind = .symbol .rbrace) :
      Derives explicit (.table (fields ++ [field])) (left :: (ts ++ us ++ [right]))
  | noLeadingParameter :
      Derives explicit (.leadingParameters []) []
  | nextLeadingParameter
      {parameters : List Expr} {ts : List Token} {id comma : Token}
      (hparameters : Derives explicit (.leadingParameters parameters) ts)
      (hid : id.kind = .name)
      (hcomma : comma.kind = .symbol .comma) :
      Derives explicit (.leadingParameters (parameters ++ [.name id.text])) (ts ++ [id, comma])
  | noParameters :
      Derives explicit (.parameters []) []
  | lastParameter
      {parameters : List Expr} {ts : List Token} {id : Token}
      (hparameters : Derives explicit (.leadingParameters parameters) ts)
      (hid : id.kind = .name) :
      Derives explicit (.parameters (parameters ++ [.name id.text])) (ts ++ [id])
  | lastVarargs
      {parameters : List Expr} {ts : List Token} {dots : Token}
      (hparameters : Derives explicit (.leadingParameters parameters) ts)
      (hdots : dots.kind = .symbol .ellipsis) :
      Derives explicit (.parameters (parameters ++ [.varargs])) (ts ++ [dots])
  | functionBody
      {left right word : Token} {parameters : List Expr} {body : Block} {ts us : List Token}
      (hleft : left.kind = .symbol .lparen)
      (hparameters : Derives explicit (.parameters parameters) ts)
      (hright : right.kind = .symbol .rparen)
      (hbody : Derives explicit (.block body) us)
      (hword : word.kind = .keyword .end_) :
      Derives explicit (.functionBody parameters body)
        (left :: (ts ++ right :: (us ++ [word])))
  | firstName
      {id : Token}
      (hid : id.kind = .name) :
      Derives explicit (.names [id.text]) [id]
  | nextName
      {ids : List Name} {ts : List Token} {comma id : Token}
      (hids : Derives explicit (.names ids) ts)
      (hcomma : comma.kind = .symbol .comma)
      (hid : id.kind = .name) :
      Derives explicit (.names (ids ++ [id.text])) (ts ++ [comma, id])
  | firstPart
      {id : Token}
      (hid : id.kind = .name) :
      Derives explicit (.path (.name id.text)) [id]
  | nextPart
      {value : Expr} {ts : List Token} {dot id : Token}
      (hvalue : Derives explicit (.path value) ts)
      (hdot : dot.kind = .symbol .dot)
      (hid : id.kind = .name) :
      Derives explicit (.path (.dot value id.text)) (ts ++ [dot, id])
  | firstTarget
      {value : Expr} {ts : List Token}
      (hvalue : Derives explicit (.suffixed value) ts)
      (hassignable : value.isAssignable = true) :
      Derives explicit (.targets [value]) ts
  | nextTarget
      {values : List Expr} {value : Expr} {ts us : List Token} {comma : Token}
      (hvalues : Derives explicit (.targets values) ts)
      (hcomma : comma.kind = .symbol .comma)
      (hvalue : Derives explicit (.suffixed value) us)
      (hassignable : value.isAssignable = true) :
      Derives explicit (.targets (values ++ [value])) (ts ++ comma :: us)
  | noInitialValues :
      Derives explicit (.initialValues []) []
  | initialValues
      {eq : Token} {values : List Expr} {ts : List Token}
      (heq : eq.kind = .symbol .eq)
      (hvalues : Derives explicit (.expressions values) ts) :
      Derives explicit (.initialValues values) (eq :: ts)
  | noReturnedValues :
      Derives explicit (.returnedValues []) []
  | returnedValues
      {values : List Expr} {ts : List Token}
      (hvalues : Derives explicit (.expressions values) ts) :
      Derives explicit (.returnedValues values) ts
  | omittedStep :
      Derives explicit (.loopStep (.int 1)) []
  | explicitStep
      {comma : Token} {step : Expr} {ts : List Token}
      (hcomma : comma.kind = .symbol .comma)
      (hstep : Derives explicit (.expression step) ts)
      (hexplicit : explicit step) :
      Derives explicit (.loopStep step) (comma :: ts)
  | loopBody
      {first last : Token} {body : Block} {ts : List Token}
      (hfirst : first.kind = .keyword .do_)
      (hbody : Derives explicit (.block body) ts)
      (hlast : last.kind = .keyword .end_) :
      Derives explicit (.loopBody body) (first :: (ts ++ [last]))
  | guarded
      {word : Token} {test : Expr} {body : Block} {ts us : List Token}
      (htest : Derives explicit (.expression test) ts)
      (hword : word.kind = .keyword .then_)
      (hbody : Derives explicit (.block body) us) :
      Derives explicit (.guarded test body) (ts ++ word :: us)
  | noClause :
      Derives explicit (.clauses []) []
  | nextClause
      {word : Token} {clauses : List (Expr × Block)} {test : Expr} {body : Block}
      {ts us : List Token}
      (hclauses : Derives explicit (.clauses clauses) ts)
      (hword : word.kind = .keyword .elseif_)
      (hclause : Derives explicit (.guarded test body) us) :
      Derives explicit (.clauses (clauses ++ [(test, body)])) (ts ++ word :: us)
  | noAlternative :
      Derives explicit (.alternative none) []
  | alternative
      {word : Token} {body : Block} {ts : List Token}
      (hword : word.kind = .keyword .else_)
      (hbody : Derives explicit (.block body) ts) :
      Derives explicit (.alternative (some (.final body))) (word :: ts)
  | semicolon
      {mark : Token}
      (hmark : mark.kind = .symbol .semicolon) :
      Derives explicit (.statement .semicolon) [mark]
  | label
      {left id right : Token}
      (hleft : left.kind = .symbol .colonColon)
      (hid : id.kind = .name)
      (hright : right.kind = .symbol .colonColon) :
      Derives explicit (.statement (.label id.text)) [left, id, right]
  | breakLoop
      {word : Token}
      (hword : word.kind = .keyword .break_) :
      Derives explicit (.statement .breakLoop) [word]
  | goto
      {word id : Token}
      (hword : word.kind = .keyword .goto_)
      (hid : id.kind = .name) :
      Derives explicit (.statement (.goto id.text)) [word, id]
  | whileLoop
      {word : Token} {test : Expr} {body : Block} {ts us : List Token}
      (hword : word.kind = .keyword .while_)
      (htest : Derives explicit (.expression test) ts)
      (hbody : Derives explicit (.loopBody body) us) :
      Derives explicit (.statement (.whileLoop test body)) (word :: (ts ++ us))
  | doBlock
      {body : Block} {ts : List Token}
      (hbody : Derives explicit (.loopBody body) ts) :
      Derives explicit (.statement (.doBlock body)) ts
  | repeatLoop
      {first word : Token} {body : Block} {test : Expr} {ts us : List Token}
      (hfirst : first.kind = .keyword .repeat_)
      (hbody : Derives explicit (.block body) ts)
      (hword : word.kind = .keyword .until_)
      (htest : Derives explicit (.expression test) us) :
      Derives explicit (.statement (.repeatLoop body test)) (first :: (ts ++ word :: us))
  | ifThen
      {first last : Token} {test : Expr} {body : Block} {clauses : List (Expr × Block)}
      {alternative : Option ElseBranch} {ts us vs : List Token}
      (hfirst : first.kind = .keyword .if_)
      (hguarded : Derives explicit (.guarded test body) ts)
      (hclauses : Derives explicit (.clauses clauses) us)
      (halternative : Derives explicit (.alternative alternative) vs)
      (hlast : last.kind = .keyword .end_) :
      Derives explicit (.statement (.ifThen test body (alternatives clauses alternative)))
        (first :: (ts ++ (us ++ (vs ++ [last]))))
  | numericFor
      {word id eq comma : Token} {start stop step : Expr} {body : Block}
      {ts us vs ws : List Token}
      (hword : word.kind = .keyword .for_)
      (hid : id.kind = .name)
      (heq : eq.kind = .symbol .eq)
      (hstart : Derives explicit (.expression start) ts)
      (hcomma : comma.kind = .symbol .comma)
      (hstop : Derives explicit (.expression stop) us)
      (hstep : Derives explicit (.loopStep step) vs)
      (hbody : Derives explicit (.loopBody body) ws) :
      Derives explicit (.statement (.numericFor id.text start stop step body))
        (word :: id :: eq :: (ts ++ comma :: (us ++ (vs ++ ws))))
  | genericFor
      {word middle : Token} {ids : List Name} {iterators : List Expr} {body : Block}
      {ts us vs : List Token}
      (hword : word.kind = .keyword .for_)
      (hids : Derives explicit (.names ids) ts)
      (hmiddle : middle.kind = .keyword .in_)
      (hiterators : Derives explicit (.expressions iterators) us)
      (hbody : Derives explicit (.loopBody body) vs) :
      Derives explicit (.statement (.genericFor ids iterators body))
        (word :: (ts ++ middle :: (us ++ vs)))
  | functionStatement
      {word : Token} {path : Expr} {parameters : List Expr} {body : Block} {ts us : List Token}
      (hword : word.kind = .keyword .function_)
      (hpath : Derives explicit (.path path) ts)
      (hbody : Derives explicit (.functionBody parameters body) us) :
      Derives explicit (.statement (.function path parameters body)) (word :: (ts ++ us))
  | method
      {word colon id : Token} {path : Expr} {parameters : List Expr} {body : Block}
      {ts us : List Token}
      (hword : word.kind = .keyword .function_)
      (hpath : Derives explicit (.path path) ts)
      (hcolon : colon.kind = .symbol .colon)
      (hid : id.kind = .name)
      (hbody : Derives explicit (.functionBody parameters body) us) :
      Derives explicit (.statement (.method path id.text parameters body))
        (word :: (ts ++ colon :: id :: us))
  | localFunction
      {first word id : Token} {parameters : List Expr} {body : Block} {ts : List Token}
      (hfirst : first.kind = .keyword .local_)
      (hword : word.kind = .keyword .function_)
      (hid : id.kind = .name)
      (hbody : Derives explicit (.functionBody parameters body) ts) :
      Derives explicit (.statement (.localFunction id.text parameters body))
        (first :: word :: id :: ts)
  | localAssign
      {word : Token} {ids : List Name} {values : List Expr} {ts us : List Token}
      (hword : word.kind = .keyword .local_)
      (hids : Derives explicit (.names ids) ts)
      (hvalues : Derives explicit (.initialValues values) us) :
      Derives explicit (.statement (.localAssign (ids.map .name) values)) (word :: (ts ++ us))
  | assign
      {eq : Token} {targets values : List Expr} {ts us : List Token}
      (htargets : Derives explicit (.targets targets) ts)
      (heq : eq.kind = .symbol .eq)
      (hvalues : Derives explicit (.expressions values) us) :
      Derives explicit (.statement (.assign targets values)) (ts ++ eq :: us)
  | callStatement
      {value : Expr} {ts : List Token}
      (hvalue : Derives explicit (.suffixed value) ts)
      (hcall : value.isCall = true) :
      Derives explicit (.statement (.expr value)) ts
  | noStatement :
      Derives explicit (.statements []) []
  | nextStatement
      {stmts : Block} {stmt : Stmt} {ts us : List Token}
      (hstmts : Derives explicit (.statements stmts) ts)
      (hstmt : Derives explicit (.statement stmt) us) :
      Derives explicit (.statements (stmts ++ [stmt])) (ts ++ us)
  | openBlock
      {stmts : Block} {ts : List Token}
      (hstmts : Derives explicit (.statements stmts) ts) :
      Derives explicit (.block stmts) ts
  | returningBlock
      {word : Token} {stmts : Block} {values : List Expr} {ts us : List Token}
      (hstmts : Derives explicit (.statements stmts) ts)
      (hword : word.kind = .keyword .return_)
      (hvalues : Derives explicit (.returnedValues values) us) :
      Derives explicit (.block (stmts ++ [.returnValues values])) (ts ++ word :: us)
  | returningBlockClosed
      {word mark : Token} {stmts : Block} {values : List Expr} {ts us : List Token}
      (hstmts : Derives explicit (.statements stmts) ts)
      (hword : word.kind = .keyword .return_)
      (hvalues : Derives explicit (.returnedValues values) us)
      (hmark : mark.kind = .symbol .semicolon) :
      Derives explicit (.block (stmts ++ [.returnValues values])) (ts ++ word :: (us ++ [mark]))

/-- What a phrase is read as. -/
def Node.ofPhrase : (phrase : Phrase) → phrase.Tree → Node
  | .block, stmts => .block stmts
  | .expression _, value => .expression value

end Grammar
end LuaView
