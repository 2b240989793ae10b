import LuaView.Proofs.Parsing.Acceptance

/-!
# Runs of statements

In the tokens of a program every statement has a run of its own, at whatever depth it stands.  The
tokens of a block are the runs of its statements, one after the other; the run of a statement holds
the tokens of the blocks right inside it, in the order they are read in, with other tokens between
them.

`StmtRuns P stmts tokens` says so of the statements of a block, and that `P` holds of every
statement and its run.  What is derived from tokens has such runs for every `P` that holds of a
statement and the tokens it is derived from.
-/

namespace LuaView

mutual

/-- The blocks right inside an expression, in the order they are read in. -/
def Expr.blocks : Expr → List Block
  | .nil | .boolean _ | .varargs | .number _ | .string _ _ | .name _ => []
  | .table fields => Field.blocksOfAll fields
  | .function parameters body => Expr.blocksOfAll parameters ++ [body]
  | .index value key _ => value.blocks ++ key.blocks
  | .call callee arguments => callee.blocks ++ Expr.blocksOfAll arguments
  | .invoke receiver _ arguments => receiver.blocks ++ Expr.blocksOfAll arguments
  | .binary _ left right => left.blocks ++ right.blocks
  | .unary _ operand => operand.blocks

def Expr.blocksOfAll : List Expr → List Block
  | [] => []
  | value :: values => value.blocks ++ Expr.blocksOfAll values

def Field.blocks : Field → List Block
  | .mk none value _ => value.blocks
  | .mk (some key) value _ => key.blocks ++ value.blocks

def Field.blocksOfAll : List Field → List Block
  | [] => []
  | field :: fields => field.blocks ++ Field.blocksOfAll fields

end

mutual

def ElseBranch.blocks : ElseBranch → List Block
  | .elseIf test body orelse => test.blocks ++ body :: ElseBranch.optionBlocks orelse
  | .final body => [body]

/-- The blocks of the clauses and of the last alternative behind a condition. -/
def ElseBranch.optionBlocks : Option ElseBranch → List Block
  | none => []
  | some orelse => orelse.blocks

end

/-- The blocks right inside a statement, in the order they are read in. -/
def Stmt.blocks : Stmt → List Block
  | .assign targets values | .localAssign targets values =>
      Expr.blocksOfAll targets ++ Expr.blocksOfAll values
  | .whileLoop test body => test.blocks ++ [body]
  | .doBlock body => [body]
  | .repeatLoop body test => body :: test.blocks
  | .ifThen test body orelse => test.blocks ++ body :: ElseBranch.optionBlocks orelse
  | .label _ | .goto _ | .breakLoop | .semicolon => []
  | .returnValues values => Expr.blocksOfAll values
  | .numericFor _ start stop step body =>
      start.blocks ++ (stop.blocks ++ (step.blocks ++ [body]))
  | .genericFor _ iterators body => Expr.blocksOfAll iterators ++ [body]
  | .function name parameters body => name.blocks ++ (Expr.blocksOfAll parameters ++ [body])
  | .localFunction _ parameters body => Expr.blocksOfAll parameters ++ [body]
  | .method receiver _ parameters body =>
      receiver.blocks ++ (Expr.blocksOfAll parameters ++ [body])
  | .expr value => value.blocks

/-- The blocks inside two lists of expressions. -/
theorem Expr.blocksOfAll_append (values more : List Expr) :
    Expr.blocksOfAll (values ++ more) = Expr.blocksOfAll values ++ Expr.blocksOfAll more := by
  induction values with
  | nil => rfl
  | cons value values ih =>
      rw [List.cons_append, Expr.blocksOfAll, Expr.blocksOfAll, ih, List.append_assoc]

theorem Expr.blocksOfAll_names (ids : List Name) :
    Expr.blocksOfAll (ids.map .name) = [] := by
  induction ids with
  | nil => rfl
  | cons id ids ih => rw [List.map_cons, Expr.blocksOfAll, ih]; rfl

theorem Field.blocksOfAll_append (fields more : List Field) :
    Field.blocksOfAll (fields ++ more) = Field.blocksOfAll fields ++ Field.blocksOfAll more := by
  induction fields with
  | nil => rfl
  | cons field fields ih =>
      rw [List.cons_append, Field.blocksOfAll, Field.blocksOfAll, ih, List.append_assoc]

namespace Grammar

mutual

/-- The tokens are cut into one run for each statement, and the run of a statement holds the tokens
of the blocks right inside it. -/
inductive StmtRuns (P : Stmt → List Token → Prop) : Block → List Token → Prop
  | nil :
      StmtRuns P [] []
  | cons
      {stmt : Stmt} {stmts : Block} {ts us : List Token}
      (hstmt : P stmt ts)
      (hinside : BlockRuns P stmt.blocks ts)
      (hstmts : StmtRuns P stmts us) :
      StmtRuns P (stmt :: stmts) (ts ++ us)

/-- The tokens of the blocks stand in this order among the tokens. -/
inductive BlockRuns (P : Stmt → List Token → Prop) : List Block → List Token → Prop
  | nil
      {ts : List Token} :
      BlockRuns P [] ts
  | cons
      {block : Block} {blocks : List Block} {before ts us : List Token}
      (hblock : StmtRuns P block ts)
      (hblocks : BlockRuns P blocks us) :
      BlockRuns P (block :: blocks) (before ++ (ts ++ us))

end

section Runs

variable {P : Stmt → List Token → Prop}

namespace BlockRuns

/-- Blocks keep their runs if tokens stand in front. -/
theorem behind
    {blocks : List Block}
    {ts : List Token}
    (h : BlockRuns P blocks ts)
    (before : List Token) :
    BlockRuns P blocks (before ++ ts) := by
  cases h with
  | nil => exact .nil
  | cons hblock hblocks =>
      rw [← List.append_assoc]
      exact .cons hblock hblocks

theorem token
    {blocks : List Block}
    {ts : List Token}
    (h : BlockRuns P blocks ts)
    (token : Token) :
    BlockRuns P blocks (token :: ts) :=
  h.behind [token]

/-- The runs of two lists of blocks stand one behind the other. -/
theorem append
    {blocks more : List Block}
    {ts us : List Token}
    (h : BlockRuns P blocks ts)
    (hmore : BlockRuns P more us) :
    BlockRuns P (blocks ++ more) (ts ++ us) := by
  induction blocks generalizing ts with
  | nil => exact hmore.behind ts
  | cons block blocks ih =>
      cases h with
      | cons hblock hblocks =>
          rw [List.append_assoc, List.append_assoc]
          exact .cons hblock (ih hblocks)

/-- Blocks keep their runs if tokens stand behind. -/
theorem front
    {blocks : List Block}
    {ts : List Token}
    (h : BlockRuns P blocks ts)
    (behind : List Token) :
    BlockRuns P blocks (ts ++ behind) := by
  rw [← List.append_nil blocks]
  exact h.append .nil

theorem singleExpr
    {value : Expr}
    {ts : List Token}
    (h : BlockRuns P value.blocks ts) :
    BlockRuns P (Expr.blocksOfAll [value]) ts := by
  rwa [Expr.blocksOfAll, Expr.blocksOfAll, List.append_nil]

/-- One more expression of a list. -/
theorem concatExpr
    {values : List Expr}
    {value : Expr}
    {ts us : List Token}
    (h : BlockRuns P (Expr.blocksOfAll values) ts)
    (hvalue : BlockRuns P value.blocks us) :
    BlockRuns P (Expr.blocksOfAll (values ++ [value])) (ts ++ us) := by
  rw [Expr.blocksOfAll_append]
  exact h.append hvalue.singleExpr

/-- One more entry of a table. -/
theorem concatField
    {fields : List Field}
    {field : Field}
    {ts us : List Token}
    (h : BlockRuns P (Field.blocksOfAll fields) ts)
    (hfield : BlockRuns P field.blocks us) :
    BlockRuns P (Field.blocksOfAll (fields ++ [field])) (ts ++ us) := by
  rw [Field.blocksOfAll_append, Field.blocksOfAll, Field.blocksOfAll, List.append_nil]
  exact h.append hfield

end BlockRuns

namespace StmtRuns

/-- A block has the run of its statements. -/
theorem single
    {stmts : Block}
    {ts : List Token}
    (h : StmtRuns P stmts ts) :
    BlockRuns P [stmts] ts := by
  have hblock : BlockRuns P [stmts] ([] ++ (ts ++ [])) := .cons h .nil
  rwa [List.nil_append, List.append_nil] at hblock

/-- A further statement adds its own run, in which the runs of its blocks are. -/
theorem concat
    {stmts : Block}
    {stmt : Stmt}
    {ts us : List Token}
    (h : StmtRuns P stmts ts)
    (hstmt : P stmt us)
    (hinside : BlockRuns P stmt.blocks us) :
    StmtRuns P (stmts ++ [stmt]) (ts ++ us) := by
  induction stmts generalizing ts with
  | nil =>
      cases h with
      | nil =>
          rw [List.nil_append, List.nil_append, ← List.append_nil us]
          exact .cons hstmt hinside .nil
  | cons first stmts ih =>
      cases h with
      | cons hfirst hfirstInside hstmts =>
          rw [List.append_assoc]
          exact .cons hfirst hfirstInside (ih hstmts)

end StmtRuns

end Runs

/-! ## The runs of a derivation -/

/-- The blocks right inside what a run of tokens is read as. -/
def Node.blocks : Node → List Block
  | .primary value | .suffixed value | .simple value | .expression value | .path value
  | .loopStep value => value.blocks
  | .expressions values | .arguments values | .leadingParameters values | .parameters values
  | .targets values | .initialValues values | .returnedValues values => Expr.blocksOfAll values
  | .field entry => entry.blocks
  | .entries fields | .table fields => Field.blocksOfAll fields
  | .functionBody params body => Expr.blocksOfAll params ++ [body]
  | .names _ => []
  | .loopBody body => [body]
  | .guarded test body => test.blocks ++ [body]
  | .clauses chain => chain.flatMap fun clause => clause.1.blocks ++ [clause.2]
  | .alternative last => ElseBranch.optionBlocks last
  | .statement stmt => stmt.blocks
  | .statements stmts | .block stmts => [stmts]

/-- The statements of a block have runs that are nothing but the tokens, those inside anything else
have runs among the tokens. -/
def Node.Runs (P : Stmt → List Token → Prop) (node : Node) (tokens : List Token) : Prop :=
  match node with
  | .statements stmts | .block stmts => StmtRuns P stmts tokens
  | node => BlockRuns P node.blocks tokens

/-- The blocks of a chain are those of its clauses and of its last alternative. -/
theorem optionBlocks_alternatives
    (clauses : List (Expr × Block))
    (last : Option ElseBranch) :
    ElseBranch.optionBlocks (alternatives clauses last) =
      (Node.clauses clauses).blocks ++ ElseBranch.optionBlocks last := by
  induction clauses with
  | nil => rfl
  | cons clause clauses ih =>
      rw [alternatives, ElseBranch.optionBlocks, ElseBranch.blocks, ih]
      simp [Node.blocks]

/-- What is derived from tokens has runs of statements in them. -/
theorem runs_of_derives
    {explicit : Expr → Prop}
    {P : Stmt → List Token → Prop}
    (hP : ∀ stmt tokens, Derives explicit (.block [stmt]) tokens → P stmt tokens)
    {node : Node}
    {tokens : List Token}
    (h : Derives explicit node tokens) :
    node.Runs P tokens := by
  induction h with
  | name _ => exact BlockRuns.nil
  | parenthesised _ _ _ ih => exact (BlockRuns.front ih _).token _
  | primary _ ih => exact ih
  | dot _ _ _ ih => exact BlockRuns.append ih .nil
  | bracket _ _ _ _ ihvalue ihkey =>
      exact BlockRuns.append ihvalue ((BlockRuns.front ihkey _).token _)
  | call _ _ ihvalue iharguments => exact BlockRuns.append ihvalue iharguments
  | invoke _ _ _ _ ihvalue iharguments =>
      exact BlockRuns.append ihvalue ((BlockRuns.token iharguments _).token _)
  | noArguments _ _ => exact BlockRuns.nil
  | listedArguments _ _ _ ih => exact (BlockRuns.front ih _).token _
  | tableArgument _ ih => exact BlockRuns.singleExpr ih
  | stringArgument _ => exact BlockRuns.nil
  | nil _ => exact BlockRuns.nil
  | true _ => exact BlockRuns.nil
  | false _ => exact BlockRuns.nil
  | varargs _ => exact BlockRuns.nil
  | number _ _ => exact BlockRuns.nil
  | string _ => exact BlockRuns.nil
  | function _ _ ih => exact BlockRuns.token ih _
  | table _ ih => exact ih
  | suffixed _ ih => exact ih
  | simple _ ih => exact ih
  | unary _ _ ih => exact BlockRuns.token ih _
  | binary _ _ _ ihleft ihright => exact BlockRuns.append ihleft (BlockRuns.token ihright _)
  | firstExpression _ ih => exact BlockRuns.singleExpr ih
  | nextExpression _ _ _ ihvalues ihvalue =>
      exact BlockRuns.concatExpr ihvalues (BlockRuns.token ihvalue _)
  | bracketedField _ _ _ _ _ ihkey ihvalue =>
      exact (BlockRuns.append ihkey ((BlockRuns.token ihvalue _).token _)).token _
  | namedField _ _ _ ih => exact (BlockRuns.token ih _).token _
  | positionalField _ ih => exact ih
  | noEntry => exact BlockRuns.nil
  | nextEntry _ _ _ ihfields ihfield =>
      exact BlockRuns.concatField ihfields (BlockRuns.front ihfield _)
  | separatedTable _ _ _ ih => exact (BlockRuns.front ih _).token _
  | unseparatedTable _ _ _ _ ihfields ihfield =>
      exact ((BlockRuns.concatField ihfields ihfield).front _).token _
  | noLeadingParameter => exact BlockRuns.nil
  | nextLeadingParameter _ _ _ ih => exact BlockRuns.concatExpr ih .nil
  | noParameters => exact BlockRuns.nil
  | lastParameter _ _ ih => exact BlockRuns.concatExpr ih .nil
  | lastVarargs _ _ ih => exact BlockRuns.concatExpr ih .nil
  | functionBody _ _ _ _ _ ihparameters ihbody =>
      have hbody := (StmtRuns.single ihbody).front
      exact (BlockRuns.append ihparameters ((hbody _).token _)).token _
  | firstName _ => exact BlockRuns.nil
  | nextName _ _ _ _ => exact BlockRuns.nil
  | firstPart _ => exact BlockRuns.nil
  | nextPart _ _ _ ih => exact BlockRuns.append ih .nil
  | firstTarget _ _ ih => exact BlockRuns.singleExpr ih
  | nextTarget _ _ _ _ ihvalues ihvalue =>
      exact BlockRuns.concatExpr ihvalues (BlockRuns.token ihvalue _)
  | noInitialValues => exact BlockRuns.nil
  | initialValues _ _ ih => exact BlockRuns.token ih _
  | noReturnedValues => exact BlockRuns.nil
  | returnedValues _ ih => exact ih
  | omittedStep => exact BlockRuns.nil
  | explicitStep _ _ _ ih => exact BlockRuns.token ih _
  | loopBody _ _ _ ih => exact ((StmtRuns.single ih).front _).token _
  | guarded _ _ _ ihtest ihbody =>
      exact BlockRuns.append ihtest ((StmtRuns.single ihbody).token _)
  | noClause => exact BlockRuns.nil
  | @nextClause word clauses test body ts us _ _ _ ihclauses ihclause =>
      have hblocks : (Node.clauses (clauses ++ [(test, body)])).blocks =
          (Node.clauses clauses).blocks ++ (Node.guarded test body).blocks := by
        simp [Node.blocks]
      change BlockRuns P (Node.clauses _).blocks _
      rw [hblocks]
      exact BlockRuns.append ihclauses (BlockRuns.token ihclause word)
  | noAlternative => exact BlockRuns.nil
  | alternative _ _ ih => exact (StmtRuns.single ih).token _
  | semicolon _ => exact BlockRuns.nil
  | label _ _ _ => exact BlockRuns.nil
  | breakLoop _ => exact BlockRuns.nil
  | goto _ _ => exact BlockRuns.nil
  | whileLoop _ _ _ ihtest ihbody => exact (BlockRuns.append ihtest ihbody).token _
  | doBlock _ ih => exact ih
  | repeatLoop _ _ _ _ ihbody ihtest =>
      exact (BlockRuns.append (StmtRuns.single ihbody) (BlockRuns.token ihtest _)).token _
  | @ifThen first last test body clauses alternative ts us vs _ _ _ _ _ ihguarded ihclauses
      ihalternative =>
      have hblocks :
          (Node.statement (.ifThen test body (alternatives clauses alternative))).blocks =
            (Node.guarded test body).blocks ++
              ((Node.clauses clauses).blocks ++ (Node.alternative alternative).blocks) := by
        simp [Node.blocks, Stmt.blocks, optionBlocks_alternatives]
      have halternative := BlockRuns.front ihalternative [last]
      have hruns := BlockRuns.append ihguarded (BlockRuns.append ihclauses halternative)
      change BlockRuns P (Node.statement _).blocks _
      rw [hblocks]
      exact hruns.token first
  | numericFor _ _ _ _ _ _ _ _ ihstart ihstop ihstep ihbody =>
      have hbehind := BlockRuns.append ihstop (BlockRuns.append ihstep ihbody)
      exact (((BlockRuns.append ihstart (hbehind.token _)).token _).token _).token _
  | genericFor _ _ _ _ _ _ ihiterators ihbody =>
      have hbehind := BlockRuns.append ihiterators ihbody
      exact ((hbehind.token _).behind _).token _
  | functionStatement _ _ _ ihpath ihbody => exact (BlockRuns.append ihpath ihbody).token _
  | method _ _ _ _ _ ihpath ihbody =>
      exact (BlockRuns.append ihpath ((BlockRuns.token ihbody _).token _)).token _
  | localFunction _ _ _ _ ih => exact ((BlockRuns.token ih _).token _).token _
  | @localAssign word ids values ts us _ _ _ _ ihvalues =>
      have hblocks : (Node.statement (.localAssign (ids.map .name) values)).blocks =
          Expr.blocksOfAll values := by
        simp [Node.blocks, Stmt.blocks, Expr.blocksOfAll_names]
      change BlockRuns P (Node.statement _).blocks _
      rw [hblocks]
      exact (BlockRuns.behind ihvalues ts).token word
  | assign _ _ _ ihtargets ihvalues =>
      exact BlockRuns.append ihtargets (BlockRuns.token ihvalues _)
  | callStatement _ _ ih => exact ih
  | noStatement => exact StmtRuns.nil
  | nextStatement _ hstmt ihstmts ihstmt =>
      have halone := hP _ _ (.openBlock (.nextStatement .noStatement hstmt))
      exact StmtRuns.concat ihstmts halone ihstmt
  | openBlock _ ih => exact ih
  | returningBlock _ hword hvalues ihstmts ihvalues =>
      have halone := hP _ _ (.returningBlock .noStatement hword hvalues)
      exact StmtRuns.concat ihstmts halone (BlockRuns.token ihvalues _)
  | returningBlockClosed _ hword hvalues hmark ihstmts ihvalues =>
      have halone := hP _ _ (.returningBlockClosed .noStatement hword hvalues hmark)
      exact StmtRuns.concat ihstmts halone ((BlockRuns.front ihvalues _).token _)

end Grammar
end LuaView
