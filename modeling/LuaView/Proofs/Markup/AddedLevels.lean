import LuaView.Proofs.Markup.RoundTrip
import LuaView.Proofs.Parsing.Levels
import LuaView.Proofs.Parsing.Limit

/-!
# The levels that a text adds

A text groups an operation inside another one, and it has parentheses around the arguments of every
call.  A source need not have either: operators that bind alike follow one another without
parentheses, and a string or a table that is the only argument stands alone.  So the text of a
program may need more levels than the source did, and may exceed the limit that the source was
parsed under.

Each pair of parentheses that is added costs at most one level.  A text that adds none is parsed
under the limit of its source.
-/

namespace LuaView

open Mark (word sign)

/-! ## Parentheses that are added -/

mutual

/-- How many operations stand inside another one, and how many strings and tables are the only
argument of a call. -/
def Expr.added : Expr → Nat
  | .nil | .boolean _ | .varargs | .number _ | .string _ _ | .name _ => 0
  | .table fields => Field.addedOfAll fields
  | .function parameters body => Expr.addedOfAll parameters + Stmt.addedOfAll body
  | .index value key _ => value.added + key.added
  | .call callee arguments =>
      callee.added + Expr.addedOfAll arguments + (Expr.standAlone arguments).toNat
  | .invoke receiver _ arguments =>
      receiver.added + Expr.addedOfAll arguments + (Expr.standAlone arguments).toNat
  | .binary _ left right =>
      left.added + left.isOperation.toNat + (right.added + right.isOperation.toNat)
  | .unary _ operand => operand.added + operand.isOperation.toNat

def Expr.addedOfAll : List Expr → Nat
  | [] => 0
  | value :: values => value.added + Expr.addedOfAll values

def Field.added : Field → Nat
  | .mk none value _ => value.added
  | .mk (some key) value _ => key.added + value.added

def Field.addedOfAll : List Field → Nat
  | [] => 0
  | field :: fields => field.added + Field.addedOfAll fields

def Stmt.added : Stmt → Nat
  | .assign targets values | .localAssign targets values =>
      Expr.addedOfAll targets + Expr.addedOfAll values
  | .returnValues values => Expr.addedOfAll values
  | .whileLoop test body | .repeatLoop body test => test.added + Stmt.addedOfAll body
  | .doBlock body => Stmt.addedOfAll body
  | .ifThen test body none => test.added + Stmt.addedOfAll body
  | .ifThen test body (some orelse) => test.added + Stmt.addedOfAll body + orelse.added
  | .label _ | .goto _ | .breakLoop | .semicolon => 0
  | .numericFor _ start stop step body =>
      start.added + stop.added + step.added + Stmt.addedOfAll body
  | .genericFor _ iterators body => Expr.addedOfAll iterators + Stmt.addedOfAll body
  | .function name parameters body | .method name _ parameters body =>
      name.added + Expr.addedOfAll parameters + Stmt.addedOfAll body
  | .localFunction _ parameters body => Expr.addedOfAll parameters + Stmt.addedOfAll body
  | .expr value => value.added

def Stmt.addedOfAll : List Stmt → Nat
  | [] => 0
  | stmt :: stmts => stmt.added + Stmt.addedOfAll stmts

def ElseBranch.added : ElseBranch → Nat
  | .elseIf test body none => test.added + Stmt.addedOfAll body
  | .elseIf test body (some orelse) => test.added + Stmt.addedOfAll body + orelse.added
  | .final body => Stmt.addedOfAll body

end

def Chunk.added (chunk : Chunk) : Nat :=
  Stmt.addedOfAll chunk.body

/-! ## Parentheses among marks -/

namespace Mark

/-- How many opening parentheses there are. -/
def parens (marks : List Mark) : Nat :=
  marks.countP fun mark => mark.kind = .symbol .lparen

@[simp] theorem parens_nil : parens [] = 0 := rfl

@[simp] theorem parens_append (marks others : List Mark) :
    parens (marks ++ others) = parens marks + parens others :=
  List.countP_append

@[simp] theorem parens_word (keyword : Keyword) (marks : List Mark) :
    parens (word keyword :: marks) = parens marks :=
  List.countP_cons_of_neg (by simp [word])

@[simp] theorem parens_name (id : String) (marks : List Mark) :
    parens (name id :: marks) = parens marks :=
  List.countP_cons_of_neg (by simp [name])

/-- Only an opening parenthesis is counted. -/
@[simp] theorem parens_sign (symbol : Symbol) (marks : List Mark) :
    parens (sign symbol :: marks) = parens marks + if symbol = .lparen then 1 else 0 := by
  by_cases hsymbol : symbol = .lparen
  · rw [if_pos hsymbol, parens, List.countP_cons_of_pos (by simp [sign, hsymbol])]
    rfl
  · rw [if_neg hsymbol, parens, List.countP_cons_of_neg (by simp [sign, hsymbol])]
    rfl

@[simp] theorem parens_binaryOp (op : BinaryOp) (marks : List Mark) :
    parens (op.mark :: marks) = parens marks := by
  cases op <;> simp [BinaryOp.mark]

@[simp] theorem parens_unaryOp (op : UnaryOp) (marks : List Mark) :
    parens (op.mark :: marks) = parens marks := by
  cases op <;> simp [UnaryOp.mark]

/-- A group adds one parenthesis. -/
@[simp] theorem parens_group (grouped : Bool) (marks : List Mark) :
    parens (group grouped marks) = parens marks + grouped.toNat := by
  cases grouped <;> simp [group]

/-- Commas add no parentheses to a list. -/
@[simp] theorem parens_commas_cons (marks : List Mark) (others : List (List Mark)) :
    parens (commas (marks :: others)) = parens marks + parens (commas others) := by
  cases others with
  | nil => simp [commas]
  | cons other others => simp [commas]

/-- A function has the parenthesis in front of its parameters, and those inside it. -/
@[simp] theorem parens_functionBody (parameters : List (List Mark)) (body : List Mark) :
    parens (functionBody parameters body) = 1 + parens (commas parameters) + parens body := by
  simp [functionBody]
  omega

/-- Arguments have a parenthesis in front, and those inside them. -/
@[simp] theorem parens_arguments (values : List (List Mark)) :
    parens (arguments values) = 1 + parens (commas values) := by
  simp [arguments]
  omega

@[simp] theorem parens_loopBody (body : List Mark) :
    parens (loopBody body) = parens body := by
  simp [loopBody]

end Mark

/-- Tokens with the same marks have the same parentheses. -/
theorem Token.parens_eq_of_marks
    {words : List Token}
    {marks : List Mark}
    (h : words.map Token.mark = marks) :
    Token.parens words = Mark.parens marks := by
  subst h
  rw [Mark.parens, List.countP_map]
  rfl

namespace Expr

/-- Parentheses are counted the same on every level. -/
theorem parens_deeperLoads (values : List Expr) :
    (Expr.deeperLoads values).parens = (Expr.loads values).parens := by
  induction values with
  | nil => rfl
  | cons value values ih => simp [Expr.deeperLoads, Expr.loads, ih]

end Expr

/-- Arguments without parentheses are written with one more than they were read with. -/
theorem Load.parens_ofArguments (values : List Expr) :
    (Load.ofArguments (Expr.standAlone values) (Expr.loads values)
        (Expr.deeperLoads values)).parens + (Expr.standAlone values).toNat =
      1 + (Expr.loads values).parens := by
  cases h : Expr.standAlone values with
  | false => simp [Load.ofArguments, Expr.parens_deeperLoads]
  | true =>
      simp [Load.ofArguments]
      omega

/-- Names have no parentheses. -/
theorem Mark.parens_names (names : List Name) :
    Mark.parens (Mark.commas (names.map fun id => [Mark.name id])) = 0 := by
  induction names with
  | nil => rfl
  | cons id names ih => simp [ih]

/-- A step that is left out of a text is a literal. -/
theorem Expr.eq_number_of_isDefaultStep
    {step : Expr}
    (h : step.isDefaultStep = true) :
    ∃ value, step = .number value := by
  cases step with
  | number value => exact ⟨value, rfl⟩
  | _ => cases h

mutual

/-- The parentheses of a text are those of the load and those that are added. -/
theorem Expr.parens_marks :
    ∀ value : Expr, Mark.parens value.marks = value.load.parens + value.added
  | .nil => by simp [Expr.marks, Expr.load, Expr.added]
  | .boolean true => by simp [Expr.marks, Expr.load, Expr.added]
  | .boolean false => by simp [Expr.marks, Expr.load, Expr.added]
  | .varargs => by simp [Expr.marks, Expr.load, Expr.added]
  | .number value => rfl
  | .string text delimiter => rfl
  | .name id => by simp [Expr.marks, Expr.load, Expr.added]
  | .table fields => by
      have hfields := Field.parens_marksOfAll fields
      simp [Expr.marks, Expr.load, Expr.added, hfields]
  | .function parameters body => by
      have hparameters := Expr.parens_commas parameters
      have hbody := Stmt.parens_marksOfAll body
      simp [Expr.marks, Expr.load, Expr.added, hparameters, hbody]
      omega
  | .index value key .dot => by
      have hvalue := Expr.parens_marks value
      have hkey := Expr.parens_marks key
      simp [Expr.marks, Expr.load, Expr.added, hvalue, hkey]
      omega
  | .index value key .bracket => by
      have hvalue := Expr.parens_marks value
      have hkey := Expr.parens_marks key
      simp [Expr.marks, Expr.load, Expr.added, hvalue, hkey]
      omega
  | .call callee arguments => by
      have hcallee := Expr.parens_marks callee
      have harguments := Expr.parens_commas arguments
      have hload := Load.parens_ofArguments arguments
      simp [Expr.marks, Expr.load, Expr.added, hcallee, harguments]
      omega
  | .invoke receiver method arguments => by
      have hreceiver := Expr.parens_marks receiver
      have harguments := Expr.parens_commas arguments
      have hload := Load.parens_ofArguments arguments
      simp [Expr.marks, Expr.load, Expr.added, hreceiver, harguments]
      omega
  | .binary op left right => by
      have hleft := Expr.parens_marks left
      have hright := Expr.parens_marks right
      simp [Expr.marks, Expr.load, Expr.added, hleft, hright]
      omega
  | .unary op operand => by
      have hoperand := Expr.parens_marks operand
      simp [Expr.marks, Expr.load, Expr.added, hoperand]
      omega

/-- The text of expressions has the parentheses of their load and those that are added. -/
theorem Expr.parens_commas :
    ∀ values : List Expr, Mark.parens (Mark.commas (Expr.marksOfEach values)) =
      (Expr.loads values).parens + Expr.addedOfAll values
  | [] => rfl
  | value :: values => by
      have hvalue := Expr.parens_marks value
      have hvalues := Expr.parens_commas values
      simp [Expr.marksOfEach, Expr.loads, Expr.addedOfAll, hvalue, hvalues]
      omega

/-- The text of an entry has the parentheses of its load and those that are added. -/
theorem Field.parens_marks :
    ∀ field : Field, Mark.parens field.marks = field.load.parens + field.added
  | .mk none value bracketed => by
      have hvalue := Expr.parens_marks value
      simp [Field.marks, Field.load, Field.added, hvalue]
  | .mk (some key) value true => by
      have hkey := Expr.parens_marks key
      have hvalue := Expr.parens_marks value
      simp [Field.marks, Field.load, Field.added, hkey, hvalue]
      omega
  | .mk (some key) value false => by
      have hkey := Expr.parens_marks key
      have hvalue := Expr.parens_marks value
      simp [Field.marks, Field.load, Field.added, hkey, hvalue]
      omega

theorem Field.parens_marksOfAll :
    ∀ fields : List Field, Mark.parens (Field.marksOfAll fields) =
      (Field.loads fields).parens + Field.addedOfAll fields
  | [] => rfl
  | field :: fields => by
      have hfield := Field.parens_marks field
      have hfields := Field.parens_marksOfAll fields
      simp [Field.marksOfAll, Field.loads, Field.addedOfAll, hfield, hfields]
      omega

/-- The text of a statement has the parentheses of its load and those that are added. -/
theorem Stmt.parens_marks :
    ∀ stmt : Stmt, Mark.parens stmt.marks = stmt.load.parens + stmt.added
  | .assign targets values => by
      have htargets := Expr.parens_commas targets
      have hvalues := Expr.parens_commas values
      simp [Stmt.marks, Stmt.load, Stmt.added, htargets, hvalues, Expr.parens_deeperLoads]
      omega
  | .localAssign targets [] => by
      have htargets := Expr.parens_commas targets
      simp [Stmt.marks, Stmt.load, Stmt.added, htargets, Expr.deeperLoads, Expr.addedOfAll]
  | .localAssign targets (value :: values) => by
      have htargets := Expr.parens_commas targets
      have hvalue := Expr.parens_marks value
      have hvalues := Expr.parens_commas values
      simp [Stmt.marks, Stmt.load, Stmt.added, htargets, hvalue, hvalues, Expr.deeperLoads,
        Expr.addedOfAll, Expr.parens_deeperLoads]
      omega
  | .whileLoop test body => by
      have htest := Expr.parens_marks test
      have hbody := Stmt.parens_marksOfAll body
      simp [Stmt.marks, Stmt.load, Stmt.added, htest, hbody]
      omega
  | .doBlock body => by
      have hbody := Stmt.parens_marksOfAll body
      simp [Stmt.marks, Stmt.load, Stmt.added, hbody]
  | .repeatLoop body test => by
      have hbody := Stmt.parens_marksOfAll body
      have htest := Expr.parens_marks test
      simp [Stmt.marks, Stmt.load, Stmt.added, htest, hbody]
      omega
  | .ifThen test body none => by
      have htest := Expr.parens_marks test
      have hbody := Stmt.parens_marksOfAll body
      simp [Stmt.marks, Stmt.load, Stmt.added, htest, hbody]
      omega
  | .ifThen test body (some orelse) => by
      have htest := Expr.parens_marks test
      have hbody := Stmt.parens_marksOfAll body
      have horelse := ElseBranch.parens_marks orelse
      simp [Stmt.marks, Stmt.load, Stmt.added, htest, hbody, horelse]
      omega
  | .label id => by simp [Stmt.marks, Stmt.load, Stmt.added]
  | .goto id => by simp [Stmt.marks, Stmt.load, Stmt.added]
  | .breakLoop => by simp [Stmt.marks, Stmt.load, Stmt.added]
  | .returnValues values => by
      have hvalues := Expr.parens_commas values
      simp [Stmt.marks, Stmt.load, Stmt.added, hvalues, Expr.parens_deeperLoads]
  | .numericFor counter start stop step body => by
      have hstart := Expr.parens_marks start
      have hstop := Expr.parens_marks stop
      have hstep := Expr.parens_marks step
      have hbody := Stmt.parens_marksOfAll body
      by_cases hdefault : step.isDefaultStep = true
      · obtain ⟨value, rfl⟩ := Expr.eq_number_of_isDefaultStep hdefault
        simp [Stmt.marks, Stmt.load, Stmt.added, Expr.load, Expr.added, hstart, hstop, hbody,
          hdefault]
        omega
      · simp [Stmt.marks, Stmt.load, Stmt.added, hstart, hstop, hbody, hdefault, hstep]
        omega
  | .genericFor names iterators body => by
      have hiterators := Expr.parens_commas iterators
      have hbody := Stmt.parens_marksOfAll body
      simp [Stmt.marks, Stmt.load, Stmt.added, hiterators, hbody, Expr.parens_deeperLoads,
        Mark.parens_names]
      omega
  | .function name parameters body => by
      have hname := Expr.parens_marks name
      have hparameters := Expr.parens_commas parameters
      have hbody := Stmt.parens_marksOfAll body
      simp [Stmt.marks, Stmt.load, Stmt.added, hname, hparameters, hbody]
      omega
  | .localFunction name parameters body => by
      have hparameters := Expr.parens_commas parameters
      have hbody := Stmt.parens_marksOfAll body
      simp [Stmt.marks, Stmt.load, Stmt.added, hparameters, hbody]
      omega
  | .method receiver name parameters body => by
      have hreceiver := Expr.parens_marks receiver
      have hparameters := Expr.parens_commas parameters
      have hbody := Stmt.parens_marksOfAll body
      simp [Stmt.marks, Stmt.load, Stmt.added, hreceiver, hparameters, hbody]
      omega
  | .expr value => by
      have hvalue := Expr.parens_marks value
      simp [Stmt.marks, Stmt.load, Stmt.added, hvalue]
  | .semicolon => by simp [Stmt.marks, Stmt.load, Stmt.added]

theorem Stmt.parens_marksOfAll :
    ∀ stmts : List Stmt, Mark.parens (Stmt.marksOfAll stmts) =
      (Stmt.loads stmts).parens + Stmt.addedOfAll stmts
  | [] => rfl
  | stmt :: stmts => by
      have hstmt := Stmt.parens_marks stmt
      have hstmts := Stmt.parens_marksOfAll stmts
      simp [Stmt.marksOfAll, Stmt.loads, Stmt.addedOfAll, hstmt, hstmts]
      omega

/-- The text of an alternative has the parentheses of its load and those that are added. -/
theorem ElseBranch.parens_marks :
    ∀ orelse : ElseBranch, Mark.parens orelse.marks = orelse.load.parens + orelse.added
  | .elseIf test body none => by
      have htest := Expr.parens_marks test
      have hbody := Stmt.parens_marksOfAll body
      simp [ElseBranch.marks, ElseBranch.load, ElseBranch.added, htest, hbody]
      omega
  | .elseIf test body (some orelse) => by
      have htest := Expr.parens_marks test
      have hbody := Stmt.parens_marksOfAll body
      have horelse := ElseBranch.parens_marks orelse
      simp [ElseBranch.marks, ElseBranch.load, ElseBranch.added, htest, hbody, horelse]
      omega
  | .final body => by
      have hbody := Stmt.parens_marksOfAll body
      simp [ElseBranch.marks, ElseBranch.load, ElseBranch.added, hbody]

end

/-! ## Reading a text under the limit of its source -/

/-- The tokens of a text are parsed under every limit that has room for the levels of the program
and for the parentheses that the text adds. -/
theorem parse_toPlain_of_room
    {chunk : Chunk}
    (h : chunk.Obeys (.readable false))
    {width limit : Nat}
    (hroom : chunk.load.levels + chunk.added ≤ limit) :
    parse (chunk.toElement.toPlain width) limit = .ok chunk := by
  have hlexed := (spelled_toPlain h width).lexed.of_blank (by decide)
  obtain ⟨words, last, htokens, hwords⟩ := tokenize_of_lexed hlexed (head_toPlain h hlexed)
  rw [String.ofList_toList] at htokens
  have hwide : (Session.mk (words ++ [Token.eof last]) (words.length + 1)).parse.1 = .ok chunk := by
    rw [Session.parse, Grammar.chunk_of_marks h hwords (Nat.lt_succ_self _) last]
  have hparens : Token.parens (words ++ [Token.eof last]) = chunk.load.parens + chunk.added := by
    rw [Token.parens_append, Token.parens_eq_of_marks hwords, Stmt.parens_marksOfAll]
    rfl
  rw [parse, htokens]
  change (Session.ofTokens _ limit).parse.1 = _
  rw [Session.ofTokens_closed]
  refine Session.parse_of_room hwide ?_
  rw [hparens]
  omega

/-- A program that is parsed has no more levels than the limit. -/
theorem levels_le_of_parse
    {source : String}
    {limit : Nat}
    {program : Chunk}
    (h : parse source limit = .ok program) :
    program.load.levels ≤ limit := by
  obtain ⟨tokens, -, hparse⟩ := Except.bind_eq_ok_iff.mp h
  rw [← Session.limit_ofTokens tokens limit]
  exact Session.levels_le_limit hparse

/-- The text of a source can be parsed under the limit of the source and one more level for each
pair of parentheses that the text adds; so a text without such parentheses stays within the
limit. -/
theorem parse_renderSource_text
    {source text : String}
    {settings : Settings}
    (hrender : renderSource source .text settings = .ok text)
    {program : Chunk}
    (hparse : parse source settings.limit = .ok program)
    (hprintable : program.Obeys .printable) :
    parse text (settings.limit + program.added) = .ok program := by
  have htext : program.toElement.toPlain settings.indent = text := by
    rw [renderSource, hparse] at hrender
    exact Except.ok.inj hrender
  rw [← htext]
  refine parse_toPlain_of_room (.of_gives Law.printable_gives_readable hprintable hprintable) ?_
  exact Nat.add_le_add_right (levels_le_of_parse hparse) _

/-- The program `return a + b + c`. -/
def chainedSum : Chunk :=
  ⟨[.returnValues [.binary .add (.binary .add (.name "a") (.name "b")) (.name "c")]]⟩

theorem four_le_maxIndent : 4 ≤ maxIndent := by
  decide

/-- Just enough levels for this program. -/
def threeLevels : Settings where
  limit := 3
  indent_le := four_le_maxIndent

/-- The tokens of `return a + b + c`. -/
def chainedSumTokens : List Token :=
  [⟨.keyword .return_, "return", ⟨0, 0, 0⟩, ⟨6, 0, 6⟩⟩, ⟨.name, "a", ⟨7, 0, 7⟩, ⟨8, 0, 8⟩⟩,
    ⟨.symbol .plus, "+", ⟨9, 0, 9⟩, ⟨10, 0, 10⟩⟩, ⟨.name, "b", ⟨11, 0, 11⟩, ⟨12, 0, 12⟩⟩,
    ⟨.symbol .plus, "+", ⟨13, 0, 13⟩, ⟨14, 0, 14⟩⟩, ⟨.name, "c", ⟨15, 0, 15⟩, ⟨16, 0, 16⟩⟩,
    ⟨.eof, "", ⟨16, 0, 16⟩, ⟨16, 0, 16⟩⟩]

/-- Three levels are enough for a sum of three summands. -/
theorem parse_chainedSum : parse "return a + b + c" 3 = .ok chainedSum := by
  have htokens : tokenize "return a + b + c" = .ok chainedSumTokens := by decide +kernel
  have hparse : (Session.ofTokens chainedSumTokens 3).parse.1 = .ok chainedSum := by cbv
  rw [parse, htokens]
  exact hparse

/-- The text of the sum has parentheses around its left operand. -/
theorem render_chainedSum :
    renderSource "return a + b + c" .text threeLevels = .ok "return (a + b) + c" := by
  have htext : chainedSum.render .text threeLevels = "return (a + b) + c" := by decide +kernel
  have hparse : parse "return a + b + c" threeLevels.limit = .ok chainedSum := parse_chainedSum
  rw [renderSource, hparse]
  exact congrArg Except.ok htext

/-- One level more is enough for the text, which has one pair of parentheses more. -/
theorem parse_renderSource_text_chainedSum :
    renderSource "return a + b + c" .text threeLevels = .ok "return (a + b) + c" ∧
      chainedSum.added = 1 ∧ parse "return (a + b) + c" 4 = .ok chainedSum := by
  have hnames : ∀ id ∈ ["a", "b", "c"], IsName id.toList := by decide
  have hprintable : chainedSum.Obeys .printable := by
    refine ⟨rfl, ⟨trivial, ⟨trivial, ⟨trivial, ?_, ?_⟩, ?_⟩, trivial⟩, trivial⟩
    · exact hnames "a" (by decide)
    · exact hnames "b" (by decide)
    · exact hnames "c" (by decide)
  exact ⟨render_chainedSum, rfl,
    parse_renderSource_text render_chainedSum parse_chainedSum hprintable⟩

/-- The text of a program may exceed the limit that its source was parsed under. -/
theorem text_exceeds_limit :
    ¬ ∀ (source text : String) (settings : Settings) (error : ParseError),
      renderSource source .text settings = .ok text →
        parse text settings.limit = .error error → ¬ error.IsTooDeep := by
  intro h
  have hdeep : (parse "return (a + b) + c" 3).map (fun _ => ()) =
      .error ⟨.tooDeep 3, ⟨12, 0, 12⟩, ⟨13, 0, 13⟩⟩ := by decide +kernel
  cases hparse : parse "return (a + b) + c" 3 with
  | ok program =>
      rw [hparse] at hdeep
      cases hdeep
  | error error =>
      rw [hparse] at hdeep
      have herror : error = ⟨.tooDeep 3, ⟨12, 0, 12⟩, ⟨13, 0, 13⟩⟩ := Except.error.inj hdeep
      exact h _ _ threeLevels error render_chainedSum hparse ⟨3, by rw [herror]⟩

end LuaView
