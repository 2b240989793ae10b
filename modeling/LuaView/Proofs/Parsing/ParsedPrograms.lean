import LuaView.Proofs.Lexing.LineBreaks
import LuaView.Proofs.Parsing.Acceptance
import LuaView.Proofs.Program.Laws
import LuaView.Proofs.Program.Marks

/-!
# What parsed programs are like

A tree admits more than the grammar does.  What the grammar leaves of it is said by a law, which
every program obeys that was read from a source: its names are names, its functions have parameters,
only calls stand alone, a `return` is the last statement, and so on.  It is proved for one rule of
the grammar after another.

What can be said of literals depends on the tokens they are read from, so the law leaves it open.
From whatever source a program was read, no quoted text in it has its own quote without a backslash
in front.
-/

namespace LuaView

/-- What the grammar asks of a statement: lists of targets, names and values are not empty where
there have to be some, a function has a name with points and names as its parameters, and only calls
stand alone. -/
def Stmt.IsFormed : Stmt → Prop
  | .assign targets values =>
      targets ≠ [] ∧ values ≠ [] ∧ targets.all Expr.isAssignable = true
  | .localAssign targets _ => targets ≠ [] ∧ targets.all Expr.isName = true
  | .label id | .goto id => IsName id.toList
  | .numericFor counter _ _ _ _ => IsName counter.toList
  | .genericFor names iterators _ =>
      names ≠ [] ∧ iterators ≠ [] ∧ ∀ id ∈ names, IsName id.toList
  | .function name parameters _ =>
      name.isDotted = true ∧ Expr.areParameters parameters = true
  | .localFunction name parameters _ =>
      IsName name.toList ∧ Expr.areParameters parameters = true
  | .method receiver name parameters _ =>
      receiver.isDotted = true ∧ IsName name.toList ∧ Expr.areParameters parameters = true
  | .expr value => value.isCall = true
  | _ => True

/-- What the grammar asks of a program whose numbers and texts satisfy a condition. -/
def Law.parsed (literal : Expr → Prop) : Law where
  expr
    | .name id => IsName id.toList
    | .number value => literal (.number value)
    | .string text delimiter => literal (.string text delimiter)
    | .function parameters _ => Expr.areParameters parameters = true
    | .index _ key .dot => key.isName = true
    | .invoke _ method _ => IsName method.toList
    | _ => True
  field
    | .mk none _ bracketed => bracketed = false
    | .mk (some key) _ false => key.isName = true
    | _ => True
  stmt := Stmt.IsFormed
  block := Block.ReturnsLast

/-! ## Quoted texts -/

/-- The quote occurs in the text without a backslash that takes it along.  The flag says that there
is such a backslash in front of the text. -/
def Lexeme.hasBare (quote : Char) : Bool → List Char → Bool
  | _, [] => false
  | true, _ :: cs => hasBare quote false cs
  | false, c :: cs => c == quote || hasBare quote (c == '\\') cs

/-- A quoted text does not have its own quote but behind a backslash. -/
def Expr.IsUnbroken : Expr → Prop
  | .string text .single => Lexeme.hasBare '\'' false text.toList = false
  | .string text .double => Lexeme.hasBare '"' false text.toList = false
  | _ => True

/-- What the grammar asks of any program. -/
def Law.wellFormed : Law :=
  Law.parsed Expr.IsUnbroken

/-- A text that is read up to the closing quote has no such quote in it. -/
theorem Lexeme.hasBare_of_quotedText
    {quote : Char}
    (hquote : isBlank quote = false)
    {mode : QuotedMode}
    {cs text : List Char}
    (h : quotedText quote mode cs = (text, true)) :
    hasBare quote (decide (mode = .escaped)) text = false := by
  induction cs generalizing mode text with
  | nil => simp [quotedText] at h
  | cons c cs ih =>
      by_cases hends : mode.Ends quote c
      · rw [quotedText_of_ends hends] at h
        rw [← (Prod.mk.inj h).1, hasBare]
      · rw [quotedText_of_not_ends hends] at h
        obtain ⟨rfl, hclosed⟩ := Prod.mk.inj h
        have hrest := ih (Prod.ext rfl hclosed)
        by_cases hescaped : mode = .escaped
        · -- whatever the backslash takes along, the next character stands for itself
          have hafter : decide (mode.after c = .escaped) = false := by
            simp only [QuotedMode.after, if_pos hescaped]
            split <;> rfl
          rw [hafter] at hrest
          rw [decide_eq_true hescaped, hasBare, hrest]
        · have hc : c ≠ quote := by
            rintro rfl
            exact hends ⟨hescaped, fun hblank => by simp [hquote] at hblank, .inl rfl⟩
          have hafter : decide (mode.after c = .escaped) = (c == '\\') := by
            simp only [QuotedMode.after, if_neg hescaped]
            split
            · rename_i hblank
              exact (beq_false_of_ne (ne_of_isBlank hblank.2 (by decide))).symm
            · split <;> simp [*]
          rw [hafter] at hrest
          rw [decide_eq_false hescaped, hasBare, hrest, beq_false_of_ne hc]
          rfl

/-! ## Tokens -/

/-- The text of the token is one that the lexer gives to its kind, and a literal that is read from
it satisfies the condition. -/
structure Token.Fills (literal : Expr → Prop) (token : Token) : Prop where
  name : token.kind = .name → IsName token.text.toList
  number : token.kind = .number → ∀ value, Number.ofNumeral? token.text.toList = some value →
    literal (.number value)
  string : ∀ delimiter, token.kind = .string delimiter → literal (.string token.text delimiter)

/-- The texts of all tokens are as the lexer gives them, and all literals satisfy the condition. -/
def AllFill (literal : Expr → Prop) (tokens : List Token) : Prop :=
  ∀ token ∈ tokens, token.Fills literal

namespace AllFill

variable {literal : Expr → Prop}
variable {token : Token}
variable {ts us : List Token}

theorem left (h : AllFill literal (ts ++ us)) : AllFill literal ts :=
  fun token htoken => h token (List.mem_append_left us htoken)

theorem right (h : AllFill literal (ts ++ us)) : AllFill literal us :=
  fun token htoken => h token (List.mem_append_right ts htoken)

theorem head (h : AllFill literal (token :: ts)) : token.Fills literal :=
  h token List.mem_cons_self

theorem tail (h : AllFill literal (token :: ts)) : AllFill literal ts :=
  fun other hother => h other (List.mem_cons_of_mem token hother)

end AllFill

/-! ## Lists -/

/-- Further parameters may follow names only. -/
theorem Expr.areParameters_append
    {parameters more : List Expr}
    (h : parameters.all Expr.isName = true)
    (hmore : Expr.areParameters more = true) :
    Expr.areParameters (parameters ++ more) = true := by
  induction parameters with
  | nil => exact hmore
  | cons parameter parameters ih =>
      rw [List.all_cons, Bool.and_eq_true] at h
      cases parameter with
      | name id => exact ih h.2
      | _ => cases h.1

/-- A statement may follow others that are no `return`. -/
theorem Block.returnsLast_append
    {stmts : Block}
    (h : stmts.all (fun stmt => !stmt.isReturn) = true)
    (stmt : Stmt) :
    Block.ReturnsLast (stmts ++ [stmt]) := by
  rw [Block.ReturnsLast, List.dropLast_concat]
  exact h

theorem Block.returnsLast_of_all
    {stmts : Block}
    (h : stmts.all (fun stmt => !stmt.isReturn) = true) :
    Block.ReturnsLast stmts :=
  List.all_eq_true.mpr fun stmt hstmt =>
    List.all_eq_true.mp h stmt (List.dropLast_subset stmts hstmt)

/-- A chain of alternatives obeys a law if its clauses and its last one do. -/
theorem ElseBranch.obeys_alternatives
    {law : Law}
    {clauses : List (Expr × Block)}
    {last orelse : Option ElseBranch}
    (hclauses : ∀ clause ∈ clauses, clause.1.Obeys law ∧ Block.Obeys law clause.2)
    (hlast : ∀ branch ∈ last, branch.Obeys law)
    (horelse : Grammar.alternatives clauses last = orelse) :
    ∀ branch ∈ orelse, branch.Obeys law := by
  subst horelse
  induction clauses with
  | nil => exact hlast
  | cons clause clauses ih =>
      obtain ⟨⟨htest, hbody⟩, hrest⟩ := List.forall_mem_cons.mp hclauses
      rintro _ ⟨⟩
      have hbranch := ih hrest
      show ElseBranch.Obeys law (.elseIf clause.1 clause.2 (Grammar.alternatives clauses last))
      cases hnext : Grammar.alternatives clauses last with
      | none => exact ⟨htest, hbody⟩
      | some branch => exact ⟨htest, hbody.1, hbody.2, hbranch branch hnext⟩

theorem Expr.allObey_append
    {law : Law}
    {values more : List Expr}
    (h : Expr.AllObey law values)
    (hmore : Expr.AllObey law more) :
    Expr.AllObey law (values ++ more) :=
  Expr.allObey_iff.mpr <| List.forall_mem_append.mpr
    ⟨Expr.allObey_iff.mp h, Expr.allObey_iff.mp hmore⟩

theorem Field.allObey_append
    {law : Law}
    {fields more : List Field}
    (h : Field.AllObey law fields)
    (hmore : Field.AllObey law more) :
    Field.AllObey law (fields ++ more) :=
  Field.allObey_iff.mpr <| List.forall_mem_append.mpr
    ⟨Field.allObey_iff.mp h, Field.allObey_iff.mp hmore⟩

theorem Stmt.allObey_append
    {law : Law}
    {stmts more : List Stmt}
    (h : Stmt.AllObey law stmts)
    (hmore : Stmt.AllObey law more) :
    Stmt.AllObey law (stmts ++ more) :=
  Stmt.allObey_iff.mpr <| List.forall_mem_append.mpr
    ⟨Stmt.allObey_iff.mp h, Stmt.allObey_iff.mp hmore⟩

/-- Names as expressions obey the law of parsed programs. -/
theorem Expr.obeys_names
    {literal : Expr → Prop}
    {ids : List Name}
    (h : ∀ id ∈ ids, IsName id.toList) :
    (ids.map Expr.name).all Expr.isName = true ∧
      Expr.AllObey (.parsed literal) (ids.map Expr.name) := by
  refine ⟨?_, Expr.allObey_iff.mpr ?_⟩
  · rw [List.all_map]
    exact List.all_eq_true.mpr fun _ _ => rfl
  · intro value hvalue
    obtain ⟨id, hid, rfl⟩ := List.mem_map.mp hvalue
    exact h id hid

/-- A condition obeys a law if its parts do. -/
theorem Stmt.obeys_ifThen
    {law : Law}
    {test : Expr}
    {body : Block}
    {orelse : Option ElseBranch}
    (hstmt : law.stmt (.ifThen test body orelse))
    (htest : test.Obeys law)
    (hbody : Block.Obeys law body)
    (horelse : ∀ branch ∈ orelse, branch.Obeys law) :
    (Stmt.ifThen test body orelse).Obeys law := by
  cases orelse with
  | none => exact ⟨hstmt, htest, hbody⟩
  | some branch => exact ⟨hstmt, htest, hbody.1, hbody.2, horelse branch rfl⟩

/-! ## Rule by rule -/

namespace Grammar

/-- What the law says of the trees of a node, besides the law itself. -/
def Node.Obeys (law : Law) : Node → Prop
  | .primary value | .suffixed value | .simple value | .expression value => value.Obeys law
  | .expressions values => values ≠ [] ∧ Expr.AllObey law values
  | .arguments values | .initialValues values | .returnedValues values => Expr.AllObey law values
  | .field entry => entry.Obeys law
  | .entries fields | .table fields => Field.AllObey law fields
  | .leadingParameters ids => ids.all Expr.isName = true ∧ Expr.AllObey law ids
  | .parameters ids => Expr.areParameters ids = true ∧ Expr.AllObey law ids
  | .functionBody ids body =>
      Expr.areParameters ids = true ∧ Expr.AllObey law ids ∧ Block.Obeys law body
  | .names ids => ids ≠ [] ∧ ∀ id ∈ ids, IsName id.toList
  | .path value => value.isDotted = true ∧ value.Obeys law
  | .targets values =>
      values ≠ [] ∧ values.all Expr.isAssignable = true ∧ Expr.AllObey law values
  | .loopStep step => step.Obeys law
  | .loopBody body | .block body => Block.Obeys law body
  | .guarded test body => test.Obeys law ∧ Block.Obeys law body
  | .clauses chain => ∀ clause ∈ chain, clause.1.Obeys law ∧ Block.Obeys law clause.2
  | .alternative last => ∀ branch ∈ last, branch.Obeys law
  | .statement stmt => stmt.isReturn = false ∧ stmt.Obeys law
  | .statements stmts =>
      stmts.all (fun stmt => !stmt.isReturn) = true ∧ Stmt.AllObey law stmts

end Grammar

open Grammar (Node Derives)

/-- What is read from tokens of a source obeys the law, if the literals satisfy its condition and a
loop without a step has one that satisfies it. -/
theorem obeys_of_derives
    {literal : Expr → Prop}
    (hone : literal (.int 1))
    {node : Node}
    {tokens : List Token}
    (h : Derives anyStep node tokens)
    (hfill : AllFill literal tokens) :
    node.Obeys (.parsed literal) := by
  induction h with
  | name hid => exact hfill.head.name hid
  | parenthesised _ _ _ ih => exact ih hfill.tail.left
  | primary _ ih => exact ih hfill
  | dot _ _ hid ih =>
      exact ⟨rfl, ih hfill.left, hfill.right.tail.head.name hid⟩
  | bracket _ _ _ _ ihvalue ihkey =>
      exact ⟨trivial, ihvalue hfill.left, ihkey hfill.right.tail.left⟩
  | call _ _ ihvalue iharguments =>
      exact ⟨trivial, ihvalue hfill.left, iharguments hfill.right⟩
  | invoke _ _ hid _ ihvalue iharguments =>
      exact ⟨hfill.right.tail.head.name hid, ihvalue hfill.left,
        iharguments hfill.right.tail.tail⟩
  | noArguments _ _ => exact trivial
  | listedArguments _ _ _ ih => exact (ih hfill.tail.left).2
  | tableArgument _ ih => exact ⟨⟨trivial, ih hfill⟩, trivial⟩
  | stringArgument htoken => exact ⟨hfill.head.string _ htoken, trivial⟩
  | nil _ => exact trivial
  | true _ => exact trivial
  | false _ => exact trivial
  | varargs _ => exact trivial
  | number htoken hvalue => exact hfill.head.number htoken _ hvalue
  | string htoken => exact hfill.head.string _ htoken
  | function _ _ ih => exact ⟨(ih hfill.tail).1, (ih hfill.tail).2⟩
  | table _ ih => exact ⟨trivial, ih hfill⟩
  | suffixed _ ih => exact ih hfill
  | simple _ ih => exact ih hfill
  | unary _ _ ih => exact ⟨trivial, ih hfill.tail⟩
  | binary _ _ _ ihleft ihright =>
      exact ⟨trivial, ihleft hfill.left, ihright hfill.right.tail⟩
  | firstExpression _ ih => exact ⟨List.cons_ne_nil _ _, ih hfill, trivial⟩
  | nextExpression _ _ _ ihvalues ihvalue =>
      exact ⟨List.concat_ne_nil _ _,
        Expr.allObey_append (ihvalues hfill.left).2 ⟨ihvalue hfill.right.tail, trivial⟩⟩
  | bracketedField _ _ _ _ _ ihkey ihvalue =>
      exact ⟨trivial, ihkey hfill.tail.left, ihvalue hfill.tail.right.tail.tail⟩
  | namedField hid _ _ ih => exact ⟨rfl, hfill.head.name hid, ih hfill.tail.tail⟩
  | positionalField _ ih => exact ⟨rfl, ih hfill⟩
  | noEntry => exact trivial
  | nextEntry _ _ _ ihfields ihfield =>
      exact Field.allObey_append (ihfields hfill.left) ⟨ihfield hfill.right.left, trivial⟩
  | separatedTable _ _ _ ih => exact ih hfill.tail.left
  | unseparatedTable _ _ _ _ ihfields ihfield =>
      exact Field.allObey_append (ihfields hfill.tail.left.left)
        ⟨ihfield hfill.tail.left.right, trivial⟩
  | noLeadingParameter => exact ⟨rfl, trivial⟩
  | nextLeadingParameter _ hid _ ih =>
      refine ⟨?_, Expr.allObey_append (ih hfill.left).2 ⟨hfill.right.head.name hid, trivial⟩⟩
      rw [List.all_append, (ih hfill.left).1]
      rfl
  | noParameters => exact ⟨rfl, trivial⟩
  | lastParameter _ hid ih =>
      exact ⟨Expr.areParameters_append (ih hfill.left).1 rfl,
        Expr.allObey_append (ih hfill.left).2 ⟨hfill.right.head.name hid, trivial⟩⟩
  | lastVarargs _ _ ih =>
      exact ⟨Expr.areParameters_append (ih hfill.left).1 rfl,
        Expr.allObey_append (ih hfill.left).2 ⟨trivial, trivial⟩⟩
  | functionBody _ _ _ _ _ ihparameters ihbody =>
      exact ⟨(ihparameters hfill.tail.left).1, (ihparameters hfill.tail.left).2,
        ihbody hfill.tail.right.tail.left⟩
  | firstName hid =>
      exact ⟨List.cons_ne_nil _ _, List.forall_mem_singleton.mpr (hfill.head.name hid)⟩
  | nextName _ _ hid ih =>
      exact ⟨List.concat_ne_nil _ _, List.forall_mem_append.mpr ⟨(ih hfill.left).2,
        List.forall_mem_singleton.mpr (hfill.right.tail.head.name hid)⟩⟩
  | firstPart hid => exact ⟨rfl, hfill.head.name hid⟩
  | nextPart _ _ hid ih =>
      exact ⟨(ih hfill.left).1, rfl, (ih hfill.left).2, hfill.right.tail.head.name hid⟩
  | firstTarget _ hassignable ih =>
      exact ⟨List.cons_ne_nil _ _, by simpa using hassignable, ih hfill, trivial⟩
  | nextTarget _ _ _ hassignable ihvalues ihvalue =>
      obtain ⟨-, hall, hvalues⟩ := ihvalues hfill.left
      refine ⟨List.concat_ne_nil _ _, ?_,
        Expr.allObey_append hvalues ⟨ihvalue hfill.right.tail, trivial⟩⟩
      rw [List.all_append, hall]
      simpa using hassignable
  | noInitialValues => exact trivial
  | initialValues _ _ ih => exact (ih hfill.tail).2
  | noReturnedValues => exact trivial
  | returnedValues _ ih => exact (ih hfill).2
  | omittedStep => exact hone
  | explicitStep _ _ _ ih => exact ih hfill.tail
  | loopBody _ _ _ ih => exact ih hfill.tail.left
  | guarded _ _ _ ihtest ihbody => exact ⟨ihtest hfill.left, ihbody hfill.right.tail⟩
  | noClause => exact nofun
  | nextClause _ _ _ ihclauses ihclause =>
      exact List.forall_mem_append.mpr ⟨ihclauses hfill.left,
        List.forall_mem_singleton.mpr (ihclause hfill.right.tail)⟩
  | noAlternative => exact nofun
  | alternative _ _ ih =>
      rintro _ ⟨⟩
      exact ih hfill.tail
  | semicolon _ => exact ⟨rfl, trivial⟩
  | label _ hid _ => exact ⟨rfl, hfill.tail.head.name hid⟩
  | breakLoop _ => exact ⟨rfl, trivial⟩
  | goto _ hid => exact ⟨rfl, hfill.tail.head.name hid⟩
  | whileLoop _ _ _ ihtest ihbody =>
      exact ⟨rfl, trivial, ihtest hfill.tail.left, ihbody hfill.tail.right⟩
  | doBlock _ ih => exact ⟨rfl, trivial, ih hfill⟩
  | repeatLoop _ _ _ _ ihbody ihtest =>
      exact ⟨rfl, trivial, (ihbody hfill.tail.left).1, (ihbody hfill.tail.left).2,
        ihtest hfill.tail.right.tail⟩
  | ifThen _ _ _ _ _ ihguarded ihclauses ihalternative =>
      obtain ⟨htest, hbody⟩ := ihguarded hfill.tail.left
      exact ⟨rfl, Stmt.obeys_ifThen trivial htest hbody <|
        ElseBranch.obeys_alternatives (ihclauses hfill.tail.right.left)
          (ihalternative hfill.tail.right.right.left) rfl⟩
  | numericFor _ hid _ _ _ _ _ _ ihstart ihstop ihstep ihbody =>
      have hrest := hfill.tail.tail.tail
      have hstep := ihstep hrest.right.tail.right.left
      exact ⟨rfl, hfill.tail.head.name hid,
        ihstart hrest.left, ihstop hrest.right.tail.left, hstep,
        ihbody hrest.right.tail.right.right⟩
  | genericFor _ _ _ _ _ ihids ihiterators ihbody =>
      obtain ⟨hids, hnames⟩ := ihids hfill.tail.left
      obtain ⟨hiterators, hvalues⟩ := ihiterators hfill.tail.right.tail.left
      exact ⟨rfl, ⟨hids, hiterators, hnames⟩, hvalues, ihbody hfill.tail.right.tail.right⟩
  | functionStatement _ _ _ ihpath ihbody =>
      obtain ⟨hdotted, hname⟩ := ihpath hfill.tail.left
      obtain ⟨hparameters, hfunction⟩ := ihbody hfill.tail.right
      exact ⟨rfl, ⟨hdotted, hparameters⟩, hname, hfunction⟩
  | method _ _ _ hid _ ihpath ihbody =>
      obtain ⟨hdotted, hname⟩ := ihpath hfill.tail.left
      obtain ⟨hparameters, hfunction⟩ := ihbody hfill.tail.right.tail.tail
      exact ⟨rfl, ⟨hdotted, hfill.tail.right.tail.head.name hid, hparameters⟩, hname, hfunction⟩
  | localFunction _ _ hid _ ih =>
      obtain ⟨hparameters, hfunction⟩ := ih hfill.tail.tail.tail
      exact ⟨rfl, ⟨hfill.tail.tail.head.name hid, hparameters⟩, hfunction⟩
  | localAssign _ _ _ ihids ihvalues =>
      obtain ⟨hids, hnames⟩ := ihids hfill.tail.left
      obtain ⟨hall, htargets⟩ := Expr.obeys_names hnames
      exact ⟨rfl, ⟨fun hnil => hids (List.map_eq_nil_iff.mp hnil), hall⟩, htargets,
        ihvalues hfill.tail.right⟩
  | assign _ _ _ ihtargets ihvalues =>
      obtain ⟨htargets, hall, hobey⟩ := ihtargets hfill.left
      obtain ⟨hvalues, hobey'⟩ := ihvalues hfill.right.tail
      exact ⟨rfl, ⟨htargets, hvalues, hall⟩, hobey, hobey'⟩
  | callStatement _ hcall ih => exact ⟨rfl, hcall, ih hfill⟩
  | noStatement => exact ⟨rfl, trivial⟩
  | nextStatement _ _ ihstmts ihstmt =>
      obtain ⟨hall, hstmts⟩ := ihstmts hfill.left
      obtain ⟨hreturn, hstmt⟩ := ihstmt hfill.right
      refine ⟨?_, Stmt.allObey_append hstmts ⟨hstmt, trivial⟩⟩
      rw [List.all_append, hall]
      simpa using hreturn
  | openBlock _ ih =>
      obtain ⟨hall, hstmts⟩ := ih hfill
      exact ⟨Block.returnsLast_of_all hall, hstmts⟩
  | returningBlock _ _ _ ihstmts ihvalues =>
      obtain ⟨hall, hstmts⟩ := ihstmts hfill.left
      exact ⟨Block.returnsLast_append hall _,
        Stmt.allObey_append hstmts ⟨⟨trivial, ihvalues hfill.right.tail⟩, trivial⟩⟩
  | returningBlockClosed _ _ _ _ ihstmts ihvalues =>
      obtain ⟨hall, hstmts⟩ := ihstmts hfill.left
      exact ⟨Block.returnsLast_append hall _,
        Stmt.allObey_append hstmts ⟨⟨trivial, ihvalues hfill.right.tail.left⟩, trivial⟩⟩

/-! ## Sources -/

/-- A token that is spelled in a source can fill its place in a program. -/
theorem Token.fills_of_spelled
    {token : Token}
    {spelling : List Char}
    (h : token.kind.Spells token.text.toList spelling) :
    token.Fills Expr.IsUnbroken := by
  refine ⟨fun hkind => ?_, fun _ _ _ => trivial, fun delimiter hkind => ?_⟩
  · rw [hkind] at h
    obtain ⟨hname, htext⟩ := h
    rwa [htext] at hname
  · rw [hkind] at h
    cases delimiter with
    | single => exact Lexeme.hasBare_of_quotedText (by decide) (h.1 [])
    | double => exact Lexeme.hasBare_of_quotedText (by decide) (h.1 [])
    | long => trivial

/-- All tokens of a source can fill their places in a program. -/
theorem allFill_of_tokenize
    {source : String}
    {tokens : List Token}
    (h : tokenize source = .ok tokens) :
    AllFill Expr.IsUnbroken tokens :=
  fun token htoken => Token.fills_of_spelled ((partition_of_tokenize h).spelled token htoken)

/-- Every program that was read from a source is well-formed. -/
theorem wellFormed_of_parse
    {source : String}
    {limit : Nat}
    {program : Chunk}
    (h : parse source limit = .ok program) :
    program.Obeys .wellFormed := by
  obtain ⟨words, pos, htokens, hderives⟩ := derives_of_parse h
  have hfill := allFill_of_tokenize htokens
  exact obeys_of_derives trivial hderives hfill.left

/-- A function with a dotted name, parameters and a text with its own quote behind a backslash. -/
theorem wellFormed_of_parse_escapedQuote :
    ∃ program, parse "function f.g(x, ...) return 'it\\'s', x.y end" 9 = .ok program ∧
      program.Obeys .wellFormed := by
  have hok : (parse "function f.g(x, ...) return 'it\\'s', x.y end" 9).isOk = true := by
    decide +kernel
  obtain ⟨program, hparse⟩ := Except.exists_of_isOk hok
  exact ⟨program, hparse, wellFormed_of_parse hparse⟩

end LuaView
