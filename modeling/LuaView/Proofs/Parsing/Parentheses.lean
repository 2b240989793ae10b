import LuaView.Proofs.Parsing.StatementRuns

/-!
# Parentheses around targets and calls

A tree does not record parentheses, and whether an expression can be assigned to or can stand alone
is decided on its tree.  So a parser accepts assignment targets and calls that are written inside
parentheses, although in the grammar of statements a target is a name or ends with its own name or
bracket, and a call ends with its arguments.

`Bare value tokens` says that the expression is written in that way.  The main statement is that
every target and every call of an accepted program is, but for pairs of parentheses around it.
-/

namespace LuaView
namespace Grammar

/-- The tokens of the expression end with its own last part: its only name, the name or the bracket
of an index, or the arguments of a call. -/
inductive Bare : Expr → List Token → Prop
  | name
      {id : Token}
      (hid : id.kind = .name) :
      Bare (.name id.text) [id]
  | dot
      {value : Expr} {ts : List Token} {dot id : Token}
      (hvalue : Derives anyStep (.suffixed value) ts)
      (hdot : dot.kind = .symbol .dot)
      (hid : id.kind = .name) :
      Bare (.dot value id.text) (ts ++ [dot, id])
  | bracket
      {value key : Expr} {ts us : List Token} {left right : Token}
      (hvalue : Derives anyStep (.suffixed value) ts)
      (hleft : left.kind = .symbol .lbracket)
      (hkey : Derives anyStep (.expression key) us)
      (hright : right.kind = .symbol .rbracket) :
      Bare (.bracket value key) (ts ++ left :: (us ++ [right]))
  | call
      {value : Expr} {arguments : List Expr} {ts us : List Token}
      (hvalue : Derives anyStep (.suffixed value) ts)
      (harguments : Derives anyStep (.arguments arguments) us) :
      Bare (.call value arguments) (ts ++ us)
  | invoke
      {value : Expr} {arguments : List Expr} {ts us : List Token} {colon id : Token}
      (hvalue : Derives anyStep (.suffixed value) ts)
      (hcolon : colon.kind = .symbol .colon)
      (hid : id.kind = .name)
      (harguments : Derives anyStep (.arguments arguments) us) :
      Bare (.invoke value id.text arguments) (ts ++ colon :: id :: us)

/-- A name without parentheses is one token. -/
theorem Bare.eq_of_name
    {id : Name}
    {tokens : List Token}
    (h : Bare (.name id) tokens) :
    ∃ token, tokens = [token] ∧ token.kind = .name := by
  generalize hvalue : Expr.name id = value at h
  cases h with
  | name hid => exact ⟨_, rfl, hid⟩
  | dot _ _ _ => cases hvalue
  | bracket _ _ _ _ => cases hvalue
  | call _ _ => cases hvalue
  | invoke _ _ _ _ => cases hvalue

/-- The tokens are others inside so many pairs of parentheses. -/
inductive Enclosed (P : List Token → Prop) : Nat → List Token → Prop
  | bare
      {ts : List Token}
      (h : P ts) :
      Enclosed P 0 ts
  | pair
      {count : Nat} {ts : List Token} {left right : Token}
      (hleft : left.kind = .symbol .lparen)
      (h : Enclosed P count ts)
      (hright : right.kind = .symbol .rparen) :
      Enclosed P (count + 1) (left :: (ts ++ [right]))

/-- The expression is written bare, or so inside parentheses. -/
def BareInside (value : Expr) (tokens : List Token) : Prop :=
  ∃ count, Enclosed (Bare value) count tokens

theorem eq_of_concat_singleton
    {α : Type}
    {front : List α}
    {only last : α}
    (h : [only] = front ++ [last]) :
    front = [] ∧ last = only := by
  have hsplit : [] ++ [only] = front ++ [last] := h
  obtain ⟨hfront, hlast⟩ := List.append_inj' hsplit rfl
  exact ⟨hfront.symm, (List.singleton_inj.mp hlast).symm⟩

/-- The tokens of the expressions, with commas between them. -/
inductive Listed (P : Expr → List Token → Prop) : List Expr → List Token → Prop
  | first
      {value : Expr} {ts : List Token}
      (h : P value ts) :
      Listed P [value] ts
  | next
      {values : List Expr} {value : Expr} {ts us : List Token} {comma : Token}
      (hvalues : Listed P values ts)
      (hcomma : comma.kind = .symbol .comma)
      (h : P value us) :
      Listed P (values ++ [value]) (ts ++ comma :: us)

namespace Listed

variable {P : Expr → List Token → Prop}

theorem ne_nil
    {values : List Expr}
    {tokens : List Token}
    (h : Listed P values tokens) :
    values ≠ [] := by
  cases h with
  | first _ => exact List.cons_ne_nil _ _
  | next _ _ _ => exact List.append_ne_nil_of_right_ne_nil _ (List.cons_ne_nil _ _)

theorem of_singleton
    {value : Expr}
    {tokens : List Token}
    (h : Listed P [value] tokens) :
    P value tokens := by
  generalize hvalues : [value] = values at h
  cases h with
  | first h =>
      obtain rfl := List.singleton_inj.mp hvalues
      exact h
  | next hfront _ _ => exact absurd (eq_of_concat_singleton hvalues).1 hfront.ne_nil

end Listed

/-- The tokens are read as the statement, and its targets, or the call that it is, are written as
`form` says. -/
def IsWritten (form : Expr → List Token → Prop) (stmt : Stmt) (tokens : List Token) : Prop :=
  Derives anyStep (.block [stmt]) tokens ∧
    match stmt with
    | .assign targets values => ∃ ts eq us, tokens = ts ++ eq :: us ∧ eq.kind = .symbol .eq ∧
        Listed (fun target run => target.isAssignable = true ∧ form target run) targets ts ∧
        Derives anyStep (.expressions values) us
    | .expr value => value.isCall = true ∧ form value tokens
    | _ => True

/-! ## Targets and calls -/

/-- An expression that has a last part of its own is written with it, inside parentheses or not. -/
def Node.IsBareInside (node : Node) (tokens : List Token) : Prop :=
  match node with
  | .primary value | .suffixed value | .simple value | .expression value =>
      value.isAssignable = true ∨ value.isCall = true → BareInside value tokens
  | _ => True

/-- The tokens of a name, an access or a call are those of the bare expression, inside any number
of parentheses. -/
theorem bareInside_of_derives
    {node : Node}
    {tokens : List Token}
    (h : Derives anyStep node tokens) :
    node.IsBareInside tokens := by
  induction h with
  | name hid => exact fun _ => ⟨0, .bare (.name hid)⟩
  | parenthesised hleft _ hright ih =>
      intro hvalue
      obtain ⟨count, hinside⟩ := ih hvalue
      exact ⟨count + 1, .pair hleft hinside hright⟩
  | primary _ ih => exact ih
  | dot hvalue hdot hid _ => exact fun _ => ⟨0, .bare (.dot hvalue hdot hid)⟩
  | bracket hvalue hleft hkey hright _ _ =>
      exact fun _ => ⟨0, .bare (.bracket hvalue hleft hkey hright)⟩
  | call hvalue harguments _ _ => exact fun _ => ⟨0, .bare (.call hvalue harguments)⟩
  | invoke hvalue hcolon hid harguments _ _ =>
      exact fun _ => ⟨0, .bare (.invoke hvalue hcolon hid harguments)⟩
  | suffixed _ ih => exact ih
  | simple _ ih => exact ih
  -- no other expression can be assigned to or is a call
  | nil _ | true _ | false _ | varargs _ | number _ _ | string _ | function _ _ _ | table _ _
  | unary _ _ _ | binary _ _ _ _ _ => rintro (hvalue | hvalue) <;> cases hvalue
  | _ => trivial

/-- Targets are assignable, and each has its own run of tokens. -/
theorem listed_of_targets
    {node : Node}
    {tokens : List Token}
    (h : Derives anyStep node tokens)
    {targets : List Expr}
    (hnode : node = .targets targets) :
    Listed (fun target run => target.isAssignable = true ∧ BareInside target run) targets
      tokens := by
  induction h generalizing targets with
  | firstTarget hvalue hassignable _ =>
      obtain rfl := Node.targets.inj hnode
      exact .first ⟨hassignable, bareInside_of_derives hvalue (.inl hassignable)⟩
  | nextTarget _ hcomma hvalue hassignable ih _ =>
      obtain rfl := Node.targets.inj hnode
      exact .next (ih rfl) hcomma ⟨hassignable, bareInside_of_derives hvalue (.inl hassignable)⟩
  | _ => cases hnode

theorem derives_nothing
    {stmts : Block}
    {tokens : List Token}
    (h : Derives anyStep (.statements stmts) tokens)
    (hstmts : stmts = []) :
    tokens = [] := by
  cases h with
  | noStatement => rfl
  | nextStatement _ _ => exact absurd hstmts (List.append_ne_nil_of_right_ne_nil _ nofun)

/-- What is read as a block of one statement is read as the statement, but for a `return`. -/
theorem derives_of_single
    {stmt : Stmt}
    {tokens : List Token}
    (h : Derives anyStep (.block [stmt]) tokens) :
    Derives anyStep (.statement stmt) tokens ∨ ∃ values, stmt = .returnValues values := by
  generalize hblock : [stmt] = block at h
  cases h with
  | openBlock h =>
      cases h with
      | noStatement => cases hblock
      | nextStatement hfront hstmt =>
          obtain ⟨hnil, rfl⟩ := eq_of_concat_singleton hblock
          obtain rfl := derives_nothing hfront hnil
          exact .inl hstmt
  | returningBlock _ _ _ => exact .inr ⟨_, (eq_of_concat_singleton hblock).2.symm⟩
  | returningBlockClosed _ _ _ _ => exact .inr ⟨_, (eq_of_concat_singleton hblock).2.symm⟩

/-- A statement that is read from tokens is written with parentheses around its targets, or around
the call that it is, at most. -/
theorem isWritten_of_derives
    (stmt : Stmt)
    (tokens : List Token)
    (h : Derives anyStep (.block [stmt]) tokens) :
    IsWritten BareInside stmt tokens := by
  refine ⟨h, ?_⟩
  rcases derives_of_single h with hstmt | ⟨values, rfl⟩
  · cases hstmt with
    | assign htargets heq hvalues =>
        exact ⟨_, _, _, rfl, heq, listed_of_targets htargets rfl, hvalues⟩
    | callStatement hvalue hcall => exact ⟨hcall, bareInside_of_derives hvalue (.inr hcall)⟩
    | _ => trivial
  · trivial

end Grammar

open Grammar

/-- Every target and every call that stands alone, at whatever depth of an accepted program, is
written bare or with pairs of parentheses around it. -/
theorem stmtRuns_of_parse
    {tokens : List Token}
    {limit : Nat}
    {program : Chunk}
    (h : (Session.ofTokens tokens limit).parse.1 = .ok program) :
    StmtRuns (IsWritten BareInside) program.body (Token.untilEnd tokens) := by
  have hderives := Session.derives_untilEnd h
  rw [Session.untilEnd_ofTokens] at hderives
  exact runs_of_derives isWritten_of_derives hderives

/-- The tokens of `local function g() (a), b[i] = 1 end ((f(x)))`. -/
def enclosedTokens : List Token :=
  [⟨.keyword .local_, "local", {}⟩, ⟨.keyword .function_, "function", {}⟩, ⟨.name, "g", {}⟩,
    ⟨.symbol .lparen, "(", {}⟩, ⟨.symbol .rparen, ")", {}⟩, ⟨.symbol .lparen, "(", {}⟩,
    ⟨.name, "a", {}⟩, ⟨.symbol .rparen, ")", {}⟩, ⟨.symbol .comma, ",", {}⟩, ⟨.name, "b", {}⟩,
    ⟨.symbol .lbracket, "[", {}⟩, ⟨.name, "i", {}⟩, ⟨.symbol .rbracket, "]", {}⟩,
    ⟨.symbol .eq, "=", {}⟩, ⟨.number, "1", {}⟩, ⟨.keyword .end_, "end", {}⟩,
    ⟨.symbol .lparen, "(", {}⟩, ⟨.symbol .lparen, "(", {}⟩, ⟨.name, "f", {}⟩,
    ⟨.symbol .lparen, "(", {}⟩, ⟨.name, "x", {}⟩, ⟨.symbol .rparen, ")", {}⟩,
    ⟨.symbol .rparen, ")", {}⟩, ⟨.symbol .rparen, ")", {}⟩]

theorem stmtRuns_enclosedTokens :
    ∃ program, (Session.ofTokens enclosedTokens 5).parse.1 = .ok program ∧
      program.body.length = 2 ∧
      StmtRuns (IsWritten BareInside) program.body (Token.untilEnd enclosedTokens) := by
  have hlength : (Session.ofTokens enclosedTokens 5).parse.1.map
      (fun program => program.body.length) = .ok 2 := by decide +kernel
  cases hparse : (Session.ofTokens enclosedTokens 5).parse.1 with
  | error error =>
      rw [hparse] at hlength
      cases hlength
  | ok program =>
      rw [hparse] at hlength
      exact ⟨program, rfl, Except.ok.inj hlength, stmtRuns_of_parse hparse⟩

/-- The tokens of `(a) = 1`. -/
def enclosedTarget : List Token :=
  [⟨.symbol .lparen, "(", {}⟩, ⟨.name, "a", {}⟩, ⟨.symbol .rparen, ")", {}⟩,
    ⟨.symbol .eq, "=", {}⟩, ⟨.number, "1", {}⟩]

/-- The block is one assignment to a name. -/
def isNameAssignment : Block → Bool
  | [.assign [.name _] _] => true
  | _ => false

/-- An assignment to a name whose target is written bare starts with the name. -/
theorem head_of_isNameAssignment
    {stmts : Block}
    {tokens : List Token}
    (hstmts : isNameAssignment stmts = true)
    (h : StmtRuns (IsWritten Bare) stmts tokens) :
    ∃ token rest, tokens = token :: rest ∧ token.kind = .name := by
  unfold isNameAssignment at hstmts
  split at hstmts
  · cases h with
    | cons hstmt _ _ =>
        obtain ⟨-, ts, eq, us, rfl, -, hlisted, -⟩ := hstmt
        obtain ⟨token, rfl, hkind⟩ := hlisted.of_singleton.2.eq_of_name
        exact ⟨token, _, rfl, hkind⟩
  · cases hstmts

/-- A target inside parentheses is accepted, although it is not written bare. -/
theorem enclosed_target_accepted :
    ∃ program, (Session.ofTokens enclosedTarget 9).parse.1 = .ok program ∧
      ¬ StmtRuns (IsWritten Bare) program.body (Token.untilEnd enclosedTarget) := by
  have hshape : (Session.ofTokens enclosedTarget 9).parse.1.map
      (fun program => isNameAssignment program.body) = .ok true := by decide +kernel
  cases hparse : (Session.ofTokens enclosedTarget 9).parse.1 with
  | error error =>
      rw [hparse] at hshape
      cases hshape
  | ok program =>
      rw [hparse] at hshape
      refine ⟨program, rfl, fun hruns => ?_⟩
      obtain ⟨token, rest, htokens, hkind⟩ :=
        head_of_isNameAssignment (Except.ok.inj hshape) hruns
      obtain ⟨rfl, -⟩ := List.cons.inj htokens
      cases hkind

end LuaView
