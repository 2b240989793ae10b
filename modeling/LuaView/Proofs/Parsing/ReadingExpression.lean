import LuaView.Proofs.Parsing.PlainGrammar
import LuaView.Proofs.Parsing.Reading

/-!
# Expressions are read back from their marks

The marks of a readable expression are read as that expression, in front of any kind that does not
go on with it.  Phrases one level deeper are assumed to be read back if they have fewer marks than
some bound; since every level has a mark of its own, a budget of as many levels as there are marks
is enough.
-/

namespace LuaView
namespace Kind

/-- The kind starts a suffix. -/
def startsSuffix (wide : Bool) : Kind → Bool
  | .symbol .dot | .symbol .lbracket | .symbol .colon | .symbol .lparen => true
  | .symbol .lbrace | .string _ => !wide
  | _ => false

/-- The kind starts an expression that is not an operation. -/
def startsValue : Kind → Bool
  | .name => true
  | kind => kind.startsLiteral

/-- The kind starts an expression. -/
def startsExpr : Kind → Bool
  | .symbol .lparen => true
  | kind => kind.startsValue || kind.unaryOp?.isSome

/-- An expression without operators of its own may end before the kind. -/
def EndsValue (wide : Bool) (kind : Kind) : Prop :=
  kind.startsSuffix wide = false

/-- An expression may end before the kind. -/
def EndsExpr (wide : Bool) (kind : Kind) : Prop :=
  kind.startsSuffix wide = false ∧ kind.binaryOp? = none

/-- A list of expressions may end before the kind. -/
def EndsExprs (wide : Bool) (kind : Kind) : Prop :=
  kind.EndsExpr wide ∧ kind ≠ .symbol .comma

theorem endsExpr_symbol
    {symbol : Symbol}
    (hsymbol : [Symbol.rparen, .rbracket, .rbrace, .comma, .eq, .semicolon, .colonColon].contains
      symbol = true)
    (wide : Bool) :
    EndsExpr wide (.symbol symbol) := by
  cases symbol <;> first | exact ⟨rfl, rfl⟩ | cases hsymbol

end Kind

/-! ## First marks -/

/-- The mark may be the first one of the expression. -/
structure Expr.Fronts (wide : Bool) (value : Expr) (mark : Mark) : Prop where
  startsExpr : mark.kind.startsExpr = true
  startsValue : value.isOperation = false → mark.kind.startsValue = true
  isName : wide = false → value.isHead false = true → mark.kind = .name

/-- An expression with a suffix starts like the one without it. -/
theorem Expr.Fronts.suffix
    {wide : Bool}
    {value next : Expr}
    {mark : Mark}
    (h : value.Fronts wide mark)
    (hhead : value.isHead wide = true) :
    next.Fronts wide mark := by
  have hstarts := h.startsValue (Expr.isOperation_of_isHead hhead)
  refine ⟨h.startsExpr, fun _ => hstarts, fun hwide _ => h.isName hwide ?_⟩
  rw [← hwide]
  exact hhead

/-- The first mark of an expression. -/
theorem Expr.marks_front
    {wide : Bool} :
    ∀ value : Expr, value.Obeys (.readable wide) →
      ∃ mark more, value.marks = mark :: more ∧ value.Fronts wide mark
  | .nil, _ => ⟨_, _, rfl, rfl, fun _ => rfl, nofun⟩
  | .boolean true, _ => ⟨_, _, rfl, rfl, fun _ => rfl, nofun⟩
  | .boolean false, _ => ⟨_, _, rfl, rfl, fun _ => rfl, nofun⟩
  | .varargs, _ => ⟨_, _, rfl, rfl, fun _ => rfl, nofun⟩
  | .number value, _ => ⟨_, _, rfl, rfl, fun _ => rfl, nofun⟩
  | .string text delimiter, _ => ⟨_, _, rfl, rfl, fun _ => rfl, nofun⟩
  | .name id, _ => ⟨_, _, rfl, rfl, fun _ => rfl, fun _ _ => rfl⟩
  | .table fields, _ => ⟨_, _, rfl, rfl, fun _ => rfl, nofun⟩
  | .function parameters body, _ => ⟨_, _, rfl, rfl, fun _ => rfl, nofun⟩
  | .index value key .dot, h => by
      obtain ⟨mark, more, hmarks, hfront⟩ := Expr.marks_front value h.2.1
      exact ⟨mark, _, by rw [Expr.marks, hmarks]; rfl, hfront.suffix h.1.1⟩
  | .index value key .bracket, h => by
      obtain ⟨mark, more, hmarks, hfront⟩ := Expr.marks_front value h.2.1
      exact ⟨mark, _, by rw [Expr.marks, hmarks]; rfl, hfront.suffix h.1.1⟩
  | .call callee arguments, h => by
      obtain ⟨mark, more, hmarks, hfront⟩ := Expr.marks_front callee h.2.1
      exact ⟨mark, _, by rw [Expr.marks, hmarks]; rfl, hfront.suffix h.1⟩
  | .invoke receiver method arguments, h => by
      obtain ⟨mark, more, hmarks, hfront⟩ := Expr.marks_front receiver h.2.1
      exact ⟨mark, _, by rw [Expr.marks, hmarks]; rfl, hfront.suffix h.1.1⟩
  | .binary op left right, h => by
      obtain ⟨mark, more, hmarks, hfront⟩ := Expr.marks_front left h.2.1
      cases hoperation : left.isOperation with
      | true => exact ⟨_, _, by rw [Expr.marks, hoperation]; rfl, rfl, nofun, nofun⟩
      | false =>
          exact ⟨mark, _, by rw [Expr.marks, hoperation, hmarks]; rfl, hfront.startsExpr,
            nofun, nofun⟩
  | .unary op operand, _ => ⟨_, _, rfl, by cases op <;> rfl, nofun, nofun⟩

theorem Expr.marks_ne_nil
    {wide : Bool}
    {value : Expr}
    (h : value.Obeys (.readable wide)) :
    value.marks ≠ [] := by
  obtain ⟨mark, more, hmarks, -⟩ := value.marks_front h
  rw [hmarks]
  exact List.cons_ne_nil mark more

/-- What follows a name at the front does so as well if more marks are appended. -/
theorem Mark.second_append
    {marks tail : List Mark}
    {next : Mark}
    (hmarks : ∀ first second more, marks = first :: second :: more → first.kind = .name →
      second.kind ≠ .symbol .eq)
    (hnonempty : marks ≠ [])
    (hnext : next.kind ≠ .symbol .eq)
    {first second : Mark}
    {more : List Mark}
    (h : marks ++ next :: tail = first :: second :: more)
    (hname : first.kind = .name) :
    second.kind ≠ .symbol .eq := by
  match marks, hmarks, hnonempty, h with
  | [only], _, _, h =>
      obtain ⟨rfl, htail⟩ := List.cons.inj h
      obtain ⟨rfl, -⟩ := List.cons.inj htail
      exact hnext
  | _ :: _ :: _, hmarks, _, h =>
      obtain ⟨rfl, htail⟩ := List.cons.inj h
      obtain ⟨rfl, -⟩ := List.cons.inj htail
      exact hmarks _ _ _ rfl hname

/-- A name at the front of an expression is not followed by an equality sign. -/
theorem Expr.marks_second
    {wide : Bool} :
    ∀ value : Expr, value.Obeys (.readable wide) →
      ∀ first second more, value.marks = first :: second :: more → first.kind = .name →
        second.kind ≠ .symbol .eq
  | .nil, _, _, _, _, h, _ => nomatch h
  | .boolean true, _, _, _, _, h, _ => nomatch h
  | .boolean false, _, _, _, _, h, _ => nomatch h
  | .varargs, _, _, _, _, h, _ => nomatch h
  | .number value, _, _, _, _, h, _ => nomatch h
  | .string text delimiter, _, _, _, _, h, _ => nomatch h
  | .name id, _, _, _, _, h, _ => nomatch h
  | .table fields, _, first, _, _, h, hname => by
      obtain ⟨rfl, -⟩ := List.cons.inj h
      cases hname
  | .function parameters body, _, first, _, _, h, hname => by
      obtain ⟨rfl, -⟩ := List.cons.inj h
      cases hname
  | .unary op operand, _, first, _, _, h, hname => by
      obtain ⟨rfl, -⟩ := List.cons.inj h
      cases op <;> cases hname
  | .index value key .dot, hobeys, _, _, _, h, hname =>
      Mark.second_append (Expr.marks_second value hobeys.2.1)
        (Expr.marks_ne_nil hobeys.2.1) (by decide) h hname
  | .index value key .bracket, hobeys, _, _, _, h, hname =>
      Mark.second_append (Expr.marks_second value hobeys.2.1)
        (Expr.marks_ne_nil hobeys.2.1) (by decide) h hname
  | .call callee arguments, hobeys, _, _, _, h, hname =>
      Mark.second_append (Expr.marks_second callee hobeys.2.1)
        (Expr.marks_ne_nil hobeys.2.1) (by decide) h hname
  | .invoke receiver method arguments, hobeys, _, _, _, h, hname =>
      Mark.second_append (Expr.marks_second receiver hobeys.2.1)
        (Expr.marks_ne_nil hobeys.2.1) (by decide) h hname
  | .binary op left right, hobeys, _, _, _, h, hname => by
      rw [Expr.marks] at h
      cases hoperation : left.isOperation with
      | true =>
          rw [hoperation] at h
          obtain ⟨rfl, -⟩ := List.cons.inj h
          cases hname
      | false =>
          rw [hoperation] at h
          have hop : op.mark.kind ≠ .symbol .eq := by cases op <;> decide
          exact Mark.second_append (Expr.marks_second left hobeys.2.1)
            (Expr.marks_ne_nil hobeys.2.1) hop h hname

/-! ## Phrases one level deeper -/

/-- The phrases of fewer than `n` marks are read back. -/
structure Descent.Covers (wide : Bool) (deeper : Descent) (n : Nat) : Prop where
  expression : ∀ value : Expr, value.Obeys (.readable wide) → value.marks.length < n →
    deeper.expression.Reads value.marks (Kind.EndsExpr wide) value
  operation : ∀ (least : Nat) (value : Expr), value.Obeys (.readable wide) →
    (Mark.group value.isOperation value.marks).length < n →
    (deeper.operation least).Reads (Mark.group value.isOperation value.marks)
      (Kind.EndsExpr wide) value
  block : ∀ stmts : Block, Block.Obeys (.readable wide) stmts →
    (Stmt.marksOfAll stmts).length < n →
    deeper.block.Reads (Stmt.marksOfAll stmts) (fun kind => kind.endsBlock = true) stmts

theorem Expr.marksOfEach_eq_map (values : List Expr) :
    Expr.marksOfEach values = values.map Expr.marks := by
  induction values with
  | nil => rfl
  | cons value values ih => exact congrArg (value.marks :: ·) ih

theorem Mark.length_le_commas
    {marks : List Mark}
    {others : List (List Mark)}
    (h : marks ∈ others) :
    marks.length ≤ (Mark.commas others).length := by
  cases others with
  | nil => cases h
  | cons first others =>
      rw [Mark.commas_cons, List.length_append]
      rcases List.mem_cons.mp h with rfl | h
      · omega
      · have hsub : (Mark.sign .comma :: marks).Sublist
            (others.flatMap fun other => .sign .comma :: other) :=
          List.sublist_flatten_of_mem (List.mem_map_of_mem h)
        have hlength := hsub.length_le
        rw [List.length_cons] at hlength
        omega

namespace PlainGrammar

open LuaView.Parser (Reads anyKind Step)
open LuaView.Parser.Reads

variable {wide : Bool}
variable {deeper : Descent}
variable {n : Nat}
variable {stop : Kind → Prop}

/-- One or more expressions. -/
theorem reads_expressionList
    (hdeeper : deeper.Covers wide n)
    {values : List Expr}
    (hvalues : values ≠ [])
    (hobey : Expr.AllObey (.readable wide) values)
    (hsize : (Mark.commas (Expr.marksOfEach values)).length < n) :
    deeper.expressionList.Reads (Mark.commas (Expr.marksOfEach values)) (Kind.EndsExprs wide)
      values := by
  have hitems : ∀ value ∈ values,
      deeper.expression.Reads value.marks (Kind.EndsExpr wide) value := by
    intro value hvalue
    refine hdeeper.expression value (Expr.allObey_iff.mp hobey value hvalue)
      (Nat.lt_of_le_of_lt ?_ hsize)
    rw [Expr.marksOfEach_eq_map]
    exact Mark.length_le_commas (List.mem_map_of_mem hvalue)
  cases values with
  | nil => exact absurd rfl hvalues
  | cons value values =>
      rw [Expr.marksOfEach_eq_map]
      exact commaSeparated hitems (Kind.endsExpr_symbol rfl wide)

/-! ## Functions -/

/-- Parameters, in front of what is not a comma. -/
theorem reads_parameters
    {parameters : List Expr}
    (hnonempty : parameters ≠ [])
    (hparameters : Expr.areParameters parameters = true)
    (before : List Expr) :
    Reads (Parser.loop Grammar.parameterStep before) (Mark.commas (Expr.marksOfEach parameters))
      (· ≠ .symbol .comma) (before ++ parameters) := by
  induction parameters generalizing before with
  | nil => exact absurd rfl hnonempty
  | cons parameter parameters ih =>
      cases parameter with
      | varargs =>
          cases parameters with
          | nil =>
              refine loop_done (peekKind ?_)
              exact advance nofun fun _ _ => pure
          | cons next parameters => cases hparameters
      | name id =>
          cases parameters with
          | nil =>
              refine loop_done (peekKind ?_)
              refine (name id).bind_mark ?_
              exact bind_nil (acceptSymbol_other .comma) pure fun _ hkind => hkind
          | cons next parameters =>
              have hrest := ih (List.cons_ne_nil _ _) hparameters (before ++ [.name id])
              rw [List.append_assoc] at hrest
              have hmarks : Mark.commas (Expr.marksOfEach (.name id :: next :: parameters)) =
                [.name id, .sign .comma] ++
                  Mark.commas (Expr.marksOfEach (next :: parameters)) := rfl
              rw [hmarks]
              have hstep : Reads (Grammar.parameterStep before) [.name id, .sign .comma] anyKind
                  (Step.again (before ++ [.name id])) := by
                refine peekKind ((name id).bind_mark ?_)
                exact (acceptSymbol .comma).bind_mark pure
              exact loop_round_free hstep (List.cons_ne_nil _ _) hrest
      | _ => cases hparameters

/-- Parameters do not start with a parenthesis. -/
theorem leads_parameters
    {parameter : Expr}
    {parameters : List Expr}
    (hparameters : Expr.areParameters (parameter :: parameters) = true)
    {more : List Mark} :
    Mark.Leads (Mark.commas (Expr.marksOfEach (parameter :: parameters)) ++ more) stop
      (· ≠ .symbol .rparen) := by
  cases parameter with
  | varargs =>
      cases parameters with
      | nil => exact nofun
      | cons next parameters => cases hparameters
  | name id =>
      cases parameters with
      | nil => exact nofun
      | cons next parameters => exact nofun
  | _ => cases hparameters

/-- The parameters and the body of a function are read back. -/
theorem reads_functionBody
    (hdeeper : deeper.Covers wide n)
    {parameters : List Expr}
    {body : Block}
    (hparameters : Expr.areParameters parameters = true)
    (hbody : Block.Obeys (.readable wide) body)
    (hsize : (Stmt.marksOfAll body).length < n) :
    (Grammar.functionBody deeper).Reads
      (Mark.functionBody (Expr.marksOfEach parameters) (Stmt.marksOfAll body)) anyKind
      (parameters, body) := by
  have hrest : Reads
      (do
        Parser.expectSymbol .rparen
        let body ← deeper.block
        Parser.expectWord .end_
        return (parameters, body))
      (.sign .rparen :: (Stmt.marksOfAll body ++ [.word .end_])) anyKind (parameters, body) :=
    (expectSymbol .rparen).bind_mark
      ((hdeeper.block body hbody hsize).bind ((expectWord .end_).bind_mark pure) rfl)
  refine (expectSymbol .lparen).bind_mark ?_
  cases parameters with
  | nil => exact peekKind hrest
  | cons parameter parameters =>
      have hloop := reads_parameters (List.cons_ne_nil _ _) hparameters []
      refine peekKind_leads (leads_parameters hparameters) fun kind hkind => ?_
      rw [if_neg hkind]
      exact hloop.bind hrest nofun

/-! ## Tables -/

theorem endsExpr_comma : Kind.EndsExpr wide (.symbol .comma) :=
  Kind.endsExpr_symbol rfl wide

/-- An entry that starts like neither a key in brackets nor a name with an equality sign. -/
theorem field_positional
    {tokens : List Token}
    (hbracket : (nextToken tokens).kind ≠ .symbol .lbracket)
    (hname : (nextToken tokens).kind = .name →
      ∃ second, Parser.peekSecondKind tokens = .ok second tokens ∧ second ≠ .symbol .eq) :
    Grammar.field deeper tokens =
      (deeper.expression >>= fun value => pure (Field.positional value)) tokens := by
  unfold Grammar.field
  change Parser.bind Parser.peekKind _ tokens = _
  simp only [Parser.bind, Parser.peekKind]
  generalize (nextToken tokens).kind = kind at hbracket hname ⊢
  cases kind with
  | name =>
      obtain ⟨second, hsecond, hne⟩ := hname rfl
      change Parser.bind Parser.peekSecondKind _ tokens = _
      simp only [Parser.bind, hsecond]
      rw [if_neg hne]
  | symbol symbol =>
      cases symbol with
      | lbracket => exact absurd rfl hbracket
      | _ => rfl
  | _ => rfl

theorem reads_positional
    (hdeeper : deeper.Covers wide n)
    {value : Expr}
    (hvalue : value.Obeys (.readable wide))
    (hsize : value.marks.length < n) :
    (Grammar.field deeper).Reads value.marks (· = .symbol .comma) (.positional value) := by
  have hread : Reads (deeper.expression >>= fun value => Pure.pure (Field.positional value))
      value.marks (Kind.EndsExpr wide) (.positional value) :=
    (hdeeper.expression value hvalue hsize).map
  obtain ⟨mark, more, hmarks, hfront⟩ := value.marks_front hvalue
  have hstarts := hfront.startsExpr
  have hsecond := value.marks_second hvalue
  intro words rest hwords hrest
  rw [hmarks] at hwords hsecond
  have hok := hread words rest (hwords.trans hmarks.symm)
    (show Kind.EndsExpr wide _ from hrest ▸ endsExpr_comma)
  rw [field_positional ?_ ?_]
  · exact hok
  · cases words with
    | nil => cases hwords
    | cons token words =>
        obtain ⟨rfl, -⟩ := List.cons.inj hwords
        intro hkind
        have hkind : token.mark.kind = .symbol .lbracket := hkind
        rw [hkind] at hstarts
        cases hstarts
  · intro hname
    match words, hwords with
    | [token], hwords =>
        have hkind : token.kind = .name := hname
        cases rest with
        | nil => exact ⟨token.kind, rfl, by rw [hkind]; exact nofun⟩
        | cons next rest =>
            have hnext : next.kind = .symbol .comma := hrest
            exact ⟨next.kind, rfl, by rw [hnext]; exact nofun⟩
    | first :: second :: words, hwords =>
        obtain ⟨rfl, htail⟩ := List.cons.inj hwords
        obtain ⟨others, rfl⟩ : ∃ others, more = second.mark :: others :=
          ⟨_, htail.symm⟩
        exact ⟨second.kind, rfl, hsecond _ _ _ rfl hname⟩

/-- An entry is read back up to the comma behind it. -/
theorem reads_field
    (hdeeper : deeper.Covers wide n)
    {field : Field}
    (hfield : field.Obeys (.readable wide))
    (hsize : field.marks.length < n) :
    (Grammar.field deeper).Reads field.marks (· = .symbol .comma) field := by
  match field, hfield, hsize with
  | .mk none value bracketed, hfield, hsize =>
      obtain ⟨rfl, hvalue⟩ : bracketed = false ∧ _ := hfield
      exact reads_positional hdeeper hvalue hsize
  | .mk (some key) value true, hfield, hsize =>
      obtain ⟨-, hkey, hvalue⟩ := hfield
      have hvalues := (hdeeper.expression value hvalue (by
        simp only [Field.marks, List.length_cons, List.length_append] at hsize
        omega)).mono (fun kind (hkind : kind = .symbol .comma) => hkind ▸ endsExpr_comma)
      have hkeys := hdeeper.expression key hkey (by
        simp only [Field.marks, List.length_cons, List.length_append] at hsize
        omega)
      refine peekKind ?_
      refine advance nofun fun _ _ => ?_
      refine hkeys.bind ?_ (Kind.endsExpr_symbol rfl wide)
      exact (expectSymbol .rbracket).bind_mark ((expectSymbol .eq).bind_mark hvalues.map)
  | .mk (some key) value false, hfield, hsize =>
      obtain ⟨hname, -, hvalue⟩ := hfield
      cases key with
      | name id =>
          have hvalues := (hdeeper.expression value hvalue (by
            simp only [Field.marks, List.length_cons, List.length_append] at hsize
            omega)).mono (fun kind (hkind : kind = .symbol .comma) => hkind ▸ endsExpr_comma)
          refine peekKind (peekSecondKind ?_)
          refine (Parser.Reads.name id).bind_mark (advance nofun fun _ _ => ?_)
          exact hvalues.map
      | _ => cases hname

/-- An entry does not start with a closing brace. -/
theorem leads_field
    {field : Field}
    (hfield : field.Obeys (.readable wide))
    {more : List Mark} :
    Mark.Leads (field.marks ++ more) stop (· ≠ .symbol .rbrace) := by
  match field, hfield with
  | .mk none value bracketed, hfield =>
      obtain ⟨mark, others, hmarks, hfront⟩ := value.marks_front hfield.2
      have hstarts := hfront.startsExpr
      rw [Field.marks, hmarks]
      show mark.kind ≠ .symbol .rbrace
      intro hkind
      rw [hkind] at hstarts
      cases hstarts
  | .mk (some key) value true, _ => exact nofun
  | .mk (some key) value false, hfield =>
      cases key with
      | name id => exact nofun
      | _ => cases hfield.1

theorem reads_fields
    (hdeeper : deeper.Covers wide n)
    {fields : List Field}
    (hfields : Field.AllObey (.readable wide) fields)
    (hsize : (Field.marksOfAll fields).length < n)
    (before : List Field) :
    Reads (Parser.loop (Grammar.fieldStep deeper) before) (Field.marksOfAll fields)
      (· = .symbol .rbrace) (before ++ fields) := by
  induction fields generalizing before with
  | nil =>
      rw [List.append_nil]
      refine loop_done (peekKind_stop fun kind hkind => ?_)
      rw [if_pos hkind]
      exact pure
  | cons field fields ih =>
      have hlength : field.marks.length + ((Field.marksOfAll fields).length + 1) < n := by
        rw [Field.marksOfAll, List.length_append, List.length_cons] at hsize
        exact hsize
      have hrest := ih hfields.2 (by omega) (before ++ [field])
      rw [List.append_assoc] at hrest
      have hfield := reads_field hdeeper hfields.1 (by omega)
      have hstep : Reads (Grammar.fieldStep deeper before) (field.marks ++ [.sign .comma]) anyKind
          (Step.again (before ++ [field])) := by
        refine peekKind_leads (leads_field hfields.1) fun kind hkind => ?_
        rw [if_neg hkind]
        refine hfield.bind ?_ rfl
        exact (acceptSymbol .comma).bind_mark pure
      have hmarks : Field.marksOfAll (field :: fields) =
          (field.marks ++ [.sign .comma]) ++ Field.marksOfAll fields := by
        rw [Field.marksOfAll, List.append_assoc]
        rfl
      rw [hmarks]
      exact loop_round_free hstep (by simp) hrest

/-- A table is read back, whatever stands behind it. -/
theorem reads_table
    (hdeeper : deeper.Covers wide n)
    {fields : List Field}
    (hfields : Field.AllObey (.readable wide) fields)
    (hsize : (Field.marksOfAll fields).length < n) :
    (Grammar.table deeper).Reads (Expr.table fields).marks anyKind (.table fields) := by
  refine (expectSymbol .lbrace).bind_mark ?_
  refine (reads_fields hdeeper hfields hsize []).bind ?_ rfl
  exact (expectSymbol .rbrace).bind_mark pure

/-! ## Suffixes -/

/-- A list of expressions starts like its first one. -/
theorem leads_exprs
    (front : Kind → Prop)
    (hfront : ∀ kind, kind.startsExpr = true → front kind)
    {value : Expr}
    {values : List Expr}
    (hvalues : Expr.AllObey (.readable wide) (value :: values))
    (more : List Mark) :
    Mark.Leads (Mark.commas (Expr.marksOfEach (value :: values)) ++ more) stop front := by
  obtain ⟨mark, others, hmarks, hmark⟩ := value.marks_front hvalues.1
  rw [Expr.marksOfEach, Mark.commas_cons, hmarks]
  exact hfront _ hmark.startsExpr

/-- Arguments are read back in their parentheses. -/
theorem reads_arguments
    (hdeeper : deeper.Covers wide n)
    {values : List Expr}
    (hvalues : Expr.AllObey (.readable wide) values)
    (hsize : (Mark.commas (Expr.marksOfEach values)).length < n) :
    (Grammar.arguments deeper).Reads (Mark.arguments (Expr.marksOfEach values)) anyKind
      values := by
  refine peekKind ?_
  refine advance nofun fun _ _ => ?_
  have hclose : Reads (Parser.expectSymbol .rparen >>= fun _ => Pure.pure values)
      [.sign .rparen] anyKind values :=
    (expectSymbol .rparen).bind_mark pure
  cases values with
  | nil => exact peekKind hclose
  | cons value values =>
      have hlist := reads_expressionList hdeeper (List.cons_ne_nil _ _) hvalues hsize
      refine peekKind_leads (leads_exprs (· ≠ .symbol .rparen) ?_ hvalues _)
        fun kind hkind => ?_
      · rintro _ hstarts rfl
        cases hstarts
      · rw [if_neg hkind]
        exact hlist.bind hclose ⟨Kind.endsExpr_symbol rfl wide, nofun⟩

/-- A suffix that is not an argument without parentheses is the same in all texts. -/
theorem reads_suffixStep
    {value : Expr}
    {mark : Mark}
    {marks : List Mark}
    {result : Step Expr}
    (hmark : mark.kind.startsArgument = false)
    (h : (Grammar.suffixStep deeper value).Reads (mark :: marks) stop result) :
    (suffixStep wide deeper value).Reads (mark :: marks) stop result := by
  refine peekKind ?_
  rw [hmark, Bool.and_false]
  exact h

theorem reads_dot (value : Expr) (id : Name) :
    (suffixStep wide deeper value).Reads [.sign .dot, .name id] stop
      (.again (.dot value id)) := by
  refine reads_suffixStep rfl (peekKind ?_)
  refine advance nofun fun _ _ => ?_
  exact (Parser.Reads.name id).map

theorem reads_bracket
    (hdeeper : deeper.Covers wide n)
    (value : Expr)
    {key : Expr}
    (hkey : key.Obeys (.readable wide))
    (hsize : key.marks.length < n) :
    (suffixStep wide deeper value).Reads (.sign .lbracket :: (key.marks ++ [.sign .rbracket]))
      stop (.again (.bracket value key)) := by
  refine reads_suffixStep rfl (peekKind ?_)
  refine advance nofun fun _ _ => ?_
  refine (hdeeper.expression key hkey hsize).bind ?_ (Kind.endsExpr_symbol rfl wide)
  exact (expectSymbol .rbracket).bind_mark pure

theorem reads_call
    (hdeeper : deeper.Covers wide n)
    (value : Expr)
    {arguments : List Expr}
    (harguments : Expr.AllObey (.readable wide) arguments)
    (hsize : (Mark.commas (Expr.marksOfEach arguments)).length < n) :
    (suffixStep wide deeper value).Reads (Mark.arguments (Expr.marksOfEach arguments)) anyKind
      (.again (.call value arguments)) := by
  refine reads_suffixStep rfl (peekKind ?_)
  exact (reads_arguments hdeeper harguments hsize).map

theorem reads_invoke
    (hdeeper : deeper.Covers wide n)
    (value : Expr)
    (method : Name)
    {arguments : List Expr}
    (harguments : Expr.AllObey (.readable wide) arguments)
    (hsize : (Mark.commas (Expr.marksOfEach arguments)).length < n) :
    (suffixStep wide deeper value).Reads
      (.sign .colon :: .name method :: Mark.arguments (Expr.marksOfEach arguments)) anyKind
      (.again (.invoke value method arguments)) := by
  refine reads_suffixStep rfl (peekKind ?_)
  refine advance nofun fun _ _ => ?_
  refine (Parser.Reads.name method).bind_mark ?_
  exact (reads_arguments hdeeper harguments hsize).map

/-- The suffixes end before a kind that starts none. -/
theorem suffixStep_done
    {tokens : List Token}
    (hsuffix : (nextToken tokens).kind.startsSuffix wide = false)
    (hargument : (wide && (nextToken tokens).kind.startsArgument) = false)
    (value : Expr) :
    Grammar.suffixStep deeper value tokens = .ok (.done value) tokens := by
  unfold Grammar.suffixStep
  change Parser.bind Parser.peekKind _ tokens = _
  simp only [Parser.bind, Parser.peekKind]
  generalize (nextToken tokens).kind = kind at hsuffix hargument ⊢
  cases kind with
  | symbol symbol =>
      cases symbol with
      | dot => cases hsuffix
      | lbracket => cases hsuffix
      | colon => cases hsuffix
      | lparen => cases hsuffix
      | lbrace =>
          cases wide with
          | true => cases hargument
          | false => cases hsuffix
      | _ => rfl
  | string delimiter =>
      cases wide with
      | true => cases hargument
      | false => cases hsuffix
  | _ => rfl

theorem reads_noSuffix (value : Expr) :
    (suffixStep wide deeper value).Reads [] (Kind.EndsValue wide) (.done value) := by
  intro words rest hwords hrest
  obtain rfl := List.map_eq_nil_iff.mp hwords
  unfold suffixStep
  change Parser.bind Parser.peekKind _ rest = _
  simp only [Parser.bind, Parser.peekKind]
  cases hargument : wide && (nextToken rest).kind.startsArgument with
  | true => rfl
  | false => exact suffixStep_done hrest hargument value

/-! ## Values -/

/-- A literal, a table or a function is read whatever follows it. -/
theorem reads_literal
    (hdeeper : deeper.Covers wide n)
    {value : Expr}
    (hvalue : value.Obeys (.readable wide))
    (hhead : value.isHead false = false)
    (hoperation : value.isOperation = false)
    (hsize : value.marks.length ≤ n) :
    (Grammar.simple deeper).Reads value.marks anyKind value ∧
      Mark.Leads value.marks anyKind (fun kind => kind.startsLiteral = true) := by
  cases value with
  | nil => exact ⟨peekKind (advance nofun fun _ _ => pure), rfl⟩
  | boolean value =>
      cases value with
      | true => exact ⟨peekKind (advance nofun fun _ _ => pure), rfl⟩
      | false => exact ⟨peekKind (advance nofun fun _ _ => pure), rfl⟩
  | varargs => exact ⟨peekKind (advance nofun fun _ _ => pure), rfl⟩
  | number value =>
      obtain ⟨hback, -⟩ : value.ReadsBack ∧ _ := hvalue
      refine ⟨peekKind (advance nofun fun token htoken => ?_), rfl⟩
      have htext : token.text = value.text := congrArg Mark.text htoken
      rw [htext, hback.denotes]
      exact pure
  | string text delimiter =>
      refine ⟨peekKind (advance nofun fun token htoken => ?_), rfl⟩
      obtain rfl : token.text = text := congrArg Mark.text htoken
      exact pure
  | table fields =>
      rw [Expr.marks, List.length_cons, List.length_append] at hsize
      exact ⟨peekKind (reads_table hdeeper hvalue.2 (by omega)), rfl⟩
  | function parameters body =>
      obtain ⟨hparameters, -, hblock, hbody⟩ := hvalue
      have hlength : (Stmt.marksOfAll body).length < n := by
        rw [Expr.marks, Mark.functionBody] at hsize
        simp only [List.length_cons, List.length_append] at hsize
        omega
      refine ⟨peekKind ((expectWord .function_).bind_mark ?_), rfl⟩
      exact (reads_functionBody hdeeper hparameters ⟨hblock, hbody⟩ hlength).map
  | name id => cases hhead
  | index value key style => cases hhead
  | call callee arguments => cases hhead
  | invoke receiver method arguments => cases hhead
  | binary op left right => cases hoperation
  | unary op operand => cases hoperation

/-- Tokens with the marks are read as the value, and then suffixes are looked for. -/
def Chains (wide : Bool) (deeper : Descent) (marks : List Mark) (value : Expr) : Prop :=
  ∀ words rest : List Token, words.map Token.mark = marks →
    suffixed wide deeper (words ++ rest) = Parser.loop (suffixStep wide deeper) value rest

theorem Chains.of_head
    {marks : List Mark}
    {value : Expr}
    (h : (head wide deeper).Reads marks anyKind value) :
    Chains wide deeper marks value :=
  fun _ _ hwords => h.bind_eq hwords trivial

/-- One more suffix. -/
theorem Chains.step
    {marks more : List Mark}
    {value next : Expr}
    (h : Chains wide deeper marks value)
    (hstep : (suffixStep wide deeper value).Reads more anyKind (.again next))
    (hmore : more ≠ []) :
    Chains wide deeper (marks ++ more) next := by
  intro words rest hwords
  obtain ⟨first, second, rfl, hfirst, hsecond⟩ := List.map_eq_append_iff.mp hwords
  rw [List.append_assoc, h first _ hfirst, loop_eq hstep hmore hsecond trivial]

theorem Chains.reads
    {marks : List Mark}
    {value : Expr}
    (h : Chains wide deeper marks value) :
    (suffixed wide deeper).Reads marks (Kind.EndsValue wide) value := by
  intro words rest hwords hrest
  rw [h words rest hwords]
  exact loop_done (reads_noSuffix value) [] rest rfl hrest

/-- In a wide text suffixes may be attached to a literal, a table or a function. -/
theorem chains_literal
    (hdeeper : deeper.Covers wide n)
    {value : Expr}
    (hvalue : value.Obeys (.readable wide))
    (hnarrow : value.isHead false = false)
    (hhead : value.isHead wide = true)
    (hsize : value.marks.length ≤ n) :
    Chains wide deeper value.marks value := by
  obtain ⟨hreads, hleads⟩ := reads_literal hdeeper hvalue hnarrow
    (Expr.isOperation_of_isHead hhead) hsize
  cases wide with
  | false =>
      rw [hnarrow] at hhead
      cases hhead
  | true =>
      refine .of_head (peekKind_leads hleads fun kind hkind => ?_)
      rw [hkind]
      exact hreads

/-- What suffixes may be attached to, and such an expression with suffixes. -/
theorem chains_head
    (hdeeper : deeper.Covers wide n) :
    ∀ value : Expr, value.Obeys (.readable wide) → value.isHead wide = true →
      value.marks.length ≤ n → Chains wide deeper value.marks value
  | .name id, _, _, _ => by
      refine .of_head (peekKind ?_)
      rw [show Kind.startsLiteral (Mark.name id).kind = false from rfl, Bool.and_false]
      refine peekKind ?_
      exact (Parser.Reads.name id).map
  | .index value key .dot, h, _, hsize => by
      obtain ⟨⟨hhead, hkey⟩, hvalue, -⟩ := h
      cases key with
      | name id =>
          have hlength : value.marks.length ≤ n := by
            rw [Expr.marks, List.length_append] at hsize
            omega
          exact (chains_head hdeeper value hvalue hhead hlength).step (reads_dot value id)
            (List.cons_ne_nil _ _)
      | _ => cases hkey
  | .index value key .bracket, h, _, hsize => by
      obtain ⟨⟨hhead, -⟩, hvalue, hkey⟩ := h
      rw [Expr.marks] at hsize
      simp only [List.length_append, List.length_cons] at hsize
      exact (chains_head hdeeper value hvalue hhead (by omega)).step
        (reads_bracket hdeeper value hkey (by omega)) (List.cons_ne_nil _ _)
  | .call callee arguments, h, _, hsize => by
      obtain ⟨hhead, hcallee, harguments⟩ := h
      rw [Expr.marks, Mark.arguments] at hsize
      simp only [List.length_append, List.length_cons] at hsize
      exact (chains_head hdeeper callee hcallee hhead (by omega)).step
        (reads_call hdeeper callee harguments (by omega)) (List.cons_ne_nil _ _)
  | .invoke receiver method arguments, h, _, hsize => by
      obtain ⟨⟨hhead, -⟩, hreceiver, harguments⟩ := h
      rw [Expr.marks, Mark.arguments] at hsize
      simp only [List.length_append, List.length_cons] at hsize
      exact (chains_head hdeeper receiver hreceiver hhead (by omega)).step
        (reads_invoke hdeeper receiver method harguments (by omega)) (List.cons_ne_nil _ _)
  | .nil, h, hhead, hsize => chains_literal hdeeper h rfl hhead hsize
  | .boolean value, h, hhead, hsize => chains_literal hdeeper h rfl hhead hsize
  | .varargs, h, hhead, hsize => chains_literal hdeeper h rfl hhead hsize
  | .number value, h, hhead, hsize => chains_literal hdeeper h rfl hhead hsize
  | .string text delimiter, h, hhead, hsize => chains_literal hdeeper h rfl hhead hsize
  | .table fields, h, hhead, hsize => chains_literal hdeeper h rfl hhead hsize
  | .function parameters body, h, hhead, hsize => chains_literal hdeeper h rfl hhead hsize
  | .binary op left right, _, hhead, _ => nomatch hhead
  | .unary op operand, _, hhead, _ => nomatch hhead

/-- An expression in parentheses. -/
theorem chains_group
    (hdeeper : deeper.Covers wide n)
    {value : Expr}
    (hvalue : value.Obeys (.readable wide))
    (hsize : value.marks.length < n) :
    Chains wide deeper (.sign .lparen :: (value.marks ++ [.sign .rparen])) value := by
  refine .of_head (peekKind ?_)
  rw [show Kind.startsLiteral (Mark.sign .lparen).kind = false from rfl, Bool.and_false]
  refine peekKind (advance nofun fun _ _ => ?_)
  refine (hdeeper.expression value hvalue hsize).bind ?_ (Kind.endsExpr_symbol rfl wide)
  exact (expectSymbol .rparen).bind_mark pure

/-- What suffixes are looked for behind is what the grammar reads as well. -/
theorem Chains.reads_simple
    {mark : Mark}
    {marks : List Mark}
    {value : Expr}
    (h : Chains wide deeper (mark :: marks) value)
    (hmark : wide = false → mark.kind = .name ∨ mark.kind = .symbol .lparen) :
    (simple wide deeper).Reads (mark :: marks) (Kind.EndsValue wide) value := by
  cases wide with
  | true => exact h.reads
  | false =>
      refine peekKind ?_
      rcases hmark rfl with hkind | hkind
      · rw [hkind]
        exact h.reads
      · rw [hkind]
        exact h.reads

/-- An expression without operators of its own, which is grouped if it is an operation. -/
theorem reads_simple
    (hdeeper : deeper.Covers wide n)
    {value : Expr}
    (hvalue : value.Obeys (.readable wide))
    (hsize : (Mark.group value.isOperation value.marks).length ≤ n) :
    (simple wide deeper).Reads (Mark.group value.isOperation value.marks)
      (Kind.EndsValue wide) value := by
  cases hoperation : value.isOperation with
  | true =>
      rw [hoperation] at hsize
      have hlength : value.marks.length < n := by
        simp only [Mark.group, if_true, List.length_cons, List.length_append] at hsize
        omega
      exact (chains_group hdeeper hvalue hlength).reads_simple fun _ => .inr rfl
  | false =>
      rw [hoperation] at hsize
      cases hhead : value.isHead wide with
      | true =>
          have hchains := chains_head hdeeper value hvalue hhead hsize
          obtain ⟨mark, more, hmarks, hfront⟩ := value.marks_front hvalue
          have hgroup : Mark.group false value.marks = mark :: more := hmarks
          rw [hmarks] at hchains
          rw [hgroup]
          exact hchains.reads_simple fun hwide => .inl (hfront.isName hwide (hwide ▸ hhead))
      | false =>
          cases wide with
          | true =>
              cases value with
              | binary op left right => cases hoperation
              | unary op operand => cases hoperation
              | _ => cases hhead
          | false =>
              exact (reads_literal hdeeper hvalue hhead hoperation hsize).1.mono
                fun _ _ => trivial

/-! ## Operations -/

/-- Neither a value nor a parenthesis is an operator. -/
theorem unaryOp?_of_startsValue
    {kind : Kind}
    (h : kind.startsValue = true ∨ kind = .symbol .lparen) :
    kind.unaryOp? = none := by
  rcases h with h | rfl
  · cases kind with
    | keyword word => cases word <;> first | rfl | cases h
    | symbol symbol => cases symbol <;> first | rfl | cases h
    | _ => rfl
  · rfl

theorem leads_group
    (front : Kind → Prop)
    (hfront : ∀ kind, kind.startsValue = true ∨ kind = .symbol .lparen → front kind)
    {value : Expr}
    (hvalue : value.Obeys (.readable wide)) :
    Mark.Leads (Mark.group value.isOperation value.marks) stop front := by
  cases hoperation : value.isOperation with
  | true => exact hfront _ (.inr rfl)
  | false =>
      obtain ⟨mark, more, hmarks, hmark⟩ := value.marks_front hvalue
      have hgroup : Mark.group false value.marks = mark :: more := hmarks
      rw [hgroup]
      exact hfront _ (.inl (hmark.startsValue hoperation))

theorem reads_operand
    (hdeeper : deeper.Covers wide n)
    {value : Expr}
    (hvalue : value.Obeys (.readable wide))
    (hsize : (Mark.group value.isOperation value.marks).length ≤ n) :
    (operand wide deeper).Reads (Mark.group value.isOperation value.marks)
      (Kind.EndsValue wide) value := by
  refine peekKind_leads (leads_group (fun kind => kind.unaryOp? = none)
    (fun _ => unaryOp?_of_startsValue) hvalue) fun kind hkind => ?_
  rw [hkind]
  exact reads_simple hdeeper hvalue hsize

theorem reads_unary
    (hdeeper : deeper.Covers wide n)
    (op : UnaryOp)
    {value : Expr}
    (hvalue : value.Obeys (.readable wide))
    (hsize : (Mark.group value.isOperation value.marks).length < n) :
    (operand wide deeper).Reads (op.mark :: Mark.group value.isOperation value.marks)
      (Kind.EndsExpr wide) (.unary op value) := by
  have hop : op.mark.kind.unaryOp? = some op := by cases op <;> rfl
  refine peekKind ?_
  rw [hop]
  refine advance (by cases op <;> exact nofun) fun _ _ => ?_
  exact (hdeeper.operation _ value hvalue hsize).map

/-- No operator follows. -/
theorem reads_noOperator (least : Nat) (left : Expr) :
    (Grammar.operatorStep deeper least left).Reads [] (Kind.EndsExpr wide) (.done left) := by
  refine peekKind_stop fun kind hkind => ?_
  rw [hkind.2]
  exact pure

theorem reads_binary
    (hdeeper : deeper.Covers wide n)
    {least : Nat}
    {op : BinaryOp}
    (hop : least ≤ op.precedence)
    (left : Expr)
    {right : Expr}
    (hright : right.Obeys (.readable wide))
    (hsize : (Mark.group right.isOperation right.marks).length < n) :
    (Grammar.operatorStep deeper least left).Reads
      (op.mark :: Mark.group right.isOperation right.marks) (Kind.EndsExpr wide)
      (.again (.binary op left right)) := by
  have hkind : op.mark.kind.binaryOp? = some op := by cases op <;> rfl
  refine peekKind ?_
  rw [hkind]
  simp only
  rw [if_neg (Nat.not_lt.mpr hop)]
  refine advance (by cases op <;> exact nofun) fun _ _ => ?_
  exact (hdeeper.operation _ right hright hsize).map

/-- An expression that is grouped if it is an operation, whatever operators are asked for. -/
theorem reads_operation
    (hdeeper : deeper.Covers wide n)
    (least : Nat)
    {value : Expr}
    (hvalue : value.Obeys (.readable wide))
    (hsize : (Mark.group value.isOperation value.marks).length ≤ n) :
    (expression wide deeper least).Reads (Mark.group value.isOperation value.marks)
      (Kind.EndsExpr wide) value :=
  (reads_operand hdeeper hvalue hsize).bind_last (loop_done (reads_noOperator least value))
    fun _ hkind => hkind.1

/-- An expression, in front of what does not go on with it. -/
theorem reads_expression
    (hdeeper : deeper.Covers wide n)
    {value : Expr}
    (hvalue : value.Obeys (.readable wide))
    (hsize : value.marks.length ≤ n) :
    (expression wide deeper BinaryOp.or.precedence).Reads value.marks (Kind.EndsExpr wide)
      value := by
  cases value with
  | unary op operand =>
      rw [Expr.marks, List.length_cons] at hsize
      exact (reads_unary hdeeper op hvalue.2 hsize).bind_last
        (loop_done (reads_noOperator _ _)) fun _ hkind => hkind
  | binary op left right =>
      obtain ⟨-, hleft, hright⟩ := hvalue
      rw [Expr.marks, List.length_append, List.length_cons] at hsize
      have hop : BinaryOp.or.precedence ≤ op.precedence := by cases op <;> decide
      have hstep := reads_binary hdeeper hop left hright (by omega)
      have hloop := loop_round hstep (List.cons_ne_nil _ _)
        (loop_done (reads_noOperator _ (.binary op left right))) fun _ hkind => hkind
      rw [List.append_nil] at hloop
      refine (reads_operand hdeeper hleft (by omega)).bind hloop ?_
      show Kind.startsSuffix wide op.mark.kind = false
      cases op <;> rfl
  | _ => exact reads_operation hdeeper _ hvalue hsize

end PlainGrammar
end LuaView
