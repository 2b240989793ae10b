import LuaView.Proofs.Parsing.Acceptance
import LuaView.Proofs.Parsing.ReadingStatement

/-!
# Precedence

The table of operators says which of two neighbouring operators has the operand between them: the
one in the lower row, or of two in the same row the left one, unless the row groups to the right.
An operation is written with as few parentheses as the table allows for, and the parser reads the
operation back.

The parser asks for an expression with the least precedence that its operators may have.  Whatever
that is, it reads the whole operation before it looks for one more operator, if none of the
operators in the operation is looser and if the next one could not have taken over the last operand.
-/

namespace LuaView

open Mark (sign)

/-! ## The table -/

/-- Operators that bind equally tight. -/
structure OperatorRow where
  binary : List BinaryOp
  unary : List UnaryOp := []
  groupsRight : Bool := false

/-- The operators, from the loosest to the tightest. -/
def operatorTable : List OperatorRow :=
  [{ binary := [.or] },
    { binary := [.and] },
    { binary := [.lt, .gt, .le, .ge, .ne, .eq] },
    { binary := [.bitOr] },
    { binary := [.bitXor] },
    { binary := [.bitAnd] },
    { binary := [.shiftLeft, .shiftRight] },
    { binary := [.concat], groupsRight := true },
    { binary := [.add, .sub] },
    { binary := [.mul, .div, .floorDiv, .mod] },
    { binary := [], unary := [.not, .len, .neg, .bitNot] },
    { binary := [.pow], groupsRight := true }]

/-- The row of an operator with two operands. -/
def BinaryOp.row (op : BinaryOp) : Nat :=
  operatorTable.findIdx fun row => row.binary.contains op

/-- The row of an operator with one operand. -/
def UnaryOp.row (op : UnaryOp) : Nat :=
  operatorTable.findIdx fun row => row.unary.contains op

/-- Operators in the row of the given one group to the right. -/
def BinaryOp.groupsRight (op : BinaryOp) : Bool :=
  operatorTable[op.row]?.any OperatorRow.groupsRight

/-- Precedences are the rows of the table, counted from one. -/
theorem BinaryOp.precedence_eq (op : BinaryOp) :
    op.precedence = op.row + 1 := by
  cases op <;> decide

theorem UnaryOp.precedence_eq (op : UnaryOp) :
    UnaryOp.precedence = op.row + 1 := by
  cases op <;> decide

/-- The operators that group to the right are those of the table. -/
theorem BinaryOp.isRightAssociative_eq (op : BinaryOp) :
    op.isRightAssociative = op.groupsRight := by
  cases op <;> decide

/-- There are no binary operators in the row of the unary ones. -/
theorem BinaryOp.row_ne (op : BinaryOp) (other : UnaryOp) :
    op.row ≠ other.row := by
  cases op <;> cases other <;> decide

/-- Operators of one row group in the same direction. -/
theorem BinaryOp.groupsRight_congr
    {op other : BinaryOp}
    (h : op.row = other.row) :
    op.groupsRight = other.groupsRight := by
  rw [groupsRight, groupsRight, h]

/-- A right operand takes the operators of its own row only if the row groups to the right. -/
theorem BinaryOp.rightPrecedence_eq (op : BinaryOp) :
    op.rightPrecedence = if op.groupsRight then op.row + 1 else op.row + 2 := by
  rw [rightPrecedence, isRightAssociative_eq, precedence_eq]

/-! ## Writing operations -/

/-- The expression has to be grouped where it is the left operand. -/
def Expr.isGroupedLeft (op : BinaryOp) : Expr → Bool
  | .binary inner _ _ => inner.row < op.row || (inner.row == op.row && op.groupsRight)
  | .unary inner _ => inner.row < op.row
  | _ => false

/-- The expression has to be grouped where it is the right operand; a unary operator there takes
nothing away from the operator in front of it. -/
def Expr.isGroupedRight (op : BinaryOp) : Expr → Bool
  | .binary inner _ _ => inner.row < op.row || (inner.row == op.row && !op.groupsRight)
  | _ => false

/-- The expression has to be grouped where it is the only operand. -/
def Expr.isGroupedOnly (op : UnaryOp) : Expr → Bool
  | .binary inner _ _ => inner.row < op.row
  | _ => false

/-- The marks of an expression in which an operation is grouped only where it has to be. -/
def Expr.sparseMarks : Expr → List Mark
  | .binary op left right =>
      Mark.group (left.isGroupedLeft op) left.sparseMarks ++
        op.mark :: Mark.group (right.isGroupedRight op) right.sparseMarks
  | .unary op operand => op.mark :: Mark.group (operand.isGroupedOnly op) operand.sparseMarks
  | value => value.marks

/-- An expression made of names, integers that are not negative, and operators. -/
inductive Expr.IsOperatorTree : Expr → Prop
  | name (id : Name) :
      IsOperatorTree (.name id)
  | integer
      {value : Int64}
      (h : 0 ≤ value.toInt) :
      IsOperatorTree (.int value)
  | binary
      {left right : Expr}
      (op : BinaryOp)
      (hleft : IsOperatorTree left)
      (hright : IsOperatorTree right) :
      IsOperatorTree (.binary op left right)
  | unary
      {operand : Expr}
      (op : UnaryOp)
      (hoperand : IsOperatorTree operand) :
      IsOperatorTree (.unary op operand)

/-! ## Neighbouring operators -/

/-- No suffix follows. -/
def Kind.EndsOperand (kind : Kind) : Prop :=
  kind.startsSuffix false = false

/-- No operator follows that is at least as tight as asked for. -/
def Kind.EndsOperation (least : Nat) (kind : Kind) : Prop :=
  ∀ next, kind.binaryOp? = some next → next.precedence < least

theorem Kind.endsOperation_of_endsExpr
    {kind : Kind}
    (h : kind.EndsExpr false)
    {least : Nat} :
    kind.EndsOperation least := by
  intro next hnext
  rw [h.2] at hnext
  cases hnext

theorem BinaryOp.binaryOp?_mark (op : BinaryOp) :
    op.mark.kind.binaryOp? = some op := by
  cases op <;> rfl

theorem UnaryOp.unaryOp?_mark (op : UnaryOp) :
    op.mark.kind.unaryOp? = some op := by
  cases op <;> rfl

theorem BinaryOp.endsOperand_mark (op : BinaryOp) :
    op.mark.kind.EndsOperand := by
  cases op <;> rfl

namespace Expr

/-- The expression is no operation that is looser than asked for. -/
def Binds (least : Nat) : Expr → Prop
  | .binary op _ _ => least ≤ op.precedence
  | _ => True

/-- The expression ends before the kind: if that is an operator, the last operand of the expression
is not taken over. -/
def EndsBefore (value : Expr) (kind : Kind) : Prop :=
  kind.EndsOperand ∧
    match value with
    | .binary op _ _ => kind.EndsOperation op.rightPrecedence
    | .unary _ _ => kind.EndsOperation UnaryOp.precedence
    | _ => True

variable {op : BinaryOp}
variable {value : Expr}
variable {kind : Kind}

/-- Every expression can stand where all operators are taken. -/
theorem binds_or (value : Expr) :
    value.Binds BinaryOp.or.precedence := by
  cases value with
  | binary op left right =>
      show 1 ≤ op.precedence
      rw [BinaryOp.precedence_eq]
      omega
  | _ => trivial

/-- A kind that neither a suffix nor an operator starts with ends every expression. -/
theorem endsBefore_of_endsExpr
    (h : kind.EndsExpr false) :
    value.EndsBefore kind := by
  refine ⟨h.1, ?_⟩
  cases value with
  | binary op left right => exact Kind.endsOperation_of_endsExpr h
  | unary op operand => exact Kind.endsOperation_of_endsExpr h
  | _ => trivial

/-- A left operand without parentheses binds as tight as is asked for. -/
theorem binds_left
    (h : value.isGroupedLeft op = false)
    {least : Nat}
    (hleast : least ≤ op.precedence) :
    value.Binds least := by
  cases value with
  | binary inner left right =>
      simp only [isGroupedLeft, Bool.or_eq_false_iff, decide_eq_false_iff_not] at h
      rw [BinaryOp.precedence_eq] at hleast
      show least ≤ inner.precedence
      rw [BinaryOp.precedence_eq]
      omega
  | _ => trivial

/-- The operator in front of the right operand takes nothing away from the left one. -/
theorem endsBefore_left
    (h : value.isGroupedLeft op = false) :
    value.EndsBefore op.mark.kind := by
  refine ⟨op.endsOperand_mark, ?_⟩
  cases value with
  | binary inner left right =>
      intro next hnext
      obtain rfl : op = next := Option.some.inj (op.binaryOp?_mark.symm.trans hnext)
      simp only [isGroupedLeft, Bool.or_eq_false_iff, decide_eq_false_iff_not,
        Bool.and_eq_false_iff, beq_eq_false_iff_ne] at h
      obtain ⟨hrow, hgroups⟩ := h
      rw [BinaryOp.precedence_eq, BinaryOp.rightPrecedence_eq]
      by_cases hsame : inner.row = op.row
      · have hleft : inner.groupsRight = false := by
          rw [BinaryOp.groupsRight_congr hsame]
          exact hgroups.resolve_left (absurd hsame)
        rw [hleft, if_neg (by decide)]
        omega
      · split <;> omega
  | unary inner operand =>
      intro next hnext
      obtain rfl : op = next := Option.some.inj (op.binaryOp?_mark.symm.trans hnext)
      simp only [isGroupedLeft, decide_eq_false_iff_not] at h
      have hrow := op.row_ne inner
      rw [BinaryOp.precedence_eq, inner.precedence_eq]
      omega
  | _ => trivial

/-- A right operand without parentheses binds as tight as its operator asks for. -/
theorem binds_right
    (h : value.isGroupedRight op = false) :
    value.Binds op.rightPrecedence := by
  cases value with
  | binary inner left right =>
      simp only [isGroupedRight, Bool.or_eq_false_iff, decide_eq_false_iff_not,
        Bool.and_eq_false_iff, beq_eq_false_iff_ne, Bool.not_eq_false'] at h
      obtain ⟨hrow, hgroups⟩ := h
      show op.rightPrecedence ≤ inner.precedence
      rw [BinaryOp.precedence_eq, BinaryOp.rightPrecedence_eq]
      rcases hgroups with hne | hright
      · split <;> omega
      · rw [hright, if_pos rfl]
        omega
  | _ => trivial

/-- What does not take over the last operand of an operation takes nothing away from it either. -/
theorem endsBefore_right
    {left : Expr}
    (h : value.isGroupedRight op = false)
    (hends : (Expr.binary op left value).EndsBefore kind) :
    value.EndsBefore kind := by
  obtain ⟨hoperand, hoperation⟩ := hends
  refine ⟨hoperand, ?_⟩
  cases value with
  | binary inner left right =>
      intro next hnext
      have hnext := hoperation next hnext
      have hbinds : op.rightPrecedence ≤ inner.precedence := binds_right h
      have hinner : inner.precedence ≤ inner.rightPrecedence := by
        rw [BinaryOp.rightPrecedence]
        split <;> omega
      omega
  | unary inner operand =>
      -- an operator looser than the tightest one is looser than every unary operator
      intro next hnext
      have hnext := hoperation next hnext
      have hrow := next.row_ne inner
      have hop := op.row_ne inner
      have hlast : op.rightPrecedence ≤ UnaryOp.precedence + 1 := by cases op <;> decide
      rw [BinaryOp.precedence_eq] at hnext ⊢
      rw [inner.precedence_eq] at hlast ⊢
      omega
  | _ => trivial

/-- An operand of a unary operator without parentheses binds tighter than the operator. -/
theorem binds_only
    {op : UnaryOp}
    (h : value.isGroupedOnly op = false) :
    value.Binds UnaryOp.precedence := by
  cases value with
  | binary inner left right =>
      simp only [isGroupedOnly, decide_eq_false_iff_not] at h
      show UnaryOp.precedence ≤ inner.precedence
      rw [BinaryOp.precedence_eq, op.precedence_eq]
      omega
  | _ => trivial

/-- What ends a unary operation ends its operand. -/
theorem endsBefore_only
    {op : UnaryOp}
    (h : value.isGroupedOnly op = false)
    (hends : (Expr.unary op value).EndsBefore kind) :
    value.EndsBefore kind := by
  obtain ⟨hoperand, hoperation⟩ := hends
  refine ⟨hoperand, ?_⟩
  cases value with
  | binary inner left right =>
      intro next hnext
      have hnext := hoperation next hnext
      have hbinds : UnaryOp.precedence ≤ inner.precedence := binds_only h
      have hinner : inner.precedence ≤ inner.rightPrecedence := by
        rw [BinaryOp.rightPrecedence]
        split <;> omega
      omega
  | unary inner operand => exact hoperation
  | _ => trivial

end Expr

/-! ## Operands -/

namespace Grammar

open LuaView.Parser
open LuaView.Parser.Reads

variable {deeper : Descent}
variable {least : Nat}
variable {marks : List Mark}
variable {value : Expr}
variable {stop : Kind → Prop}

theorem reads_noSuffix (value : Expr) :
    (suffixStep deeper value : Parser (Step Expr)).Reads [] Kind.EndsOperand (.done value) := by
  refine peekKind_stop fun kind hkind => ?_
  cases kind with
  | symbol symbol => cases symbol <;> first | exact pure | cases hkind
  | string delimiter => cases hkind
  | _ => exact pure

theorem reads_name (id : Name) :
    (simple deeper : Parser Expr).Reads [.name id] Kind.EndsOperand (.name id) := by
  have hprimary : (primary deeper : Parser Expr).Reads [.name id] Kind.EndsOperand (.name id) :=
    peekKind (Parser.Reads.name id).map
  exact peekKind (hprimary.bind_last (loop_done (reads_noSuffix _)) fun _ hkind => hkind)

/-- A numeral that is not negative is read back. -/
theorem reads_integer
    {value : Int64}
    (h : 0 ≤ value.toInt) :
    (simple deeper : Parser Expr).Reads [⟨.number, (Number.int value).text⟩] Kind.EndsOperand
      (.int value) := by
  refine peekKind (advance nofun fun token htoken => ?_)
  have htext : token.text = (Number.int value).text := congrArg Mark.text htoken
  rw [htext, (Number.readsBack_int h).denotes]
  exact pure

/-- An expression in parentheses. -/
theorem reads_parentheses
    (h : (deeper.expression : Parser Expr).Reads marks (Kind.EndsExpr false) value) :
    (simple deeper : Parser Expr).Reads (Mark.group true marks) Kind.EndsOperand value := by
  have hprimary :
      (primary deeper : Parser Expr).Reads (Mark.group true marks) Kind.EndsOperand value := by
    refine peekKind (advance nofun fun _ _ => ?_)
    exact h.bind ((expectSymbol .rparen).bind_mark pure) (Kind.endsExpr_symbol rfl false)
  exact peekKind (hprimary.bind_last (loop_done (reads_noSuffix _)) fun _ hkind => hkind)

/-! ## First marks -/

/-- An expression begins with a token that begins expressions. -/
theorem sparseMarks_front
    (h : value.IsOperatorTree) :
    ∃ mark more, value.sparseMarks = mark :: more ∧ mark.kind.startsExpr = true := by
  induction h with
  | name id => exact ⟨_, _, rfl, rfl⟩
  | integer h => exact ⟨_, _, rfl, rfl⟩
  | @binary left right op _ _ ihleft _ =>
      obtain ⟨mark, more, hmarks, hmark⟩ := ihleft
      rw [Expr.sparseMarks]
      cases left.isGroupedLeft op with
      | true => exact ⟨_, _, rfl, rfl⟩
      | false => exact ⟨mark, _, by rw [Mark.group, hmarks]; rfl, hmark⟩
  | @unary operand op _ _ => exact ⟨_, _, rfl, by cases op <;> rfl⟩

theorem length_group_pos
    (h : value.IsOperatorTree)
    (grouped : Bool) :
    0 < (Mark.group grouped value.sparseMarks).length := by
  cases grouped with
  | true => exact Nat.zero_lt_succ _
  | false =>
      obtain ⟨mark, more, hmarks, -⟩ := sparseMarks_front h
      rw [Mark.group, hmarks]
      exact Nat.zero_lt_succ _

/-! ## Climbing -/

/-- The marks are read as the value, and then one more operator is looked for. -/
def Climbs
    (deeper : Descent)
    (least : Nat)
    (marks : List Mark)
    (stop : Kind → Prop)
    (value : Expr) : Prop :=
  ∀ words rest : List Token, words.map Token.mark = marks → stop (nextToken rest).kind →
    (expression deeper least : Parser Expr) (words ++ rest) =
      Parser.loop (operatorStep deeper least) value rest

namespace Climbs

/-- An operand alone is an expression of any precedence. -/
theorem of_operand
    (h : (operand deeper : Parser Expr).Reads marks stop value) :
    Climbs deeper least marks stop value :=
  fun _ _ hwords hrest => h.bind_eq hwords hrest

theorem mono
    {front : Kind → Prop}
    (h : Climbs deeper least marks front value)
    (himp : ∀ kind, stop kind → front kind) :
    Climbs deeper least marks stop value :=
  fun words rest hwords hrest => h words rest hwords (himp _ hrest)

/-- One more operator with its right operand. -/
theorem step
    {front : Kind → Prop}
    {more : List Mark}
    {next : Expr}
    (h : Climbs deeper least marks front value)
    (hstep : (operatorStep deeper least value : Parser (Step Expr)).Reads more stop (.again next))
    (hmore : more ≠ [])
    (hleads : Mark.Leads more stop front) :
    Climbs deeper least (marks ++ more) stop next := by
  intro words rest hwords hrest
  obtain ⟨first, second, rfl, hfirst, hsecond⟩ := List.map_eq_append_iff.mp hwords
  rw [List.append_assoc, h first _ hfirst (hleads.next hsecond hrest),
    loop_eq hstep hmore hsecond hrest]

/-- Nothing more is read if the next operator is looser than asked for. -/
theorem reads
    (h : Climbs deeper least marks stop value) :
    (expression deeper least : Parser Expr).Reads marks
      (fun kind => stop kind ∧ kind.EndsOperation least) value := by
  intro words rest hwords hrest
  have hdone : (operatorStep deeper least value : Parser (Step Expr)).Reads []
      (Kind.EndsOperation least) (.done value) := by
    refine peekKind_stop fun kind hkind => ?_
    cases hop : kind.binaryOp? with
    | none => exact pure
    | some next =>
        simp only [if_pos (hkind next hop)]
        exact pure
  rw [h words rest hwords hrest.1]
  exact loop_done hdone [] rest rfl hrest.2

end Climbs

/-- The expression is read within a budget of fewer levels than it has marks. -/
def IsClimbed (limit : Nat) (value : Expr) : Prop :=
  ∀ budget least, value.sparseMarks.length ≤ budget + 1 → value.Binds least →
    Climbs (phrase limit budget) least value.sparseMarks value.EndsBefore value

/-- Where the expression may be followed by the kind, whether or not it is grouped. -/
def EndsGroup (grouped : Bool) (value : Expr) (kind : Kind) : Prop :=
  kind.EndsOperand ∧ (grouped = false → value.EndsBefore kind)

/-- An operand is read back in parentheses, or without them if it binds tight enough. -/
theorem IsClimbed.group
    {limit budget : Nat}
    (h : IsClimbed limit value)
    {grouped : Bool}
    (hsize : (Mark.group grouped value.sparseMarks).length ≤ budget + 1)
    (hbinds : grouped = false → value.Binds least) :
    Climbs (phrase limit budget) least (Mark.group grouped value.sparseMarks)
      (EndsGroup grouped value) value := by
  cases grouped with
  | false => exact (h budget least hsize (hbinds rfl)).mono fun kind hkind => hkind.2 rfl
  | true =>
      simp only [Mark.group, if_true, List.length_cons, List.length_append] at hsize
      obtain ⟨budget, rfl⟩ : ∃ smaller, budget = smaller + 1 := ⟨budget - 1, by omega⟩
      have hinside := (h budget _ (by omega) value.binds_or).reads
      have hexpression : (Descent.expression (phrase limit (budget + 1)) : Parser Expr).Reads
          value.sparseMarks (Kind.EndsExpr false) value :=
        hinside.mono fun _ hkind =>
          ⟨Expr.endsBefore_of_endsExpr hkind, Kind.endsOperation_of_endsExpr hkind⟩
      exact .of_operand (peekKind ((reads_parentheses hexpression).mono fun _ hkind => hkind.1))

/-- An operand, which is one level deeper. -/
theorem IsClimbed.reads_operation
    {limit budget : Nat}
    (h : IsClimbed limit value)
    (htree : value.IsOperatorTree)
    {grouped : Bool}
    (hsize : (Mark.group grouped value.sparseMarks).length ≤ budget)
    (hbinds : grouped = false → value.Binds least) :
    (Descent.operation (phrase limit budget) least : Parser Expr).Reads
      (Mark.group grouped value.sparseMarks)
      (fun kind => EndsGroup grouped value kind ∧ kind.EndsOperation least) value := by
  have hpos := length_group_pos htree grouped
  obtain ⟨budget, rfl⟩ : ∃ smaller, budget = smaller + 1 := ⟨budget - 1, by omega⟩
  exact (h.group hsize hbinds).reads

/-- Every expression made of names, integers and operators is read back. -/
theorem isClimbed_of_isOperatorTree
    (limit : Nat)
    (h : value.IsOperatorTree) :
    IsClimbed limit value := by
  induction h with
  | name id =>
      intro budget least _ _
      exact .of_operand (peekKind ((reads_name id).mono fun _ hkind => hkind.1))
  | integer h =>
      intro budget least _ _
      exact .of_operand (peekKind ((reads_integer h).mono fun _ hkind => hkind.1))
  | @binary left right op hleft hright ihleft ihright =>
      intro budget least hsize hbinds
      rw [Expr.sparseMarks, List.length_append, List.length_cons] at hsize
      have hfirst : Climbs (phrase limit budget) least
          (Mark.group (left.isGroupedLeft op) left.sparseMarks)
            (EndsGroup (left.isGroupedLeft op) left) left :=
        ihleft.group (by omega) fun hgrouped => Expr.binds_left hgrouped hbinds
      have hsecond : (Descent.operation (phrase limit budget) op.rightPrecedence :
          Parser Expr).Reads (Mark.group (right.isGroupedRight op) right.sparseMarks)
            (fun kind => EndsGroup (right.isGroupedRight op) right kind ∧
              kind.EndsOperation op.rightPrecedence) right :=
        ihright.reads_operation hright (by omega) Expr.binds_right
      have hstep : (operatorStep (phrase limit budget) least left : Parser (Step Expr)).Reads
          (op.mark :: Mark.group (right.isGroupedRight op) right.sparseMarks)
          (Expr.binary op left right).EndsBefore (.again (.binary op left right)) := by
        refine peekKind ?_
        rw [op.binaryOp?_mark]
        simp only
        rw [if_neg (Nat.not_lt.mpr hbinds)]
        refine advance (by cases op <;> exact nofun) fun _ _ => ?_
        refine (hsecond.mono fun kind hkind => ⟨⟨hkind.1, fun hgrouped => ?_⟩, hkind.2⟩).map
        exact Expr.endsBefore_right hgrouped hkind
      exact hfirst.step hstep (List.cons_ne_nil _ _)
        ⟨op.endsOperand_mark, Expr.endsBefore_left⟩
  | @unary operand op htree ih =>
      intro budget least hsize _
      rw [Expr.sparseMarks, List.length_cons] at hsize
      have hoperand : (Descent.operation (phrase limit budget) UnaryOp.precedence :
          Parser Expr).Reads (Mark.group (operand.isGroupedOnly op) operand.sparseMarks)
            (fun kind => EndsGroup (operand.isGroupedOnly op) operand kind ∧
              kind.EndsOperation UnaryOp.precedence) operand :=
        ih.reads_operation htree (by omega) Expr.binds_only
      refine .of_operand (peekKind ?_)
      rw [op.unaryOp?_mark]
      refine advance (by cases op <;> exact nofun) fun _ _ => ?_
      refine (hoperand.mono fun kind hkind => ⟨⟨hkind.1, fun hgrouped => ?_⟩, hkind.2⟩).map
      exact Expr.endsBefore_only hgrouped hkind

/-! ## Programs -/

theorem sparseMarks_ne_eof
    (h : value.IsOperatorTree) :
    ∀ mark ∈ value.sparseMarks, mark.kind ≠ .eof := by
  have hgroup {grouped : Bool} {marks : List Mark} (h : ∀ mark ∈ marks, mark.kind ≠ .eof) :
      ∀ mark ∈ Mark.group grouped marks, mark.kind ≠ .eof := by
    cases grouped with
    | false => exact h
    | true =>
        refine List.forall_mem_cons.mpr ⟨nofun, List.forall_mem_append.mpr ⟨h, ?_⟩⟩
        exact List.forall_mem_singleton.mpr nofun
  induction h with
  | name id => exact List.forall_mem_singleton.mpr nofun
  | integer h => exact List.forall_mem_singleton.mpr nofun
  | binary op _ _ ihleft ihright =>
      refine List.forall_mem_append.mpr ⟨hgroup ihleft, ?_⟩
      exact List.forall_mem_cons.mpr ⟨by cases op <;> exact nofun, hgroup ihright⟩
  | unary op _ ih =>
      exact List.forall_mem_cons.mpr ⟨by cases op <;> exact nofun, hgroup ih⟩

/-- A returned value is read back up to the end of the source. -/
theorem reads_returnValue
    (h : value.IsOperatorTree)
    {limit budget : Nat}
    (hsize : value.sparseMarks.length ≤ budget) :
    (returnStatement (phrase limit budget) : Parser Stmt).Reads
      (.word .return_ :: value.sparseMarks) (· = .eof) (.returnValues [value]) := by
  have hexpression : (Descent.expression (phrase limit budget) : Parser Expr).Reads
      value.sparseMarks (Kind.EndsExpr false) value := by
    have hread : (Descent.operation (phrase limit budget) BinaryOp.or.precedence :
        Parser Expr).Reads (Mark.group false value.sparseMarks)
          (fun kind => EndsGroup false value kind ∧
            kind.EndsOperation BinaryOp.or.precedence) value :=
      (isClimbed_of_isOperatorTree limit h).reads_operation h hsize fun _ => value.binds_or
    exact hread.mono fun kind hkind =>
      ⟨⟨hkind.1, fun _ => Expr.endsBefore_of_endsExpr hkind⟩,
        Kind.endsOperation_of_endsExpr hkind⟩
  have hlist : (Descent.expressionList (phrase limit budget) : Parser (List Expr)).Reads
      value.sparseMarks (· = .eof) [value] := by
    have hitems : ∀ other ∈ [value],
        (Descent.expression (phrase limit budget) : Parser Expr).Reads
          other.sparseMarks (Kind.EndsExpr false) other :=
      List.forall_mem_singleton.mpr hexpression
    refine (commaSeparated hitems ⟨rfl, rfl⟩).mono ?_
    rintro _ rfl
    exact ⟨⟨rfl, rfl⟩, nofun⟩
  have hvalues : (returnedValues (phrase limit budget) : Parser (List Expr)).Reads
      value.sparseMarks (· = .eof) [value] := by
    obtain ⟨mark, more, hmarks, hmark⟩ := sparseMarks_front h
    rw [hmarks] at hlist ⊢
    refine peekKind ?_
    rw [PlainGrammar.not_endsBlock_of_startsExpr hmark]
    exact hlist
  refine (Parser.Reads.expectWord .return_).bind_mark (hvalues.bind_last ?_ fun _ hkind => hkind)
  refine bind_nil (acceptSymbol_other .semicolon) pure ?_
  rintro _ rfl
  exact nofun

/-- A program that returns an expression is read back. -/
theorem chunk_of_return
    (h : value.IsOperatorTree)
    {limit : Nat}
    {words : List Token}
    (hwords : words.map Token.mark = .word .return_ :: value.sparseMarks)
    (hlimit : words.length ≤ limit)
    (last : Position) :
    chunk limit (words ++ [Token.eof last]) =
      .ok ⟨[.returnValues [value]]⟩ [Token.eof last] := by
  have hsize : value.sparseMarks.length + 1 ≤ limit := by
    rw [← List.length_cons, ← hwords, List.length_map]
    exact hlimit
  obtain ⟨budget, rfl⟩ : ∃ smaller, limit = smaller + 1 := ⟨limit - 1, by omega⟩
  have hblock : (Descent.block (phrase (budget + 1) (budget + 1)) : Parser Block).Reads
      (.word .return_ :: value.sparseMarks) (· = .eof) [.returnValues [value]] := by
    have hreturn : (returnStatement (phrase (budget + 1) budget) : Parser Stmt).Reads
        (.word .return_ :: value.sparseMarks) (· = .eof) (.returnValues [value]) :=
      reads_returnValue h (by omega)
    have hstep : (blockStep (phrase (budget + 1) budget) [] : Parser (Step Block)).Reads
        (.word .return_ :: value.sparseMarks) (· = .eof) (.done [.returnValues [value]]) :=
      peekKind hreturn.map
    exact loop_done hstep
  have hprogram : (program (phrase (budget + 1) (budget + 1)) : Parser Chunk).Reads
      (.word .return_ :: value.sparseMarks) (· = .eof) ⟨[.returnValues [value]]⟩ := by
    refine hblock.bind_last (peekKind_stop fun kind hkind => ?_) fun _ hkind => hkind
    rw [if_pos hkind]
    exact pure
  exact hprogram words [Token.eof last] hwords rfl

end Grammar

/-- An operation that is written with as few parentheses as the table of operators allows for is
read back, within as many levels as there are tokens. -/
theorem parse_return_sparseMarks
    {value : Expr}
    (h : value.IsOperatorTree)
    {words : List Token}
    (hwords : words.map Token.mark = .word .return_ :: value.sparseMarks)
    {limit : Nat}
    (hlimit : words.length ≤ limit) :
    (Session.ofTokens words limit).parse.1 = .ok ⟨[.returnValues [value]]⟩ ∧
      ∀ last, (Session.ofTokens (words ++ [Token.eof last]) limit).parse.1 =
        .ok ⟨[.returnValues [value]]⟩ := by
  have hclosed : ∀ last, (Session.mk (words ++ [Token.eof last]) limit).parse.1 =
      .ok ⟨[.returnValues [value]]⟩ := by
    intro last
    rw [Session.parse, Grammar.chunk_of_return h hwords hlimit last]
  have hopen : ∀ token ∈ words, token.kind ≠ .eof := by
    intro token htoken
    have hmark : token.mark ∈ Mark.word .return_ :: value.sparseMarks :=
      hwords ▸ List.mem_map_of_mem htoken
    rcases List.mem_cons.mp hmark with hmark | hmark
    · have hkind : token.kind = .keyword .return_ := congrArg Mark.kind hmark
      rw [hkind]
      exact nofun
    · exact Grammar.sparseMarks_ne_eof h _ hmark
  refine ⟨?_, fun last => ?_⟩
  · obtain ⟨last, htokens⟩ := Session.ofTokens_open hopen limit
    rw [htokens]
    exact hclosed last
  · rw [Session.ofTokens_closed]
    exact hclosed last

/-- A product whose first factor is a power.  Only the base of the power has to be grouped. -/
def signedPower : Expr :=
  .binary .mul
    (.binary .pow (.unary .neg (.name "a")) (.binary .pow (.name "b") (.unary .neg (.name "c"))))
    (.int 2)

/-- The tokens of `return (-a) ^ b ^ -c * 2`. -/
def signedPowerTokens : List Token :=
  [⟨.keyword .return_, "return", {}⟩, ⟨.symbol .lparen, "(", {}⟩, ⟨.symbol .minus, "-", {}⟩,
    ⟨.name, "a", {}⟩, ⟨.symbol .rparen, ")", {}⟩, ⟨.symbol .caret, "^", {}⟩, ⟨.name, "b", {}⟩,
    ⟨.symbol .caret, "^", {}⟩, ⟨.symbol .minus, "-", {}⟩, ⟨.name, "c", {}⟩,
    ⟨.symbol .star, "*", {}⟩, ⟨.number, "2", {}⟩]

/-- A minus sign in front of a power and behind its sign. -/
theorem parse_return_sparseMarks_signedPower :
    signedPower.IsOperatorTree ∧
      signedPowerTokens.map Token.mark = .word .return_ :: signedPower.sparseMarks ∧
      signedPowerTokens.length ≤ 12 ∧
      (Session.ofTokens signedPowerTokens 12).parse.1 = .ok ⟨[.returnValues [signedPower]]⟩ := by
  have htree : signedPower.IsOperatorTree :=
    .binary .mul (.binary .pow (.unary .neg (.name "a"))
      (.binary .pow (.name "b") (.unary .neg (.name "c")))) (.integer (by decide))
  have hwords : signedPowerTokens.map Token.mark = .word .return_ :: signedPower.sparseMarks := by
    decide
  have hlimit : signedPowerTokens.length ≤ 12 := by decide
  exact ⟨htree, hwords, hlimit, (parse_return_sparseMarks htree hwords hlimit).1⟩

end LuaView
