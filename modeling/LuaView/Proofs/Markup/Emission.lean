import LuaView.Proofs.Markup.Writing
import LuaView.Proofs.Program.Marks

/-!
# The text of a program spells out its marks

Every expression is written as its marks, in front of any character that may stand behind an
expression; every statement is lines, with a line break in front of each, that are written as its
marks.  The proof follows the tree: what a construct spells out is put together from what its parts
spell out, and the rest is that no two neighbours run into each other.
-/

namespace LuaView

open Plain (Skeleton expr exprs parenthesized entry entries behind stmtLines blockLines bodyLines
  clauseLines elseLines)
open Plain.Skeleton (ofText ofChars)

/-! ## First characters -/

/-- The character may be the first of an expression. -/
def opening (operation long : Bool) (c : Char) : Bool :=
  c != '=' && (operation || (c != '-' && c != '#')) && (long || c != '[')

theorem opening_of_isWord
    {c : Char}
    (h : CharClass.isWord c = true)
    (operation long : Bool) :
    opening operation long c = true := by
  have hequals : c ≠ '=' := Lexeme.ne_of_isWord h (by decide)
  have hdash : c ≠ '-' := Lexeme.ne_of_isWord h (by decide)
  have hhash : c ≠ '#' := Lexeme.ne_of_isWord h (by decide)
  have hbracket : c ≠ '[' := Lexeme.ne_of_isWord h (by decide)
  simp [opening, hequals, hdash, hhash, hbracket]

/-- What opens a text in a narrow place opens it in a wider one. -/
theorem opening_mono
    {operation long wider longer : Bool}
    (hoperation : operation = true → wider = true)
    (hlong : long = true → longer = true)
    {c : Char}
    (h : opening operation long c = true) :
    opening wider longer c = true := by
  simp only [opening, Bool.and_eq_true, Bool.or_eq_true] at h ⊢
  exact ⟨⟨h.1.1, h.1.2.imp_left hoperation⟩, h.2.imp_left hlong⟩

theorem opens_identifier
    {text : String}
    (h : isIdentifier text.toList = true)
    {allowed : Char → Bool}
    (himp : ∀ c, CharClass.isNameStart c = true → allowed c = true) :
    Opens (ofText text) allowed := by
  unfold ofText
  cases htext : text.toList with
  | nil =>
      rw [htext] at h
      cases h
  | cons first cs =>
      rw [htext] at h
      simp only [isIdentifier, Bool.and_eq_true] at h
      exact .char (himp first h.1) _

/-- A keyword opens with a letter. -/
theorem opens_word (keyword : Keyword) (operation long : Bool) :
    Opens (ofText keyword.text) (opening operation long) :=
  opens_identifier (Mark.isIdentifier_keyword keyword) fun _ hc =>
    opening_of_isWord (Lexeme.isWord_of_isNameStart hc) operation long

/-- A name opens with a letter or an underscore. -/
theorem opens_name
    {id : Name}
    (hid : (Mark.name id).Valid)
    {allowed : Char → Bool}
    (himp : ∀ c, CharClass.isNameStart c = true → allowed c = true) :
    Opens (ofText id) allowed :=
  opens_identifier (show IsName id.toList from hid).1 himp

/-- Three dots open with a point. -/
theorem opens_ellipsis : Opens (ofText "...") (opening false false) :=
  ⟨'.', ofText "..", by decide, by decide⟩

/-- A unary operator opens with its sign. -/
theorem opens_operator (op : UnaryOp) : Opens (ofText op.symbol) (opening true false) := by
  cases op with
  | neg => exact ⟨'-', [], by decide, by decide⟩
  | bitNot => exact ⟨'~', [], by decide, by decide⟩
  | not => exact ⟨'n', ofText "ot", by decide, by decide⟩
  | len => exact ⟨'#', [], by decide, by decide⟩

/-- A string opens with its quotation mark or its bracket. -/
theorem opens_quote (text : String) (delimiter : Delimiter) :
    Opens (ofText (delimiter.quote text))
      (opening false (Expr.opensLong (.string text delimiter))) := by
  cases delimiter with
  | single =>
      have hquote : (Delimiter.single.quote text).toList = '\'' :: (text.toList ++ ['\'']) := by
        simp [Delimiter.quote]
      rw [ofText, hquote]
      exact .char (by simp [opening]) _
  | double =>
      have hquote : (Delimiter.double.quote text).toList = '"' :: (text.toList ++ ['"']) := by
        simp [Delimiter.quote]
      rw [ofText, hquote]
      exact .char (by simp [opening]) _
  | long =>
      rw [ofText, Delimiter.quote, String.toList_ofList, LongBracket.quote, LongBracket.opening]
      exact .char (by simp [opening, Expr.opensLong]) _

/-- The first character of an expression. -/
theorem opens_expr
    {wide : Bool}
    (depth : Nat) :
    ∀ value : Expr, value.Obeys (.readable wide) →
      Opens (expr depth value) (opening value.isOperation value.opensLong)
  | .nil, _ => opens_word .nil_ _ _
  | .boolean true, _ => opens_word .true_ _ _
  | .boolean false, _ => opens_word .false_ _ _
  | .varargs, _ => opens_ellipsis
  | .number value, h => by
      obtain ⟨hvalue, -⟩ : value.ReadsBack ∧ _ := h
      have htext : expr depth (.number value) = ofChars value.text.toList := rfl
      rw [htext]
      cases hchars : value.text.toList with
      | nil =>
          have hdenotes := hvalue.denotes
          rw [hchars] at hdenotes
          cases hdenotes
      | cons first cs =>
          have hfirst : first.isDigit = true := hvalue.digit first (by rw [hchars]; rfl)
          exact .char (opening_of_isWord
            (CharClass.isWord_of_isHexDigit (CharClass.isHexDigit_of_isDigit hfirst)) _ _) _
  | .string text delimiter, _ => opens_quote text delimiter
  | .name id, h => opens_name h fun _ hc =>
      opening_of_isWord (Lexeme.isWord_of_isNameStart hc) _ _
  | .table [], _ => by
      rw [Plain.expr_table_nil]
      exact .char (by decide) _
  | .table (field :: fields), _ => by
      rw [Plain.expr_table_cons]
      exact .char (by simp [opening]) _
  | .function parameters body, _ => by
      rw [Plain.expr_function]
      exact (opens_word .function_ _ _).append _
  | .index value key .dot, h => by
      obtain ⟨⟨hhead, _⟩, hvalue, _⟩ := h
      have hopens := opens_expr depth value hvalue
      rw [Expr.isOperation_of_isHead hhead] at hopens
      rw [Plain.expr_index_dot]
      exact hopens.append _
  | .index value key .bracket, h => by
      obtain ⟨⟨hhead, _⟩, hvalue, _⟩ := h
      have hopens := opens_expr depth value hvalue
      rw [Expr.isOperation_of_isHead hhead] at hopens
      rw [Plain.expr_index_bracket]
      exact hopens.append _
  | .call callee arguments, h => by
      obtain ⟨hhead, hcallee, _⟩ := h
      have hopens := opens_expr depth callee hcallee
      rw [Expr.isOperation_of_isHead hhead] at hopens
      rw [Plain.expr_call]
      exact hopens.append _
  | .invoke receiver method arguments, h => by
      obtain ⟨⟨hhead, _⟩, hreceiver, _⟩ := h
      have hopens := opens_expr depth receiver hreceiver
      rw [Expr.isOperation_of_isHead hhead] at hopens
      rw [Plain.expr_invoke]
      exact hopens.append _
  | .binary op left right, h => by
      obtain ⟨_, hleft, _⟩ := h
      rw [Plain.expr_binary]
      refine Opens.append ?_ _
      cases hoperation : left.isOperation with
      | true => exact .char (by simp [opening]) _
      | false =>
          have hopens := opens_expr depth left hleft
          rw [hoperation] at hopens
          exact hopens.mono fun c =>
            opening_mono (fun _ => rfl) fun hlong => by simp [Expr.opensLong, hoperation, hlong]
  | .unary op operand, _ => by
      rw [Plain.expr_unary]
      refine Opens.append ?_ _
      exact opens_operator op

/-! ## Operators -/

theorem BinaryOp.spelling_mark (op : BinaryOp) : op.mark.spelling = op.symbol.toList := by
  cases op <;> rfl

/-- Every binary operator can be written in a plain text. -/
theorem BinaryOp.admitted_mark (plain : Bool) (op : BinaryOp) : op.mark.Admitted plain := by
  cases op <;> exact ⟨.inl rfl, nofun⟩

theorem BinaryOp.allows_space (op : BinaryOp) : op.mark.allows ' ' = true := by
  cases op <;> decide

theorem UnaryOp.spelling_mark (op : UnaryOp) : op.mark.spelling = op.symbol.toList := by
  cases op <;> rfl

/-- Every unary operator can be written in a plain text. -/
theorem UnaryOp.admitted_mark (plain : Bool) (op : UnaryOp) : op.mark.Admitted plain := by
  cases op <;> exact ⟨.inl rfl, nofun⟩

/-- A unary operator may stand right before its operand, which is not a bare operation. -/
theorem UnaryOp.allows_operand
    {op : UnaryOp}
    (hop : op.isWord = false)
    {long : Bool}
    {c : Char}
    (hc : opening false long c = true) :
    op.mark.allows c = true := by
  simp only [opening, Bool.false_or, Bool.and_eq_true, bne_iff_ne, ne_eq] at hc
  obtain ⟨⟨hequals, hdash, -⟩, -⟩ := hc
  cases op with
  | neg => simp [mark, Mark.sign, Mark.allows, Mark.signAllows, hdash]
  | bitNot => simp [mark, Mark.sign, Mark.allows, Mark.signAllows, hequals]
  | not => cases hop
  | len => rfl

/-! ## Parts of expressions -/

/-- The character may stand behind an expression; a point only behind some of them. -/
def follows (dotted : Bool) (c : Char) : Bool :=
  [' ', '\n', ')', ']', ',', ':', '(', '['].contains c || (dotted && c == '.')

/-- What follows in a narrow place follows in a wider one. -/
theorem follows_mono
    {dotted wider : Bool}
    (h : dotted = true → wider = true)
    {c : Char}
    (hc : follows dotted c = true) :
    follows wider c = true := by
  simp only [follows, Bool.or_eq_true, Bool.and_eq_true] at hc ⊢
  exact hc.imp_right (And.imp_left h)

theorem follows_of_false
    {dotted : Bool}
    {c : Char}
    (h : follows false c = true) :
    follows dotted c = true :=
  follows_mono (fun hfalse => absurd hfalse (by decide)) h

/-- What follows an expression ends a word. -/
theorem endsWord_of_follows
    {dotted : Bool}
    {c : Char}
    (h : follows dotted c = true) :
    endsWord c = true := by
  have htrue := follows_mono (fun _ => rfl : dotted = true → true = true) h
  simp only [follows, List.contains_cons, List.contains_nil, Bool.or_eq_true, Bool.and_eq_true,
    beq_iff_eq] at htrue
  rcases htrue with (rfl | rfl | rfl | rfl | rfl | rfl | rfl | rfl | h) | ⟨-, rfl⟩
  all_goals first | decide | cases h

theorem follows_of_endsLine
    {dotted : Bool}
    {c : Char}
    (h : endsLine c = true) :
    follows dotted c = true := by
  obtain rfl : c = '\n' := by simpa [endsLine] using h
  cases dotted <;> decide

section Parts

variable {wide dotted : Bool}
variable {skeleton rest left right : Skeleton}
variable {marks more leftMarks rightMarks : List Mark}
variable {follow : Char → Bool}
variable {depth : Nat}

/-- A single mark is written as its spelling. -/
theorem Writes.atom
    (mark : Mark)
    (hmark : mark.Admitted wide)
    (himp : ∀ c, follows dotted c = true → mark.admits wide c = true) :
    Writes wide (ofChars mark.spelling) [mark] (follows dotted) :=
  (Writes.single mark hmark).mono himp

/-- A group is written with its parentheses. -/
theorem Writes.group
    (grouped : Bool)
    (h : Writes wide skeleton marks (follows dotted)) :
    Writes wide (Skeleton.group grouped skeleton) (Mark.group grouped marks) (follows dotted) := by
  cases grouped with
  | false => exact h
  | true =>
      exact .lparen (h.append (.rparen .nil) (.char (by cases dotted <;> decide) _))

/-- Operands are written with spaces around their operator. -/
theorem Writes.binary
    (op : BinaryOp)
    (hleft : Writes wide left leftMarks (follows dotted))
    (hright : Writes wide right rightMarks follow) :
    Writes wide (left ++ .char ' ' :: (ofText op.symbol ++ .char ' ' :: right))
      (leftMarks ++ op.mark :: rightMarks) follow := by
  have hop := Writes.cons op.mark (op.admitted_mark wide) hright.space
    (.char (Mark.admits_of_allows op.allows_space wide) _)
  rw [op.spelling_mark] at hop
  exact hleft.append hop.space (.char (by cases dotted <;> decide) _)

/-- An operand is written behind its operator, with a space behind a word. -/
theorem Writes.unary
    (op : UnaryOp)
    {operation long : Bool}
    (hright : Writes wide right rightMarks (follows dotted))
    (hopens : Opens right (opening operation long)) :
    Writes wide (ofText op.symbol ++ ((if op.isWord then [.char ' '] else []) ++
        Skeleton.group operation right))
      (op.mark :: Mark.group operation rightMarks) (follows dotted) := by
  have hgroup := hright.group operation
  have hfront : Opens (Skeleton.group operation right) (opening false long) := by
    cases operation with
    | false => exact hopens
    | true => exact .char (by simp [opening]) _
  have hmark := op.admitted_mark wide
  rw [ofText, ← op.spelling_mark]
  cases hword : op.isWord with
  | false =>
      exact .cons op.mark hmark hgroup (hfront.mono fun c hc =>
        Mark.admits_of_allows (UnaryOp.allows_operand hword hc) wide)
  | true =>
      have hspace : op.mark.allows ' ' = true := by
        cases op with
        | not => decide
        | _ => cases hword
      exact .cons op.mark hmark hgroup.space (.char (Mark.admits_of_allows hspace wide) _)

/-- Expressions with commas between them. -/
theorem Writes.exprs_cons
    {value : Expr}
    {values : List Expr}
    {others : List (List Mark)}
    (hothers : others = [] ↔ values = [])
    (hvalue : Writes wide (expr depth value) marks (follows dotted))
    (hvalues : Writes wide (exprs depth values) (Mark.commas others) (follows false)) :
    Writes wide (exprs depth (value :: values)) (Mark.commas (marks :: others))
      (follows false) := by
  cases values with
  | nil =>
      obtain rfl := hothers.mpr rfl
      exact hvalue.mono fun _ => follows_of_false
  | cons next values =>
      cases others with
      | nil => cases hothers.mp rfl
      | cons nextMarks others =>
          rw [Plain.exprs_more]
          exact hvalue.append (.comma hvalues.space) (.char (by cases dotted <;> decide) _)

/-- Expressions in parentheses are written in front of what follows them. -/
theorem Writes.parenthesized
    {values : List Expr}
    (hvalues : Writes wide (exprs depth values) marks (follows false))
    (hrest : Writes wide rest more follow) :
    Writes wide (parenthesized depth values ++ rest)
      (.sign .lparen :: (marks ++ .sign .rparen :: more)) follow := by
  rw [Plain.parenthesized, List.cons_append, List.append_assoc]
  exact .lparen (hvalues.append (.rparen hrest) (.char (by decide) _))

theorem Writes.arguments
    {values : List Expr}
    {others : List (List Mark)}
    (hvalues : Writes wide (exprs depth values) (Mark.commas others) (follows false)) :
    Writes wide (Plain.parenthesized depth values) (Mark.arguments others) follow := by
  have h := Writes.parenthesized hvalues (@Writes.nil wide follow)
  rw [List.append_nil] at h
  exact h

/-- A name behind a point. -/
theorem Writes.dot
    {id : Name}
    (hid : (Mark.name id).Valid) :
    Writes wide (.char '.' :: ofText id) [.sign .dot, .name id] (follows dotted) := by
  have hfront : Opens (ofText id) (Mark.signAllows .dot) := opens_name hid fun c hc => by
    have hpoint : c ≠ '.' := Lexeme.ne_of_isWord (Lexeme.isWord_of_isNameStart hc) (by decide)
    simp [Mark.signAllows, hpoint, Lexeme.not_isDigit_of_isNameStart hc]
  exact .sign (by decide) ((Writes.last_name hid).mono fun _ => endsWord_of_follows) hfront

/-- A name behind a colon. -/
theorem Writes.colon
    {id : Name}
    (hid : (Mark.name id).Valid) :
    Writes wide (.char ':' :: ofText id) [.sign .colon, .name id] endsWord := by
  have hfront : Opens (ofText id) (Mark.signAllows .colon) := opens_name hid fun c hc => by
    have hcolon : c ≠ ':' := Lexeme.ne_of_isWord (Lexeme.isWord_of_isNameStart hc) (by decide)
    simp [Mark.signAllows, hcolon]
  exact .sign (by decide) (.last_name hid) hfront

/-- A key in brackets; it does not start with a bracket. -/
theorem Writes.bracketed
    {key : Expr}
    (hkey : key.Obeys (.readable wide))
    (hlong : key.opensLong = false)
    (h : Writes wide (expr depth key) marks (follows dotted))
    (hrest : Writes wide rest more follow) :
    Writes wide (.char '[' :: (expr depth key ++ .char ']' :: rest))
      (.sign .lbracket :: (marks ++ .sign .rbracket :: more)) follow := by
  have hfront : Opens (expr depth key) (Mark.signAllows .lbracket) :=
    (opens_expr depth key hkey).mono fun c hc => by
      rw [hlong] at hc
      simp only [opening, Bool.and_eq_true, Bool.false_or] at hc
      simp [Mark.signAllows, bne_iff_ne.mp hc.1.1, bne_iff_ne.mp hc.2]
  exact .sign (by decide) (h.append hrest.rbracket (.char (by cases dotted <;> decide) _))
    (hfront.append _)

/-- A table is written with its braces around its entries. -/
theorem Writes.table
    {field : Field}
    {fields : List Field}
    (h : Writes wide (entries (depth + 1) (field :: fields)) marks fun _ => true) :
    Writes wide (expr depth (.table (field :: fields)))
      (.sign .lbrace :: (marks ++ [.sign .rbrace])) follow := by
  have hclose : Writes wide [.char '\n', .indent depth, .char '\x7d'] [.sign .rbrace] follow :=
    ((Writes.sign_free (by decide) (fun _ => rfl) .nil).indent depth).blank (by decide)
  rw [Plain.expr_table_cons]
  exact .sign_free (by decide) (fun _ => rfl) (h.append hclose (.char rfl _))

/-! ## Parts of statements -/

/-- Two sequences of lines. -/
theorem Writes.lines
    {first second : List Skeleton}
    (hfirst : Writes wide (behind first) marks endsLine)
    (hsecond : Writes wide (behind second) more endsLine) :
    Writes wide (behind (first ++ second)) (marks ++ more) endsLine := by
  rw [Plain.behind_append]
  cases second with
  | nil =>
      intro width text others htext hspelled
      rw [Plain.behind_nil, List.append_nil, List.append_assoc]
      exact hfirst width text _ htext (hsecond width text others htext hspelled)
  | cons line second => exact hfirst.append hsecond (.char (by decide) _)

/-- A line of its own is written behind a line break. -/
theorem Writes.one_line
    (h : Writes wide skeleton marks endsLine) :
    Writes wide (behind [.indent depth :: skeleton]) marks endsLine := by
  rw [Plain.behind_cons, Plain.behind_nil, List.append_nil]
  exact (h.indent depth).blank (by decide)

/-- A line in front of others. -/
theorem Writes.line
    {others : List Skeleton}
    (h : Writes wide skeleton marks endsLine)
    (hothers : Writes wide (behind others) more endsLine) :
    Writes wide (behind ((.indent depth :: skeleton) :: others)) (marks ++ more) endsLine :=
  h.one_line.lines hothers

/-- The lines of a body and the line that closes it. -/
theorem Writes.body
    {body : Block}
    (h : Writes wide (behind (blockLines (depth + 1) body)) marks endsLine) :
    Writes wide (behind (bodyLines depth body)) (marks ++ [.word .end_]) endsWord := by
  have hend : Writes wide (behind [.indent depth :: ofText "end"]) [.word .end_] endsWord := by
    rw [Plain.behind_cons, Plain.behind_nil, List.append_nil]
    exact ((Writes.last_word .end_).indent depth).blank (by decide)
  rw [Plain.bodyLines, Plain.behind_append]
  exact h.append hend (.char (by decide) _)

/-- A line that opens a body, the body, and the line that closes it. -/
theorem Writes.compound
    {body : Block}
    (h : Writes wide skeleton marks endsWord)
    (hbody : Writes wide (behind (blockLines (depth + 1) body)) more endsLine) :
    Writes wide (behind ((.indent depth :: skeleton) :: bodyLines depth body))
      (marks ++ (more ++ [.word .end_])) endsLine :=
  (h.mono fun _ => endsWord_of_endsLine).line (hbody.body.mono fun _ => endsWord_of_endsLine)

/-- An expression between two words. -/
theorem Writes.between
    (first last : Keyword)
    {value : Expr}
    (h : Writes wide (expr depth value) marks (follows dotted)) :
    Writes wide
      (ofText first.text ++ .char ' ' :: (expr depth value ++ .char ' ' :: ofText last.text))
      (.word first :: (marks ++ [.word last])) endsWord :=
  .word first (h.append (Writes.last_word last).space (.char (by cases dotted <;> decide) _)).space
    (.char (by decide) _)

/-- A condition and what depends on it. -/
theorem Writes.clause
    (first : Keyword)
    {test : Expr}
    {body : Block}
    (htest : Writes wide (expr depth test) marks (follows dotted))
    (hbody : Writes wide (behind (blockLines (depth + 1) body)) more endsLine) :
    Writes wide (behind (clauseLines depth first.text test body))
      (.word first :: (marks ++ .word .then_ :: more)) endsLine := by
  have hhead := (htest.between first .then_).mono fun _ => endsWord_of_endsLine
  have hmarks : Mark.word first :: (marks ++ .word .then_ :: more) =
      (Mark.word first :: (marks ++ [.word .then_])) ++ more := by
    rw [List.cons_append, List.append_assoc]
    rfl
  rw [hmarks]
  exact hhead.line hbody

/-- The line that closes a chain of conditions. -/
theorem Writes.end_line (depth : Nat) :
    Writes wide (behind [.indent depth :: ofText "end"]) [.word .end_] endsLine :=
  .one_line ((Writes.last_word .end_).mono fun _ => endsWord_of_endsLine)

/-- The step of a loop, if it is written, and the word that opens the body. -/
theorem Writes.loop_step
    {step : Expr}
    (h : Writes wide (expr depth step) marks (follows false))
    (default : Bool) :
    Writes wide
      ((if default then [] else .char ',' :: .char ' ' :: expr depth step) ++
        .char ' ' :: ofText Keyword.do_.text)
      ((if default then [] else .sign .comma :: marks) ++ [.word .do_]) endsWord := by
  cases default with
  | true => exact (Writes.last_word .do_).space
  | false =>
      exact .comma (h.append (Writes.last_word .do_).space (.char (by decide) _)).space

theorem opens_loop_step (step : Expr) (default : Bool) :
    Opens ((if default then [] else .char ',' :: .char ' ' :: expr depth step) ++
      .char ' ' :: rest) (follows false) := by
  cases default with
  | true => exact .char (by decide) _
  | false => exact .char (by decide) _

/-- The parameters and the body of a function behind its name. -/
theorem Writes.function
    (h : Writes wide skeleton marks (follows dotted))
    {parameters : List Expr}
    {body : Block}
    {others : List (List Mark)}
    (hparameters : Writes wide (exprs depth parameters) (Mark.commas others) (follows false))
    (hbody : Writes wide (behind (blockLines (depth + 1) body)) more endsLine) :
    Writes wide
      (behind ((.indent depth :: (skeleton ++ Plain.parenthesized depth parameters)) ::
        bodyLines depth body))
      (marks ++ Mark.functionBody others more) endsLine := by
  have hhead : Writes wide (skeleton ++ Plain.parenthesized depth parameters)
      (marks ++ Mark.arguments others) endsWord :=
    h.append (.arguments hparameters) (.char (by cases dotted <;> decide) _)
  have hwhole := hhead.compound hbody
  rw [Mark.arguments, List.append_assoc, List.cons_append, List.append_assoc] at hwhole
  exact hwhole

end Parts

/-! ## Programs -/

/-- What follows an expression may stand behind a numeral, unless it is a point. -/
theorem Mark.admits_numeral
    {wide dotted : Bool}
    (hdotted : dotted = true → wide = true)
    (text : String)
    {c : Char}
    (hc : follows dotted c = true) :
    Mark.admits wide ⟨.number, text⟩ c = true := by
  have hword : CharClass.isWord c = false := by
    simpa [endsWord] using endsWord_of_follows hc
  by_cases hpoint : c = '.'
  · obtain rfl := hpoint
    have hwide : wide = true := hdotted (by simpa [follows] using hc)
    simp [admits, hwide]
  · simp [admits, allows, endsNumeral, hword, hpoint]

theorem Expr.marksOfEach_eq_nil (values : List Expr) :
    Expr.marksOfEach values = [] ↔ values = [] := by
  cases values with
  | nil => exact iff_of_true rfl rfl
  | cons value values => exact iff_of_false nofun nofun

/-- Outside the wide rule only names, accesses and calls take suffixes. -/
theorem Expr.isHead_cases
    {wide : Bool}
    {value : Expr}
    (h : value.isHead wide = true) :
    wide = true ∨ value.isHead false = true := by
  cases wide with
  | true => exact .inl rfl
  | false => exact .inr h

/-- Names with commas between them. -/
theorem writes_names
    {wide : Bool}
    (depth : Nat)
    {names : List Name}
    (hnames : ∀ id ∈ names, (Mark.name id).Valid) :
    Writes wide (exprs depth (names.map .name)) (Mark.commas (names.map fun id => [.name id]))
      (follows false) := by
  induction names with
  | nil => exact .nil
  | cons id names ih =>
      have hid : Writes wide (expr depth (.name id)) [.name id] (follows false) :=
        (Writes.last_name (hnames id List.mem_cons_self)).mono fun _ => endsWord_of_follows
      refine hid.exprs_cons ?_ (ih fun other hother => hnames other (List.mem_cons_of_mem _ hother))
      rw [List.map_eq_nil_iff, List.map_eq_nil_iff]

variable {wide : Bool}

mutual

/-- The text of a readable expression spells its marks, whatever may follow it there. -/
theorem writes_expr :
    ∀ value : Expr, value.Obeys (.readable wide) → ∀ (depth : Nat) (dotted : Bool),
      (dotted = true → wide = true ∨ value.isHead false = true) →
      Writes wide (expr depth value) value.marks (follows dotted)
  | .nil, _, _, _, _ => (Writes.last_word .nil_).mono fun _ => endsWord_of_follows
  | .boolean true, _, _, _, _ => (Writes.last_word .true_).mono fun _ => endsWord_of_follows
  | .boolean false, _, _, _, _ => (Writes.last_word .false_).mono fun _ => endsWord_of_follows
  | .varargs, _, _, _, _ =>
      .atom (.sign .ellipsis) (Mark.admitted_sign wide .ellipsis) fun _ _ => rfl
  | .number value, h, _, dotted, hdotted => by
      obtain ⟨hvalue, hdigits⟩ : value.ReadsBack ∧ _ := h
      have hvalid : (Mark.mk .number value.text).Valid :=
        ⟨by rw [hvalue.denotes]; rfl, hvalue.digit⟩
      refine .atom ⟨.number, value.text⟩ ⟨.inl hvalid, fun hwide _ => hdigits hwide⟩ fun c hc =>
        Mark.admits_numeral (fun h => (hdotted h).resolve_right nofun) value.text hc
  | .string text delimiter, h, _, _, _ => .atom ⟨.string delimiter, text⟩ h fun _ _ => rfl
  | .name id, h, _, _, _ => (Writes.last_name h).mono fun _ => endsWord_of_follows
  | .table [], _, _, _, _ => by
      rw [Plain.expr_table_nil]
      exact .sign_free (by decide) (fun _ => rfl)
        (.sign_free (by decide) (fun _ => rfl) .nil)
  | .table (field :: fields), h, depth, _, _ =>
      .table (writes_entries (field :: fields) h.2 (depth + 1))
  | .function parameters body, h, depth, _, _ => by
      obtain ⟨-, hparameters, -, hbody⟩ := h
      have hlines := (writes_block body hbody (depth + 1)).body
      rw [Plain.expr_function]
      exact .word .function_
        (.parenthesized (writes_exprs parameters hparameters depth)
          (hlines.mono fun _ => endsWord_of_follows)) (.char (by decide) _)
  | .index value key .dot, h, depth, _, _ => by
      obtain ⟨⟨hhead, hkey⟩, hvalue, hname⟩ := h
      cases key with
      | name id =>
          rw [Plain.expr_index_dot]
          exact (writes_expr value hvalue depth true fun _ => Expr.isHead_cases hhead).append
            (.dot hname) (.char (by decide) _)
      | _ => cases hkey
  | .index value key .bracket, h, depth, _, _ => by
      obtain ⟨⟨-, hlong⟩, hvalue, hkey⟩ := h
      rw [Plain.expr_index_bracket]
      exact (writes_expr value hvalue depth false nofun).append
        (.bracketed hkey hlong (writes_expr key hkey depth false nofun) .nil)
        (.char (by decide) _)
  | .call callee arguments, h, depth, _, _ => by
      obtain ⟨-, hcallee, harguments⟩ := h
      rw [Plain.expr_call]
      exact (writes_expr callee hcallee depth false nofun).append
        (.arguments (writes_exprs arguments harguments depth)) (.char (by decide) _)
  | .invoke receiver method arguments, h, depth, _, _ => by
      obtain ⟨⟨-, hmethod⟩, hreceiver, harguments⟩ := h
      rw [Plain.expr_invoke]
      exact (writes_expr receiver hreceiver depth false nofun).append
        ((Writes.colon hmethod).append (.arguments (writes_exprs arguments harguments depth))
          (.char (by decide) _)) (.char (by decide) _)
  | .binary op left right, h, depth, dotted, hdotted => by
      obtain ⟨-, hleft, hright⟩ := h
      rw [Plain.expr_binary]
      exact .binary op ((writes_expr left hleft depth false nofun).group _)
        ((writes_expr right hright depth dotted
          fun h => .inl ((hdotted h).resolve_right nofun)).group _)
  | .unary op operand, h, depth, dotted, hdotted => by
      obtain ⟨-, hoperand⟩ := h
      rw [Plain.expr_unary]
      exact .unary op
        (writes_expr operand hoperand depth dotted
          fun h => .inl ((hdotted h).resolve_right nofun))
        (opens_expr depth operand hoperand)

/-- The text of readable expressions spells their marks and the commas between them. -/
theorem writes_exprs :
    ∀ values : List Expr, Expr.AllObey (.readable wide) values → ∀ depth : Nat,
      Writes wide (exprs depth values) (Mark.commas (Expr.marksOfEach values)) (follows false)
  | [], _, _ => .nil
  | value :: values, h, depth =>
      (writes_expr value h.1 depth false nofun).exprs_cons (Expr.marksOfEach_eq_nil values)
        (writes_exprs values h.2 depth)

/-- The text of the entries of a table spells their marks, each with its comma. -/
theorem writes_entries :
    ∀ fields : List Field, Field.AllObey (.readable wide) fields → ∀ depth : Nat,
      Writes wide (entries depth fields) (Field.marksOfAll fields) fun _ => true
  | [], _, _ => .nil
  | field :: fields, h, depth => by
      have hfield := writes_entry field h.1 depth
      rw [Plain.entries_cons]
      exact ((hfield.append (.comma (writes_entries fields h.2 depth))
        (.char (by decide) _)).indent depth).blank (by decide)

theorem writes_entry :
    ∀ field : Field, field.Obeys (.readable wide) → ∀ depth : Nat,
      Writes wide (entry depth field) field.marks (follows false)
  | .mk none value bracketed, h, depth => by
      rw [Plain.entry_positional]
      exact writes_expr value h.2 depth false nofun
  | .mk (some key) value true, h, depth => by
      obtain ⟨hlong, hkey, hvalue⟩ := h
      rw [Plain.entry_bracketed]
      exact .bracketed hkey hlong (writes_expr key hkey depth false nofun)
        (writes_expr value hvalue depth false nofun).equals
  | .mk (some key) value false, h, depth => by
      obtain ⟨-, hkey, hvalue⟩ := h
      rw [Plain.entry_named]
      exact (writes_expr key hkey depth false nofun).append
        (writes_expr value hvalue depth false nofun).equals (.char (by decide) _)

/-- The lines of a readable block spell its marks. -/
theorem writes_block :
    ∀ stmts : List Stmt, Stmt.AllObey (.readable wide) stmts → ∀ depth : Nat,
      Writes wide (behind (blockLines depth stmts)) (Stmt.marksOfAll stmts) endsLine
  | [], _, _ => .nil
  | stmt :: stmts, h, depth =>
      (writes_stmt stmt h.1 depth).lines (writes_block stmts h.2 depth)

/-- The lines of a readable statement spell its marks. -/
theorem writes_stmt :
    ∀ stmt : Stmt, stmt.Obeys (.readable wide) → ∀ depth : Nat,
      Writes wide (behind (stmtLines depth stmt)) stmt.marks endsLine
  | .assign targets values, h, depth => by
      obtain ⟨⟨-, hnonempty, -⟩, htargets, hvalues⟩ := h
      cases values with
      | nil => exact absurd rfl hnonempty
      | cons value values =>
          rw [Plain.stmtLines_assign]
          exact .one_line ((writes_exprs targets htargets depth).append
            ((writes_exprs (value :: values) hvalues depth).mono
              fun _ => follows_of_endsLine).equals (.char (by decide) _))
  | .localAssign targets [], h, depth => by
      rw [Plain.stmtLines_declaration]
      exact .one_line (.word .local_ ((writes_exprs targets h.2.1 depth).mono
        fun _ => follows_of_endsLine).space (.char (by decide) _))
  | .localAssign targets (value :: values), h, depth => by
      obtain ⟨-, htargets, hvalues⟩ := h
      rw [Plain.stmtLines_localAssign]
      exact .one_line (.word .local_ ((writes_exprs targets htargets depth).append
        ((writes_exprs (value :: values) hvalues depth).mono
          fun _ => follows_of_endsLine).equals (.char (by decide) _)).space (.char (by decide) _))
  | .whileLoop test body, h, depth => by
      obtain ⟨-, htest, -, hbody⟩ := h
      have hlines := ((writes_expr test htest depth false nofun).between .while_ .do_).compound
        (writes_block body hbody (depth + 1))
      rw [List.cons_append, List.append_assoc] at hlines
      rw [Plain.stmtLines_whileLoop]
      exact hlines
  | .doBlock body, h, depth => by
      rw [Plain.stmtLines_doBlock]
      exact (Writes.last_word .do_).compound (writes_block body h.2.2 (depth + 1))
  | .repeatLoop body test, h, depth => by
      obtain ⟨-, -, hbody, htest⟩ := h
      have hlast : Writes wide (ofText "until" ++ .char ' ' :: expr depth test)
          (.word .until_ :: test.marks) endsLine :=
        .word .until_ ((writes_expr test htest depth false nofun).mono
          fun _ => follows_of_endsLine).space (.char (by decide) _)
      rw [Plain.stmtLines_repeatLoop]
      exact ((Writes.last_word .repeat_).mono fun _ => endsWord_of_endsLine).line
        ((writes_block body hbody (depth + 1)).lines hlast.one_line)
  | .ifThen test body none, h, depth => by
      obtain ⟨-, htest, -, hbody⟩ := h
      have hlines := (Writes.clause .if_ (writes_expr test htest depth false nofun)
        (writes_block body hbody (depth + 1))).lines (Writes.end_line depth)
      rw [List.cons_append, List.append_assoc, List.cons_append] at hlines
      rw [Plain.stmtLines_ifThen]
      exact hlines
  | .ifThen test body (some orelse), h, depth => by
      obtain ⟨-, htest, -, hbody, horelse⟩ := h
      have hlines := (Writes.clause .if_ (writes_expr test htest depth false nofun)
        (writes_block body hbody (depth + 1))).lines
          ((writes_orelse orelse horelse depth).lines (Writes.end_line depth))
      rw [List.cons_append, List.append_assoc, List.cons_append] at hlines
      rw [Plain.stmtLines_ifThen_some]
      exact hlines
  | .label id, h, depth => by
      have hclose : Writes wide (ofText "::") [.sign .colonColon] endsLine :=
        (Writes.single (.sign .colonColon) (Mark.admitted_sign wide _)).mono fun _ _ => rfl
      rw [Plain.stmtLines_label]
      exact .one_line (.cons_free (.sign .colonColon) (Mark.admitted_sign wide _) (fun _ => rfl)
        (.name h hclose ⟨':', ofText ":", by decide, by decide⟩))
  | .goto id, h, depth => by
      rw [Plain.stmtLines_goto]
      exact .one_line (.word .goto_ ((Writes.last_name h).mono
        fun _ => endsWord_of_endsLine).space (.char (by decide) _))
  | .breakLoop, _, depth => by
      rw [Plain.stmtLines_breakLoop]
      exact .one_line ((Writes.last_word .break_).mono fun _ => endsWord_of_endsLine)
  | .returnValues [], _, depth => by
      rw [Plain.stmtLines_returnNothing]
      exact .one_line ((Writes.last_word .return_).mono fun _ => endsWord_of_endsLine)
  | .returnValues (value :: values), h, depth => by
      rw [Plain.stmtLines_returnValues]
      exact .one_line (.word .return_ ((writes_exprs (value :: values) h.2 depth).mono
        fun _ => follows_of_endsLine).space (.char (by decide) _))
  | .expr value, h, depth => by
      rw [Plain.stmtLines_expr depth value h.1]
      exact .one_line ((writes_expr value h.2 depth false nofun).mono fun _ => follows_of_endsLine)
  | .semicolon, _, depth => by
      rw [Plain.stmtLines_semicolon]
      exact .one_line (.sign_free (by decide) (fun _ => rfl) .nil)
  | .numericFor counter start stop step body, h, depth => by
      obtain ⟨⟨hcounter, -⟩, hstart, hstop, hstep, -, hbody⟩ := h
      have hstops := (writes_expr stop hstop depth false nofun).append
        ((writes_expr step hstep depth false nofun).loop_step step.isDefaultStep)
        (opens_loop_step step _)
      have hstarts := (writes_expr start hstart depth false nofun).append hstops.space.comma
        (.char (by decide) _)
      have hname := Writes.name hcounter hstarts.equals (.char (by decide) _)
      have hlines := (Writes.word .for_ hname.space (.char (by decide) _)).compound
        (writes_block body hbody (depth + 1))
      simp only [List.cons_append, List.append_assoc, List.nil_append] at hlines
      rw [Plain.stmtLines_numericFor]
      exact hlines
  | .genericFor names iterators body, h, depth => by
      obtain ⟨⟨-, -, hnames⟩, hiterators, -, hbody⟩ := h
      have hlast := (writes_exprs iterators hiterators depth).append
        (Writes.last_word .do_).space (.char (by decide) _)
      have hin := (writes_names depth hnames).append
        (Writes.word .in_ hlast.space (.char (by decide) _)).space (.char (by decide) _)
      have hlines := (Writes.word .for_ hin.space (.char (by decide) _)).compound
        (writes_block body hbody (depth + 1))
      simp only [List.cons_append, List.append_assoc, List.nil_append] at hlines
      rw [Plain.stmtLines_genericFor]
      exact hlines
  | .function name parameters body, h, depth => by
      obtain ⟨-, hname, hparameters, -, hbody⟩ := h
      have hhead := Writes.word .function_ (writes_expr name hname depth false nofun).space
        (.char (by decide) _)
      have hlines := hhead.function (writes_exprs parameters hparameters depth)
        (writes_block body hbody (depth + 1))
      simp only [List.cons_append, List.append_assoc] at hlines
      rw [Plain.stmtLines_function]
      exact hlines
  | .localFunction name parameters body, h, depth => by
      obtain ⟨⟨hname, -⟩, hparameters, -, hbody⟩ := h
      have hid : Writes wide (ofText name) [.name name] (follows false) :=
        (Writes.last_name hname).mono fun _ => endsWord_of_follows
      have hhead := Writes.word .local_
        (Writes.word .function_ hid.space (.char (by decide) _)).space (.char (by decide) _)
      have hlines := hhead.function (writes_exprs parameters hparameters depth)
        (writes_block body hbody (depth + 1))
      simp only [List.cons_append, List.append_assoc] at hlines
      rw [Plain.stmtLines_localFunction]
      exact hlines
  | .method receiver name parameters body, h, depth => by
      obtain ⟨⟨-, hname, -⟩, hreceiver, hparameters, -, hbody⟩ := h
      have hid : Writes wide (.char ':' :: ofText name) [.sign .colon, .name name]
          (follows false) :=
        (Writes.colon hname).mono fun _ => endsWord_of_follows
      have hpath := (writes_expr receiver hreceiver depth false nofun).append hid
        (.char (by decide) _)
      have hlines := (Writes.word .function_ hpath.space (.char (by decide) _)).function
        (writes_exprs parameters hparameters depth) (writes_block body hbody (depth + 1))
      simp only [List.cons_append, List.append_assoc] at hlines
      rw [Plain.stmtLines_method]
      exact hlines

/-- The lines of a readable alternative spell its marks. -/
theorem writes_orelse :
    ∀ orelse : ElseBranch, orelse.Obeys (.readable wide) → ∀ depth : Nat,
      Writes wide (behind (elseLines depth orelse)) orelse.marks endsLine
  | .elseIf test body none, h, depth => by
      obtain ⟨htest, -, hbody⟩ := h
      rw [Plain.elseLines_elseIf]
      exact .clause .elseif_ (writes_expr test htest depth false nofun)
        (writes_block body hbody (depth + 1))
  | .elseIf test body (some orelse), h, depth => by
      obtain ⟨htest, -, hbody, horelse⟩ := h
      have hlines := (Writes.clause .elseif_ (writes_expr test htest depth false nofun)
        (writes_block body hbody (depth + 1))).lines (writes_orelse orelse horelse depth)
      rw [List.cons_append, List.append_assoc, List.cons_append] at hlines
      rw [Plain.elseLines_elseIf_some]
      exact hlines
  | .final body, h, depth => by
      rw [Plain.elseLines_final]
      exact ((Writes.last_word .else_).mono fun _ => endsWord_of_endsLine).line
        (writes_block body h.2 (depth + 1))

end

/-- The text of a program, behind a line break, spells out the marks of the program. -/
theorem spelled_toPlain
    {chunk : Chunk}
    (h : chunk.Obeys (.readable wide))
    (width : Nat) :
    Spelled wide ('\n' :: (chunk.toElement.toPlain width).toList)
      (Stmt.marksOfAll chunk.body) := by
  have hblock := writes_block chunk.body h.2 0 width [] [] nofun .nil
  rw [List.append_nil, List.append_nil] at hblock
  rw [Element.toPlain, String.toList_ofList, Plain.skeleton_chunk]
  cases hlines : blockLines 0 chunk.body with
  | nil =>
      rw [hlines] at hblock
      exact .blank (by decide) hblock
  | cons line lines =>
      rw [hlines, Plain.behind_cons] at hblock
      rw [Plain.joinLines_cons]
      exact hblock

end LuaView
