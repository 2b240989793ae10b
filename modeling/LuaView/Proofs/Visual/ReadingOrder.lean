import LuaView.Proofs.Parsing.Acceptance
import LuaView.Proofs.Parsing.IdleSteps
import LuaView.Visual.Program

/-!
# Words in reading order

A visual tree shows the tokens of its program, each once and in the order of the source.  The words
of an element are what its leaves hold; the words of a token are what is shown for it, which is
nothing for brackets, separators and the like.

The two agree along a derivation, rule by rule.  The only tokens that are lost are those of a step
that is written although it is the default.
-/

namespace LuaView

open Grammar (Node Derives)

namespace Element

mutual

/-- The words of all leaves, in reading order. -/
@[simp] def words : Element → List String
  | .container _ _ children => wordsOfAll children
  | .text _ => []
  | .leaf word _ => [word]

@[simp] def wordsOfAll : List Element → List String
  | [] => []
  | child :: rest => child.words ++ wordsOfAll rest

end

/-- The words of two lists, one behind the other. -/
@[simp] theorem wordsOfAll_append (first second : List Element) :
    wordsOfAll (first ++ second) = wordsOfAll first ++ wordsOfAll second := by
  induction first with
  | nil => rfl
  | cons child rest ih => simp [wordsOfAll, ih]

/-- Commas between elements are no words. -/
@[simp] theorem wordsOfAll_separate (elements : List Element) :
    wordsOfAll (separate elements) = wordsOfAll elements := by
  unfold separate
  induction elements with
  | nil => rfl
  | cons child rest ih =>
      cases rest with
      | nil => rfl
      | cons next rest => simp [wordsOfAll, words, List.intersperse, ih]

/-- The words of a function end with the word that closes its body. -/
@[simp] theorem words_functionUnit (role : Role) (head parameters : List Element) (body : Element) :
    (functionUnit role head parameters body).words =
      wordsOfAll head ++ (wordsOfAll parameters ++ (body.words ++ ["end"])) := by
  simp [functionUnit, withBody, header, Element.block, Element.inline, keyword]

/-- The words of a compound statement end with the word that closes its body. -/
@[simp] theorem words_withBody (role : Role) (head : List Element) (body : Element) :
    (withBody role head body).words = wordsOfAll head ++ (body.words ++ ["end"]) := by
  simp [withBody, header, Element.block, Element.inline, keyword]

@[simp] theorem words_exprList (elements : List Element) :
    (exprList elements).words = wordsOfAll elements := by
  simp [exprList, Element.inline, words]

/-- Words in front of expressions are shown only if there are expressions. -/
@[simp] theorem wordsOfAll_exprListAfter (before elements : List Element) :
    wordsOfAll (exprListAfter before elements) =
      if elements.isEmpty then [] else wordsOfAll before ++ wordsOfAll elements := by
  unfold exprListAfter
  split <;> simp [wordsOfAll]

/-- An assignment shows the words in front, the targets and the values, in this order. -/
@[simp] theorem words_assignment (role : Role) (before targets values : List Element) :
    (assignment role before targets values).words =
      wordsOfAll before ++ (wordsOfAll targets ++ wordsOfAll values) := by
  cases values <;> simp [assignment, Element.inline]

@[simp] theorem words_statements (elements : List Element) :
    (statements elements).words = wordsOfAll elements := by
  simp only [statements, Element.block, words]
  induction elements with
  | nil => rfl
  | cons element rest ih => simp [wordsOfAll, words, ih]

end Element

open Element (words wordsOfAll)

/-! ## Words of programs -/

@[simp] theorem Expr.elements_append (first second : List Expr) :
    Expr.elements (first ++ second) = Expr.elements first ++ Expr.elements second := by
  induction first with
  | nil => rfl
  | cons value values ih => simp [Expr.elements, ih]

@[simp] theorem Field.elements_append (first second : List Field) :
    Field.elements (first ++ second) = Field.elements first ++ Field.elements second := by
  induction first with
  | nil => rfl
  | cons field fields ih => simp [Field.elements, ih]

@[simp] theorem Stmt.elements_append (first second : List Stmt) :
    Stmt.elements (first ++ second) = Stmt.elements first ++ Stmt.elements second := by
  induction first with
  | nil => rfl
  | cons stmt stmts ih => simp [Stmt.elements, ih]

@[simp] theorem Expr.elements_isEmpty (values : List Expr) :
    (Expr.elements values).isEmpty = values.isEmpty := by
  cases values <;> rfl

/-- The words of names are the names. -/
@[simp] theorem Expr.wordsOfAll_names (ids : List Name) :
    wordsOfAll (Expr.elements (ids.map .name)) = ids := by
  induction ids with
  | nil => rfl
  | cons id ids ih =>
      simp [Expr.elements, Expr.toElement, Name.toElement, words, wordsOfAll, ih]

@[simp] theorem Name.wordsOfAll_elements (ids : List Name) :
    wordsOfAll (ids.map Name.toElement) = ids := by
  induction ids with
  | nil => rfl
  | cons id ids ih => simp [Name.toElement, words, wordsOfAll, ih]

/-- The words of an alternative, if there is one. -/
def ElseBranch.optionWords (orelse : Option ElseBranch) : List String :=
  orelse.elim [] fun orelse => orelse.toElement.words

/-- The words of a clause. -/
def Grammar.clauseWords (clause : Expr × Block) : List String :=
  "elseif" :: (clause.1.toElement.words ++ "then" :: wordsOfAll (Stmt.elements clause.2))

/-- The alternatives of a condition show the words of one clause after the other. -/
@[simp] theorem ElseBranch.optionWords_alternatives
    (clauses : List (Expr × Block))
    (last : Option ElseBranch) :
    ElseBranch.optionWords (Grammar.alternatives clauses last) =
      clauses.flatMap Grammar.clauseWords ++ ElseBranch.optionWords last := by
  induction clauses with
  | nil => rfl
  | cons clause clauses ih =>
      rw [Grammar.alternatives, List.flatMap_cons, List.append_assoc, ← ih]
      cases Grammar.alternatives clauses last <;>
        simp [ElseBranch.optionWords, ElseBranch.toElement, Grammar.clauseWords, Element.block,
          Element.header, Element.inline, Element.keyword, words, wordsOfAll]

@[simp] theorem Stmt.words_returnValues (values : List Expr) :
    (Stmt.returnValues values).toElement.words = "return" :: wordsOfAll (Expr.elements values) := by
  cases values <;> simp [Stmt.toElement, Element.inline, Element.keyword, Expr.elements]

/-- A condition shows its test, its body and its alternatives in front of one `end`. -/
@[simp] theorem Stmt.words_ifThen
    (test : Expr)
    (body : Block)
    (orelse : Option ElseBranch) :
    (Stmt.ifThen test body orelse).toElement.words =
      "if" :: (test.toElement.words ++ ("then" :: (wordsOfAll (Stmt.elements body) ++
        (ElseBranch.optionWords orelse ++ ["end"])))) := by
  cases orelse <;>
    simp [Stmt.toElement, ElseBranch.optionWords, Element.block, Element.header, Element.inline,
      Element.keyword, words, wordsOfAll]

/-- The words that a node contributes to the visual tree around it. -/
@[simp] def Grammar.Node.words : Node → List String
  | .primary value | .suffixed value | .simple value | .expression value | .path value =>
      value.toElement.words
  | .expressions values | .arguments values | .targets values | .initialValues values
  | .returnedValues values | .leadingParameters values | .parameters values =>
      wordsOfAll (Expr.elements values)
  | .field entry => entry.toElement.words
  | .entries fields | .table fields => wordsOfAll (Field.elements fields)
  | .functionBody params body =>
      wordsOfAll (Expr.elements params) ++ (wordsOfAll (Stmt.elements body) ++ ["end"])
  | .names ids => ids
  | .loopStep step => if step.isDefaultStep then [] else step.toElement.words
  | .loopBody body => "do" :: (wordsOfAll (Stmt.elements body) ++ ["end"])
  | .guarded test body =>
      test.toElement.words ++ "then" :: wordsOfAll (Stmt.elements body)
  | .clauses chain => chain.flatMap Grammar.clauseWords
  | .alternative last => ElseBranch.optionWords last
  | .statement stmt => stmt.toElement.words
  | .statements stmts | .block stmts => wordsOfAll (Stmt.elements stmts)

/-! ## Words of tokens -/

/-- Symbols that are not shown as words. -/
@[simp] def Symbol.isPunctuation : Symbol → Bool
  | .lparen | .rparen | .lbrace | .rbrace | .lbracket | .rbracket | .colonColon | .semicolon
  | .colon | .comma | .dot | .eq => true
  | _ => false

/-- What is shown for a token of a source. -/
def Token.words (token : Token) : List String :=
  match token.kind with
  | .symbol mark => if mark.isPunctuation then [] else [token.text]
  | .number => ((Number.ofNumeral? token.text.toList).map Number.text).toList
  | .string delimiter => [delimiter.quote token.text]
  | .keyword _ | .name => [token.text]
  | .eof => []

/-- What is shown for a token, if keywords and symbols are taken to be spelled as they should. -/
def Token.kindWords (token : Token) : List String :=
  match token.kind with
  | .symbol mark => if mark.isPunctuation then [] else [mark.text]
  | .keyword word => [word.text]
  | _ => token.words

namespace Token

variable {token : Token}

/-- A name is shown as it is. -/
theorem kindWords_name (h : token.kind = .name) : token.kindWords = [token.text] := by
  simp [kindWords, Token.words, h]

/-- A string is shown as it is quoted again. -/
theorem kindWords_string
    {delimiter : Delimiter}
    (h : token.kind = .string delimiter) :
    token.kindWords = [delimiter.quote token.text] := by
  simp [kindWords, Token.words, h]

/-- A numeral is shown as the text of its value. -/
theorem kindWords_number
    {value : Number}
    (h : token.kind = .number)
    (hvalue : Number.ofNumeral? token.text.toList = some value) :
    token.kindWords = [value.text] := by
  simp [kindWords, Token.words, h, hvalue]

theorem kindWords_keyword
    {word : Keyword}
    (h : token.kind = .keyword word) :
    token.kindWords = [word.text] := by
  simp [kindWords, h]

/-- A symbol is shown unless it is punctuation. -/
theorem kindWords_symbol
    {mark : Symbol}
    (h : token.kind = .symbol mark) :
    token.kindWords = if mark.isPunctuation then [] else [mark.text] := by
  simp [kindWords, h]

/-- Only a token that is a word of the visual tree is spelled like an operator. -/
theorem kindWords_of_display
    {symbol : String}
    (hsymbol : symbol ∈ UnaryOp.all.map UnaryOp.symbol ++ BinaryOp.all.map BinaryOp.symbol)
    (h : token.kind.display = symbol) :
    token.kindWords = [symbol] := by
  subst h
  cases hkind : token.kind with
  | keyword word => exact kindWords_keyword hkind
  | symbol mark =>
      rw [hkind] at hsymbol
      have hpunctuation : mark.isPunctuation = false := by
        revert hsymbol
        cases mark <;> decide
      rw [kindWords_symbol hkind, hpunctuation]
      rfl
  | number => exact absurd (hkind ▸ hsymbol) (by decide)
  | string delimiter => exact absurd (hkind ▸ hsymbol) (by cases delimiter <;> decide)
  | name => exact absurd (hkind ▸ hsymbol) (by decide)
  | eof => exact absurd (hkind ▸ hsymbol) (by decide)

/-- The token of a unary operator is shown as the sign of the operator. -/
theorem kindWords_unaryOp
    {op : UnaryOp}
    (h : token.kind.display = op.symbol) :
    token.kindWords = [op.symbol] :=
  kindWords_of_display (by cases op <;> decide) h

/-- The token of a binary operator is shown as the sign of the operator. -/
theorem kindWords_binaryOp
    {op : BinaryOp}
    (h : token.kind.display = op.symbol) :
    token.kindWords = [op.symbol] :=
  kindWords_of_display (by cases op <;> decide) h

end Token

open Token (kindWords_name kindWords_string kindWords_number kindWords_keyword kindWords_symbol
  kindWords_unaryOp kindWords_binaryOp)
open Grammar (clauseWords)

/-- A tree shows the words of the tokens that it derives, in their order, if no step that is
written is the default one. -/
theorem words_eq_of_derives
    {explicit : Expr → Prop}
    (hexplicit : ∀ step, explicit step → step.isDefaultStep = false)
    {node : Node}
    {tokens : List Token}
    (h : Derives explicit node tokens) :
    node.words = tokens.flatMap Token.kindWords := by
  induction h with
  | name hid => simp [Expr.toElement, Name.toElement, kindWords_name hid]
  | parenthesised hleft _ hright ih =>
      simp [kindWords_symbol hleft, kindWords_symbol hright, ← ih]
  | primary _ ih => exact ih
  | dot _ hdot hid ih =>
      simp [Expr.dot, Expr.toElement, Name.toElement, Element.inline, kindWords_symbol hdot,
        kindWords_name hid, ← ih]
  | bracket _ hleft _ hright ihvalue ihkey =>
      simp [Expr.bracket, Expr.toElement, Element.inline, kindWords_symbol hleft,
        kindWords_symbol hright, ← ihvalue, ← ihkey]
  | call _ _ ihvalue iharguments =>
      simp [Expr.toElement, Element.inline, Element.callArguments, ← ihvalue, ← iharguments]
  | invoke _ hcolon hid _ ihvalue iharguments =>
      simp [Expr.toElement, Name.toElement, Element.inline, Element.callArguments,
        kindWords_symbol hcolon, kindWords_name hid, ← ihvalue, ← iharguments]
  | noArguments hleft hright =>
      simp [Expr.elements, kindWords_symbol hleft, kindWords_symbol hright]
  | listedArguments hleft _ hright ih =>
      simp [kindWords_symbol hleft, kindWords_symbol hright, ← ih]
  | tableArgument _ ih => simp [Expr.elements, Expr.toElement, ← ih]
  | stringArgument htoken => simp [Expr.elements, Expr.toElement, kindWords_string htoken]
  | nil htoken => simp [Expr.toElement, kindWords_keyword htoken, Keyword.text]
  | true htoken => simp [Expr.toElement, kindWords_keyword htoken, Keyword.text]
  | false htoken => simp [Expr.toElement, kindWords_keyword htoken, Keyword.text]
  | varargs htoken => simp [Expr.toElement, kindWords_symbol htoken, Symbol.text]
  | number htoken hvalue => simp [Expr.toElement, kindWords_number htoken hvalue]
  | string htoken => simp [Expr.toElement, kindWords_string htoken]
  | function hword _ ih =>
      simp [Expr.toElement, Element.keyword, kindWords_keyword hword, Keyword.text, ← ih]
  | table _ ih => simp [Expr.toElement, ← ih]
  | suffixed _ ih => exact ih
  | simple _ ih => exact ih
  | unary hmark _ ih =>
      simp [Expr.toElement, Element.inline, kindWords_unaryOp hmark, ← ih]
  | binary _ hmark _ ihleft ihright =>
      simp [Expr.toElement, Element.inline, kindWords_binaryOp hmark, ← ihleft, ← ihright]
  | firstExpression _ ih => simp [Expr.elements, ← ih]
  | nextExpression _ hcomma _ ihvalues ihvalue =>
      simp [Expr.elements, kindWords_symbol hcomma, ← ihvalues, ← ihvalue]
  | bracketedField hleft _ hright heq _ ihkey ihvalue =>
      simp [Field.bracketed, Field.toElement, Field.row, Field.keyElement, kindWords_symbol hleft,
        kindWords_symbol hright, kindWords_symbol heq, ← ihkey, ← ihvalue]
  | namedField hid heq _ ih =>
      simp [Field.named, Field.toElement, Field.row, Field.keyElement, Expr.toElement,
        Name.toElement, kindWords_name hid, kindWords_symbol heq, ← ih]
  | positionalField _ ih => simp [Field.positional, Field.toElement, Field.row, ← ih]
  | noEntry => rfl
  | nextEntry _ _ hseparator ihfields ihfield =>
      rcases hseparator with hseparator | hseparator <;>
        simp [Field.elements, kindWords_symbol hseparator, ← ihfields, ← ihfield]
  | separatedTable hleft _ hright ih =>
      simp [kindWords_symbol hleft, kindWords_symbol hright, ← ih]
  | unseparatedTable hleft _ _ hright ihfields ihfield =>
      simp [Field.elements, kindWords_symbol hleft, kindWords_symbol hright, ← ihfields, ← ihfield]
  | noLeadingParameter => rfl
  | nextLeadingParameter _ hid hcomma ih =>
      simp [Expr.elements, Expr.toElement, Name.toElement, kindWords_name hid,
        kindWords_symbol hcomma, ← ih]
  | noParameters => rfl
  | lastParameter _ hid ih =>
      simp [Expr.elements, Expr.toElement, Name.toElement, kindWords_name hid, ← ih]
  | lastVarargs _ hdots ih =>
      simp [Expr.elements, Expr.toElement, kindWords_symbol hdots, Symbol.text, ← ih]
  | functionBody hleft _ hright _ hword ihparameters ihbody =>
      simp [kindWords_symbol hleft, kindWords_symbol hright, kindWords_keyword hword, Keyword.text,
        ← ihparameters, ← ihbody]
  | firstName hid => simp [kindWords_name hid]
  | nextName _ hcomma hid ih =>
      simp [kindWords_symbol hcomma, kindWords_name hid, ← ih]
  | firstPart hid => simp [Expr.toElement, Name.toElement, kindWords_name hid]
  | nextPart _ hdot hid ih =>
      simp [Expr.dot, Expr.toElement, Name.toElement, Element.inline, kindWords_symbol hdot,
        kindWords_name hid, ← ih]
  | firstTarget _ _ ih => simp [Expr.elements, ← ih]
  | nextTarget _ hcomma _ _ ihvalues ihvalue =>
      simp [Expr.elements, kindWords_symbol hcomma, ← ihvalues, ← ihvalue]
  | noInitialValues => rfl
  | initialValues heq _ ih => simp [kindWords_symbol heq, ← ih]
  | noReturnedValues => rfl
  | returnedValues _ ih => exact ih
  | omittedStep => rfl
  | explicitStep hcomma _ hstep ih =>
      simp [kindWords_symbol hcomma, hexplicit _ hstep, ← ih]
  | loopBody hfirst _ hlast ih =>
      simp [kindWords_keyword hfirst, kindWords_keyword hlast, Keyword.text, ← ih]
  | guarded _ hword _ ihtest ihbody =>
      simp [kindWords_keyword hword, Keyword.text, ← ihtest, ← ihbody]
  | noClause => rfl
  | nextClause _ hword _ ihclauses ihclause =>
      simp [clauseWords, kindWords_keyword hword, Keyword.text, ← ihclauses, ← ihclause]
  | noAlternative => rfl
  | alternative hword _ ih =>
      simp [ElseBranch.optionWords, ElseBranch.toElement, Element.block, Element.header,
        Element.inline, Element.keyword, kindWords_keyword hword, Keyword.text, ← ih]
  | semicolon hmark => simp [Stmt.toElement, kindWords_symbol hmark]
  | label hleft hid hright =>
      simp [Stmt.toElement, Element.inline, kindWords_symbol hleft, kindWords_name hid,
        kindWords_symbol hright]
  | breakLoop hword => simp [Stmt.toElement, Element.keyword, kindWords_keyword hword, Keyword.text]
  | goto hword hid =>
      simp [Stmt.toElement, Element.inline, Element.keyword, kindWords_keyword hword,
        kindWords_name hid, Keyword.text]
  | whileLoop hword _ _ ihtest ihbody =>
      simp [Stmt.toElement, Element.keyword, kindWords_keyword hword, Keyword.text, ← ihtest,
        ← ihbody]
  | doBlock _ ih => simp [Stmt.toElement, Element.keyword, ← ih]
  | repeatLoop hfirst _ hword _ ihbody ihtest =>
      simp [Stmt.toElement, Element.block, Element.header, Element.inline, Element.keyword,
        kindWords_keyword hfirst, kindWords_keyword hword, Keyword.text, ← ihbody, ← ihtest]
  | ifThen hfirst _ _ _ hlast ihguarded ihclauses ihalternative =>
      simp [kindWords_keyword hfirst, kindWords_keyword hlast, Keyword.text, ← ihguarded,
        ← ihclauses, ← ihalternative]
  | @numericFor word id eq comma start stop step body ts us vs ws hword hid heq _ hcomma _ _ _
      ihstart ihstop ihstep ihbody =>
      have hstep : wordsOfAll (if step.isDefaultStep then []
          else [Element.text ",", step.toElement]) = (Node.loopStep step).words := by
        simp only [Node.words]
        split <;> simp
      simp [Stmt.toElement, Name.toElement, Element.keyword, kindWords_keyword hword,
        kindWords_name hid, kindWords_symbol heq, kindWords_symbol hcomma, Keyword.text, hstep,
        ← ihstart, ← ihstop, ← ihstep, ← ihbody]
  | genericFor hword _ hmiddle _ _ ihids ihiterators ihbody =>
      simp [Stmt.toElement, Element.keyword, kindWords_keyword hword, kindWords_keyword hmiddle,
        Keyword.text, ← ihids, ← ihiterators, ← ihbody]
  | functionStatement hword _ _ ihpath ihbody =>
      simp [Stmt.toElement, Element.keyword, kindWords_keyword hword, Keyword.text, ← ihpath,
        ← ihbody]
  | method hword _ hcolon hid _ ihpath ihbody =>
      simp [Stmt.toElement, Name.toElement, Element.inline, Element.keyword,
        kindWords_keyword hword, kindWords_symbol hcolon, kindWords_name hid, Keyword.text,
        ← ihpath, ← ihbody]
  | localFunction hfirst hword hid _ ih =>
      simp [Stmt.toElement, Name.toElement, Element.keyword, kindWords_keyword hfirst,
        kindWords_keyword hword, kindWords_name hid, Keyword.text, ← ih]
  | localAssign hword _ _ ihids ihvalues =>
      simp [Stmt.toElement, Element.keyword, kindWords_keyword hword, Keyword.text, ← ihids,
        ← ihvalues]
  | assign _ heq _ ihtargets ihvalues =>
      simp [Stmt.toElement, kindWords_symbol heq, ← ihtargets, ← ihvalues]
  | callStatement _ _ ih => simp [Stmt.toElement, ← ih]
  | noStatement => rfl
  | nextStatement _ _ ihstmts ihstmt => simp [Stmt.elements, ← ihstmts, ← ihstmt]
  | openBlock _ ih => exact ih
  | returningBlock _ hword _ ihstmts ihvalues =>
      simp [Stmt.elements, kindWords_keyword hword, Keyword.text, ← ihstmts, ← ihvalues]
  | returningBlockClosed _ hword _ hmark ihstmts ihvalues =>
      simp [Stmt.elements, kindWords_keyword hword, kindWords_symbol hmark, Keyword.text,
        ← ihstmts, ← ihvalues]

/-! ## Words of sources -/

/-- The words of a token whose spelling fits its kind. -/
theorem Token.words_eq_kindWords
    {token : Token}
    {spelling : List Char}
    (h : token.kind.Spells token.text.toList spelling) :
    token.words = token.kindWords := by
  unfold Token.kindWords
  split
  · rename_i mark hkind
    rw [hkind] at h
    have htext : token.text = mark.text := String.toList_inj.mp h.1
    simp only [Token.words, hkind, htext]
  · rename_i word hkind
    rw [hkind] at h
    have htext : token.text = word.text := String.toList_inj.mp h.1
    simp [Token.words, hkind, htext]
  · rfl

/-- The visual tree of a source without idle steps shows the tokens of the source, in their
order. -/
theorem words_toElement_of_parse
    {source : String}
    {limit : Nat}
    {program : Chunk}
    {tokens : List Token}
    (hparse : parse source limit = .ok program)
    (htokens : tokenize source = .ok tokens)
    (hidle : NoIdleStep tokens) :
    program.toElement.words = tokens.flatMap Token.words := by
  obtain ⟨ts, pos, htokenize, hderives⟩ := derives_of_parse hparse
  rw [htokens] at htokenize
  obtain rfl := Except.ok.inj htokenize
  have hactive : Derives activeStep (.block program.body) ts := derivesActive hderives hidle.left
  have hblock := words_eq_of_derives (fun _ h => h) hactive
  have hspelled := (partition_of_tokenize htokens).spelled
  have hwords : (ts ++ [Token.eof pos]).flatMap Token.words =
      (ts ++ [Token.eof pos]).flatMap Token.kindWords := by
    simp only [List.flatMap_def]
    rw [List.map_congr_left fun token htoken => Token.words_eq_kindWords (hspelled token htoken)]
  have heof : (Token.eof pos).kindWords = [] := rfl
  rw [hwords]
  simpa [Chunk.toElement, Block.toElement, Element.block, heof] using hblock

theorem words_toElement_of_loop :
    ∃ program, parse "for i = 1, 0x10 do f\x7bi\x7d:g'x' end" 10 = .ok program ∧
      program.toElement.words =
        ["for", "i", "1", "16", "do", "f", "i", "g", "'x'", "end"] := by
  obtain ⟨program, hprogram⟩ := Except.exists_of_isOk
    (show (parse "for i = 1, 0x10 do f\x7bi\x7d:g'x' end" 10).isOk = true by decide +kernel)
  obtain ⟨tokens, htokens⟩ := Except.exists_of_isOk
    (show (tokenize "for i = 1, 0x10 do f\x7bi\x7d:g'x' end").isOk = true by decide +kernel)
  have hcommas : (tokenize "for i = 1, 0x10 do f\x7bi\x7d:g'x' end").map
      (fun tokens => tokens.countP fun token => token.kind == .symbol .comma) = .ok 1 := by
    decide +kernel
  have hwords : (tokenize "for i = 1, 0x10 do f\x7bi\x7d:g'x' end").map
      (fun tokens => tokens.flatMap Token.words) =
        .ok ["for", "i", "1", "16", "do", "f", "i", "g", "'x'", "end"] := by
    decide +kernel
  rw [htokens] at hcommas hwords
  have hone : tokens.countP (fun token => token.kind == .symbol .comma) = 1 :=
    Except.ok.inj hcommas
  have hidle : NoIdleStep tokens := .of_commas (by omega)
  refine ⟨program, hprogram, ?_⟩
  rw [words_toElement_of_parse hprogram htokens hidle]
  exact Except.ok.inj hwords

end LuaView
