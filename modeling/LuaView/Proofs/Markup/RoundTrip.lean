import LuaView.Markup.Render
import LuaView.Proofs.Markup.Emission
import LuaView.Proofs.Parsing.ReadingStatement

/-!
# The text of a printable program is parsed to that program

A program is printable if its literals and names are as a source can hold them, and if nothing in it
needs parentheses that the text does not have: what is accessed or called is a name or itself
accessed or called.  A key in brackets must not open with a long bracket, since the two brackets
would be read as one.

A printable program is readable.  Its text is therefore cut into the marks of the program, and these
are parsed to the program.
-/

namespace LuaView

/-- Some source has a string token with the text and the delimiter. -/
def Delimiter.IsTokenText (delimiter : Delimiter) (text : String) : Prop :=
  ∃ source tokens, tokenize source = .ok tokens ∧
    ∃ token ∈ tokens, token.kind = .string delimiter ∧ token.text = text

/-- A string in long brackets, or a binary operation whose left operand is one. -/
def Expr.startsLong : Expr → Bool
  | .string _ .long | .binary _ (.string _ .long) _ => true
  | _ => false

/-- What the text of a program can show.

Names are identifiers that are not reserved.  Numbers are not negative, and floats are denoted by
their texts.  A quoted text is that of a token, and a text in long brackets does not start with a
line break.  Only names, and what is accessed or called, is accessed or called; a key behind a point
is a name, and so is a key of a table that is not in brackets.

Statements are as the grammar asks for: lists of targets, names and values are not empty where there
have to be some, a function has a name with points and names as its parameters, only calls stand
alone, and `return` is the last statement of its block.  A loop whose step is one has the step that
is meant if none is written. -/
def Law.printable : Law where
  expr
    | .name id => IsName id.toList
    | .number (.int value) => 0 ≤ value.toInt
    | .number (.float value) =>
        value.isFinite = true ∧ value.isNegative = false ∧
          Number.ofNumeral? value.text = some (.float value)
    | .string text .long => text.toList.head? ≠ some '\r' ∧ text.toList.head? ≠ some '\n'
    | .string text delimiter => delimiter.IsTokenText text
    | .function parameters _ => Expr.areParameters parameters = true
    | .index value key .dot => value.isHead false = true ∧ key.isName = true
    | .index value key .bracket => value.isHead false = true ∧ key.startsLong = false
    | .call callee _ => callee.isHead false = true
    | .invoke receiver method _ => receiver.isHead false = true ∧ IsName method.toList
    | _ => True
  field
    | .mk none _ bracketed => bracketed = false
    | .mk (some key) _ true => key.startsLong = false
    | .mk (some key) _ false => key.isName = true
  stmt := Stmt.IsGrammatical
  block := Block.ReturnsLast

/-! ## Printable programs are readable -/

/-- The text of a quoted token ends in front of the quote behind it. -/
theorem Delimiter.IsTokenText.valid
    {delimiter : Delimiter}
    {text : String}
    (h : delimiter.IsTokenText text)
    (hshort : delimiter ≠ .long) :
    (Mark.mk (.string delimiter) text).Valid := by
  obtain ⟨source, tokens, htokens, token, hmem, hkind, rfl⟩ := h
  have hspelled := (partition_of_tokenize htokens).spelled token hmem
  rw [hkind] at hspelled
  cases delimiter with
  | single => exact hspelled.1
  | double => exact hspelled.1
  | long => exact absurd rfl hshort

namespace Expr

/-- What is accessed or called in a printable program starts with a name. -/
theorem not_opensLong_of_isHead :
    ∀ value : Expr, value.Obeys .printable → value.isHead false = true →
      value.opensLong = false
  | .name _, _, _ => rfl
  | .index value _ .dot, h, _ => not_opensLong_of_isHead value h.2.1 h.1.1
  | .index value _ .bracket, h, _ => not_opensLong_of_isHead value h.2.1 h.1.1
  | .call callee _, h, _ => not_opensLong_of_isHead callee h.2.1 h.1
  | .invoke receiver _ _, h, _ => not_opensLong_of_isHead receiver h.2.1 h.1.1

/-- In a printable program only those expressions open with a long bracket that start with one. -/
theorem not_opensLong_of_not_startsLong
    {value : Expr}
    (h : value.Obeys .printable)
    (hstarts : value.startsLong = false) :
    value.opensLong = false := by
  cases value with
  | string text delimiter =>
      cases delimiter with
      | long => cases hstarts
      | _ => rfl
  | index value key style => exact not_opensLong_of_isHead (.index value key style) h rfl
  | call callee arguments => exact not_opensLong_of_isHead (.call callee arguments) h rfl
  | invoke receiver method arguments =>
      exact not_opensLong_of_isHead (.invoke receiver method arguments) h rfl
  | binary op left right =>
      obtain ⟨-, hleft, -⟩ := h
      cases left with
      | string text delimiter =>
          cases delimiter with
          | long => cases hstarts
          | _ => rfl
      | index value key style => exact not_opensLong_of_isHead (.index value key style) hleft rfl
      | call callee arguments => exact not_opensLong_of_isHead (.call callee arguments) hleft rfl
      | invoke receiver method arguments =>
          exact not_opensLong_of_isHead (.invoke receiver method arguments) hleft rfl
      | _ => rfl
  | _ => rfl

end Expr

theorem Law.printable_gives_readable : Law.Gives .printable .printable (.readable false) where
  expr value h _ := by
    cases value with
    | number value =>
        refine ⟨?_, nofun⟩
        cases value with
        | int value => exact Number.readsBack_int h
        | float value => exact Number.readsBack_float h.1 h.2.1 h.2.2
    | string text delimiter =>
        refine .of_valid ?_ nofun
        cases delimiter with
        | single => exact Delimiter.IsTokenText.valid h nofun
        | double => exact Delimiter.IsTokenText.valid h nofun
        | long =>
            rintro c hc
            exact ⟨fun hline => h.2 (hline ▸ hc), fun hreturn => h.1 (hreturn ▸ hc)⟩
    | index value key style =>
        obtain ⟨hnode, -, hkey⟩ := h
        cases style with
        | dot => exact hnode
        | bracket => exact ⟨hnode.1, Expr.not_opensLong_of_not_startsLong hkey hnode.2⟩
    | function parameters body => exact h.1
    | call callee arguments => exact h.1
    | invoke receiver method arguments => exact h.1
    | name id => exact h
    | _ => trivial
  field field h _ := by
    obtain ⟨key, value, bracketed⟩ := field
    cases key with
    | none => exact h.1
    | some key =>
        cases bracketed with
        | true => exact Expr.not_opensLong_of_not_startsLong h.2.1 h.1
        | false => exact h.1
  stmt stmt h _ := by
    cases stmt with
    | label id => exact h
    | goto id => exact h
    | ifThen test body orelse => trivial
    | breakLoop => trivial
    | semicolon => trivial
    | _ => exact h.1
  block block h _ := h.1

/-! ## Reading texts back -/

/-- The text of a readable program does not look like a line for the system. -/
theorem head_toPlain
    {chunk : Chunk}
    (h : chunk.Obeys (.readable false))
    {cs : List Char}
    (hlexed : Lexed cs (Stmt.marksOfAll chunk.body)) :
    cs.head? ≠ some '#' := by
  intro hhead
  obtain ⟨rest, rfl⟩ := List.head?_eq_some_iff.mp hhead
  obtain ⟨mark, more, hmarks, hhash⟩ := hlexed.front_hash
  obtain ⟨_ | ⟨stmt, stmts⟩⟩ := chunk
  · cases hmarks
  · obtain ⟨first, others, hfirst, hstarts, -⟩ := Stmt.marks_front h.2.1
    rw [Stmt.marksOfAll, hfirst] at hmarks
    obtain ⟨rfl, -⟩ := List.cons.inj hmarks
    exact hstarts.hash hhash

/-- The text of a readable program is parsed to the program. -/
theorem parse_toPlain
    {chunk : Chunk}
    (h : chunk.Obeys (.readable false))
    {width limit : Nat}
    (hlimit : (chunk.toElement.toPlain width).utf8ByteSize < limit) :
    parse (chunk.toElement.toPlain width) limit = .ok chunk := by
  have hlexed := (spelled_toPlain h width).lexed.of_blank (by decide)
  obtain ⟨words, last, htokens, hwords⟩ := tokenize_of_lexed hlexed (head_toPlain h hlexed)
  rw [String.ofList_toList] at htokens
  have hcount : words.length < limit := calc
    words.length = (Stmt.marksOfAll chunk.body).length := by rw [← hwords, List.length_map]
    _ ≤ (chunk.toElement.toPlain width).toList.length := hlexed.length_le
    _ ≤ (chunk.toElement.toPlain width).utf8ByteSize := by
      rw [utf8ByteSize_eq_byteLength]
      exact length_le_byteLength _
    _ < limit := hlimit
  have hsession : Session.ofTokens (words ++ [Token.eof last]) limit =
      ⟨words ++ [Token.eof last], limit⟩ := by
    rw [Session.ofTokens, List.getLast?_append]
    rfl
  have hchunk := Grammar.chunk_of_marks h hwords hcount last
  change tokenize _ >>= _ = _
  rw [htokens]
  change (Session.parse _).1 = _
  rw [hsession, Session.parse, hchunk]

/-- The text of a printable program is parsed to that program, whatever the indentation is and
however few levels more than bytes the parser may nest. -/
theorem parse_render
    {program : Chunk}
    (h : program.Obeys .printable)
    (settings : Settings)
    {limit : Nat}
    (hlimit : (program.render .text settings).utf8ByteSize < limit) :
    parse (program.render .text settings) limit = .ok program :=
  parse_toPlain (.of_gives Law.printable_gives_readable h h) hlimit

/-- The program `return a - (b - 1), f({["k"] = 'x'})`. -/
def nestedDifference : Chunk :=
  ⟨[.returnValues
    [.binary .sub (.name "a") (.binary .sub (.name "b") (.int 1)),
      .call (.name "f") [.table [.bracketed (.string "k" .double) (.string "x" .single)]]]]⟩

theorem printable_nestedDifference : nestedDifference.Obeys .printable := by
  have hnames : ∀ id ∈ ["a", "b", "f"], IsName id.toList := by decide
  have hkey : Delimiter.double.IsTokenText "k" :=
    ⟨"\"k\"", [⟨.string .double, "k", ⟨{}, ⟨3, 0, 3⟩⟩⟩, Token.eof ⟨3, 0, 3⟩], by decide +kernel,
      _, List.mem_cons_self, rfl, rfl⟩
  have hvalue : Delimiter.single.IsTokenText "x" :=
    ⟨"'x'", [⟨.string .single, "x", ⟨{}, ⟨3, 0, 3⟩⟩⟩, Token.eof ⟨3, 0, 3⟩], by decide +kernel,
      _, List.mem_cons_self, rfl, rfl⟩
  refine ⟨rfl, ⟨trivial, ⟨trivial, ?_, trivial, ?_, ?_⟩, ⟨rfl, ?_, ?_, trivial⟩, trivial⟩, trivial⟩
  · exact hnames "a" (by decide)
  · exact hnames "b" (by decide)
  · exact show 0 ≤ (1 : Int64).toInt by decide
  · exact hnames "f" (by decide)
  · exact ⟨trivial, ⟨rfl, hkey, hvalue⟩, trivial⟩

theorem parse_render_nestedDifference :
    nestedDifference.Obeys .printable ∧
      (nestedDifference.render .text {}).utf8ByteSize < 44 ∧
      parse (nestedDifference.render .text {}) 44 = .ok nestedDifference := by
  have hsize : (nestedDifference.render .text {}).utf8ByteSize < 44 := by decide +kernel
  exact ⟨printable_nestedDifference, hsize, parse_render printable_nestedDifference {} hsize⟩

end LuaView
