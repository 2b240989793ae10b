import LuaView.Proofs.Markup.RoundTrip
import LuaView.Proofs.Parsing.Accepted

/-!
# When a text shows how its program is grouped

The parentheses of a source are not kept in its program.  The text puts them back around an
operation inside another one, and nowhere else.  So the text of `(a + b)(c)` is that of `a + b(c)`,
which is another program: the text does not show what an operation is grouped with if it is
accessed or called.

A key in brackets that opens with a long bracket is ambiguous for another reason.  Its two opening
brackets stand side by side, and the text may go on in such a way that they can be taken for a long
bracket of their own.

Of sources whose numerals are small integers, those without either kind of expression are told apart
by their texts.
-/

namespace LuaView

/-- Nothing in the program needs parentheses or a space that its text does not have: no operation is
accessed or called, and no key in brackets opens with a long bracket. -/
def Law.grouped : Law where
  expr
    | .index value key .bracket => value.isOperation = false ∧ key.opensLong = false
    | .index value _ .dot => value.isOperation = false
    | .call callee _ => callee.isOperation = false
    | .invoke receiver _ _ => receiver.isOperation = false
    | _ => True
  field
    | .mk (some key) _ true => key.opensLong = false
    | _ => True
  stmt _ := True
  block _ := True

/-- All numerals of the source are decimal integers below `2 ^ 63`. -/
def HasSmallIntegers (source : String) : Prop :=
  ∀ tokens, tokenize source = .ok tokens →
    ∀ token ∈ tokens, token.kind = .number → IsSmallInteger token.text.toList

theorem HasSmallIntegers.of_check
    {source : String}
    (h : (tokenize source).map (fun tokens => tokens.all fun token =>
      decide (token.kind = .number → IsSmallInteger token.text.toList)) = .ok true) :
    HasSmallIntegers source := by
  intro tokens htokens token htoken
  rw [htokens] at h
  exact of_decide_eq_true (List.all_eq_true.mp (Except.ok.inj h) token htoken)

/-! ## Sources that are not told apart -/

/-- Two sources with small integers only hold different programs whose texts are the same. -/
def Indistinct (source source' : String) : Prop :=
  HasSmallIntegers source ∧ HasSmallIntegers source' ∧
    ∃ program program', parse source maxLimit = .ok program ∧
      parse source' maxLimit = .ok program' ∧
      program.render .text {} = program'.render .text {} ∧ program ≠ program'

/-- Some observation tells the programs apart, but not their texts. -/
theorem Indistinct.of_observation
    {source source' : String}
    (hintegers : HasSmallIntegers source)
    (hintegers' : HasSmallIntegers source')
    (text : String)
    (observe : Chunk → Bool)
    (h : (parse source maxLimit).map (fun program => (program.render .text {}, observe program)) =
      .ok (text, true))
    (h' : (parse source' maxLimit).map
      (fun program => (program.render .text {}, observe program)) = .ok (text, false)) :
    Indistinct source source' := by
  refine ⟨hintegers, hintegers', ?_⟩
  cases hparse : parse source maxLimit with
  | error error =>
      rw [hparse] at h
      cases h
  | ok program =>
      cases hparse' : parse source' maxLimit with
      | error error =>
          rw [hparse'] at h'
          cases h'
      | ok program' =>
          rw [hparse] at h
          rw [hparse'] at h'
          obtain ⟨htext, hobserve⟩ := Prod.mk.inj (Except.ok.inj h)
          obtain ⟨htext', hobserve'⟩ := Prod.mk.inj (Except.ok.inj h')
          refine ⟨program, program', rfl, rfl, htext.trans htext'.symm, ?_⟩
          rintro rfl
          rw [hobserve] at hobserve'
          cases hobserve'

/-- A call of a sum has the text of a sum with a call in it, and an entry whose key opens with a
long bracket may have the text of an entry without a key. -/
theorem indistinct_sources :
    Indistinct "return (a + b)(c)" "return a + b(c)" ∧
      Indistinct "return \x7b[ [=[x]] .. f(\"]=] ] = g('\", [[ ' .. [[y]])\x7d"
        "return \x7b[[=[x]] .. f(\"]=]] = g('\", [[ ' .. [[y]])\x7d" := by
  constructor
  · exact .of_observation (.of_check (by decide +kernel)) (.of_check (by decide +kernel))
      "return a + b(c)"
      (fun program => (program.toElement.findAll .call).any fun call =>
        call.2.any Element.isOperator)
      (by decide +kernel) (by decide +kernel)
  · exact .of_observation (.of_check (by decide +kernel)) (.of_check (by decide +kernel))
      "return \x7b\n    [[=[x]] .. f(\"]=]] = g('\", [[ ' .. [[y]]),\n\x7d"
      (fun program => !(program.toElement.findAll .fieldKey).isEmpty)
      (by decide +kernel) (by decide +kernel)

/-! ## Sources that are told apart -/

theorem Expr.isHead_of_not_isOperation
    {value : Expr}
    (h : value.isOperation = false) :
    value.isHead true = true := by
  cases value with
  | binary op left right => cases h
  | unary op operand => cases h
  | _ => rfl

theorem Law.accepted_gives_readable : Law.Gives .accepted .grouped (.readable true) where
  expr value h h' := by
    cases value with
    | number value =>
        cases value with
        | int value =>
            exact ⟨Number.readsBack_int h, fun _ _ hc => Number.isDigit_of_mem_text_int h hc⟩
        | float value => exact h.elim
    | index value key style =>
        cases style with
        | dot => exact ⟨Expr.isHead_of_not_isOperation h'.1, h.1⟩
        | bracket => exact ⟨Expr.isHead_of_not_isOperation h'.1.1, h'.1.2⟩
    | call callee arguments => exact Expr.isHead_of_not_isOperation h'.1
    | invoke receiver method arguments => exact ⟨Expr.isHead_of_not_isOperation h'.1, h.1⟩
    | function parameters body => exact h.1
    | string text delimiter => exact h
    | name id => exact h
    | _ => trivial
  field field h h' := by
    obtain ⟨key, value, bracketed⟩ := field
    cases key with
    | none => exact h.1
    | some key =>
        cases bracketed with
        | true => exact h'.1
        | false => exact h.1
  stmt stmt h _ := by
    cases stmt with
    | label id => exact h
    | goto id => exact h
    | ifThen test body orelse => trivial
    | breakLoop => trivial
    | semicolon => trivial
    | _ => exact h.1
  block block h _ := h.1

/-- A plain text determines the marks that it spells out, and these determine the program. -/
theorem Chunk.eq_of_toPlain
    {chunk other : Chunk}
    (h : chunk.Obeys (.readable true))
    (h' : other.Obeys (.readable true))
    {width : Nat}
    (htext : chunk.toElement.toPlain width = other.toElement.toPlain width) :
    chunk = other := by
  have hspelled := spelled_toPlain h width
  rw [htext] at hspelled
  exact Chunk.eq_of_marks h h' (hspelled.unique (spelled_toPlain h' width))

/-- Two sources with small integers only, in whose programs no operation is accessed or called and
no key opens with a long bracket, hold the same program if the texts of their programs are the
same. -/
theorem eq_of_render_text
    {source source' : String}
    {limit limit' : Nat}
    {program program' : Chunk}
    (hparse : parse source limit = .ok program)
    (hparse' : parse source' limit' = .ok program')
    (hintegers : HasSmallIntegers source)
    (hintegers' : HasSmallIntegers source')
    (hgrouped : program.Obeys .grouped)
    (hgrouped' : program'.Obeys .grouped)
    (settings : Settings)
    (htext : program.render .text settings = program'.render .text settings) :
    program = program' := by
  have haccepted := Chunk.obeys_of_parse hparse hintegers
  have haccepted' := Chunk.obeys_of_parse hparse' hintegers'
  exact Chunk.eq_of_toPlain (.of_gives Law.accepted_gives_readable haccepted hgrouped)
    (.of_gives Law.accepted_gives_readable haccepted' hgrouped') htext

theorem grouped_nestedDifference : nestedDifference.Obeys .grouped := by
  refine ⟨trivial, ⟨trivial, ⟨trivial, trivial, trivial, trivial, trivial⟩,
    ⟨rfl, trivial, ?_, trivial⟩, trivial⟩, trivial⟩
  exact ⟨trivial, ⟨rfl, trivial, trivial⟩, trivial⟩

/-- Two sources with other blanks, and the same program. -/
theorem eq_of_render_text_nestedDifference :
    nestedDifference.toElement.toPlain 4 ≠ nestedDifference.toElement.toPlain 2 ∧
      HasSmallIntegers (nestedDifference.toElement.toPlain 4) ∧
      HasSmallIntegers (nestedDifference.toElement.toPlain 2) ∧
      ∃ program program',
        parse (nestedDifference.toElement.toPlain 4) maxLimit = .ok program ∧
          parse (nestedDifference.toElement.toPlain 2) maxLimit = .ok program' ∧
          program.Obeys .grouped ∧ program'.Obeys .grouped ∧
          program.render .text {} = program'.render .text {} ∧ program = program' := by
  have hreadable : nestedDifference.Obeys (.readable false) :=
    .of_gives Law.printable_gives_readable printable_nestedDifference printable_nestedDifference
  have hparse : parse (nestedDifference.toElement.toPlain 4) maxLimit = .ok nestedDifference :=
    parse_toPlain hreadable (by decide +kernel)
  have hparse' : parse (nestedDifference.toElement.toPlain 2) maxLimit = .ok nestedDifference :=
    parse_toPlain hreadable (by decide +kernel)
  have hintegers : HasSmallIntegers (nestedDifference.toElement.toPlain 4) :=
    .of_check (by decide +kernel)
  have hintegers' : HasSmallIntegers (nestedDifference.toElement.toPlain 2) :=
    .of_check (by decide +kernel)
  have hgrouped := grouped_nestedDifference
  exact ⟨by decide +kernel, hintegers, hintegers', _, _, hparse, hparse', hgrouped, hgrouped, rfl,
    eq_of_render_text hparse hparse' hintegers hintegers' hgrouped hgrouped {} rfl⟩

end LuaView
