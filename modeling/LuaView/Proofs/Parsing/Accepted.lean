import LuaView.Proofs.Parsing.ParsedPrograms

/-!
# Programs with small integers only

In the program of a source whose numerals are decimal integers below `2 ^ 63`, a number is an
integer which is not negative.  The law that such programs obey says so of their numbers, and of
their texts that they can be quoted again; the rest of it is what the grammar asks of any program.
-/

namespace LuaView

/-- A decimal integer below `2 ^ 63`. -/
def IsSmallInteger (numeral : List Char) : Prop :=
  numeral.all Char.isDigit = true ∧ CharClass.digitsValue 10 numeral < 2 ^ 63

instance (numeral : List Char) : Decidable (IsSmallInteger numeral) :=
  inferInstanceAs (Decidable (_ ∧ _))

/-- What the grammar asks of programs without other numerals. -/
def Law.accepted : Law where
  expr
    | .name id => IsName id.toList
    | .number (.int value) => 0 ≤ value.toInt
    | .number (.float _) => False
    | .string text delimiter => (Mark.mk (.string delimiter) text).Admitted true
    | .function parameters _ => Expr.areParameters parameters = true
    | .index _ key .dot => key.isName = true
    | .invoke _ method _ => IsName method.toList
    | _ => True
  field
    | .mk none _ bracketed => bracketed = false
    | .mk (some key) _ false => key.isName = true
    | _ => True
  stmt := Stmt.IsGrammatical
  block := Block.ReturnsLast

/-- An integer that is not negative, or a text that can be quoted. -/
def Expr.IsPlainLiteral : Expr → Prop
  | .number (.int value) => 0 ≤ value.toInt
  | .number (.float _) => False
  | .string text delimiter => (Mark.mk (.string delimiter) text).Admitted true
  | _ => True

/-- The literals that a token is read as are plain, if it is no numeral but that of a small
integer. -/
theorem Token.fills_plainLiteral
    {token : Token}
    {spelling : List Char}
    (h : token.kind.Spells token.text.toList spelling)
    (hinteger : token.kind = .number → IsSmallInteger token.text.toList) :
    token.Fills Expr.IsPlainLiteral := by
  refine ⟨(token.fills_of_spelled h).name, fun hkind value hvalue => ?_,
    fun delimiter hkind => ?_⟩
  · obtain ⟨hdigits, hlimit⟩ := hinteger hkind
    have hnonempty : token.text.toList ≠ [] := by
      intro hnil
      rw [hnil] at hvalue
      cases hvalue
    rw [Number.ofNumeral?_of_digits hnonempty (List.all_eq_true.mp hdigits) hlimit] at hvalue
    obtain rfl := Option.some.inj hvalue
    show 0 ≤ (Int64.ofNat _).toInt
    rw [Int64.toInt_ofNat_of_lt hlimit]
    exact Int.natCast_nonneg _
  · rw [hkind] at h
    refine ⟨?_, nofun⟩
    cases delimiter with
    | single => exact .inl h.1
    | double => exact .inl h.1
    | long => exact .inr ⟨rfl, rfl⟩

/-- A step that is the default is the integer one, since there are no floats. -/
theorem Expr.eq_one_of_isDefaultStep
    {step : Expr}
    (h : step.Obeys (.parsed IsPlainLiteral))
    (hdefault : step.isDefaultStep = true) :
    step = .int 1 := by
  cases step with
  | number value =>
      cases value with
      | int value =>
          have hone : value = 1 := by simpa [Expr.isDefaultStep, Number.isOne] using hdefault
          rw [hone]
          rfl
      | float value => exact h.elim
  | _ => cases hdefault

theorem Law.parsed_gives_accepted :
    Law.Gives (.parsed Expr.IsPlainLiteral) (.parsed Expr.IsPlainLiteral) .accepted where
  expr value h _ := by
    cases value with
    | number value =>
        cases value with
        | int value => exact h
        | float value => exact h
    | index value key style =>
        cases style with
        | dot => exact h.1
        | bracket => trivial
    | invoke receiver method arguments => exact h.1
    | function parameters body => exact h.1
    | string text delimiter => exact h
    | name id => exact h
    | _ => trivial
  field field h _ := by
    obtain ⟨key, value, bracketed⟩ := field
    cases key with
    | none => exact h.1
    | some key =>
        cases bracketed with
        | true => trivial
        | false => exact h.1
  stmt stmt h _ := by
    cases stmt with
    | label id => exact h
    | goto id => exact h
    | numericFor counter start stop step body =>
        exact ⟨h.1, Expr.eq_one_of_isDefaultStep h.2.2.2.1⟩
    | ifThen test body orelse => trivial
    | breakLoop => trivial
    | semicolon => trivial
    | _ => exact h.1
  block block h _ := h.1

/-- A program that was read from a source with small integers only obeys the law. -/
theorem Chunk.obeys_of_parse
    {source : String}
    {limit : Nat}
    {program : Chunk}
    (h : parse source limit = .ok program)
    (hintegers : ∀ tokens, tokenize source = .ok tokens →
      ∀ token ∈ tokens, token.kind = .number → IsSmallInteger token.text.toList) :
    program.Obeys .accepted := by
  obtain ⟨words, pos, htokens, hderives⟩ := derives_of_parse h
  have hone : Expr.IsPlainLiteral (.int 1) := show 0 ≤ (1 : Int64).toInt by decide
  have hfill : AllFill Expr.IsPlainLiteral (words ++ [Token.eof pos]) := fun token htoken =>
    Token.fills_plainLiteral ((partition_of_tokenize htokens).spelled token htoken)
      (hintegers _ htokens token htoken)
  have hparsed : program.Obeys (.parsed Expr.IsPlainLiteral) :=
    obeys_of_derives hone hderives hfill.left
  exact .of_gives Law.parsed_gives_accepted hparsed hparsed

end LuaView
