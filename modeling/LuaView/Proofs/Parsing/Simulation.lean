import LuaView.Proofs.Parsing.Rules

/-!
# Simulations

The grammar is written once for all readers of tokens.  A simulation relates the computations of
one reader to those of another, or of one reader to each other, by a rule for each thing that the
grammar asks of a reader.  The rules for what the grammar builds from these things follow, so
whatever a simulation relates need not know the grammar.

A rule tells by its bounds how many tokens may be left before and behind a computation.  Consuming
a token lowers the bound by one, so it is visible in a rule that phrases one level deeper start
behind a token.  A simulation that does not count the tokens disregards the bounds.
-/

namespace LuaView

open LuaView.Parser (anyKind Step)

/-- A relation between the computations of two readers that every reading step keeps.

`Agree k n front first second` relates two computations where at most `k` tokens are left and the
kind of the next one is in `front`; at most `n` tokens are left behind them. -/
structure Simulation (m m' : Type → Type)
    [TokenReader m] [LawfulMonad m] [TokenReader m'] [LawfulMonad m'] where
  /-- What two tokens have in common that are read at the same time. -/
  same : Token → Token → Prop
  Agree {α : Type} : Nat → Nat → (Kind → Prop) → m α → m' α → Prop
  text_eq {token other : Token} : same token other → token.text = other.text
  weaken {α : Type} {k n : Nat} {front : Kind → Prop} {first : m α} {second : m' α} :
    Agree k n anyKind first second → Agree k n front first second
  narrow {α : Type} {j k n : Nat} {front : Kind → Prop} {first : m α} {second : m' α} :
    Agree k n front first second → j ≤ k → Agree j n front first second
  widen {α : Type} {k j n : Nat} {front : Kind → Prop} {first : m α} {second : m' α} :
    Agree k j front first second → j ≤ n → Agree k n front first second
  pure {α : Type} {k n : Nat} (value : α) :
    k ≤ n → Agree k n anyKind (Pure.pure value) (Pure.pure value)
  bind {α β : Type} {k j n : Nat} {front : Kind → Prop} {first : m α} {second : m' α}
    {next : α → m β} {next' : α → m' β} :
    Agree k j front first second → (∀ value, Agree j n anyKind (next value) (next' value)) →
      Agree k n front (first >>= next) (second >>= next')
  peekKind_bind {β : Type} {k n : Nat} {front : Kind → Prop}
    {next : Kind → m β} {next' : Kind → m' β} :
    (∀ kind, front kind → Agree k n (· = kind) (next kind) (next' kind)) →
      Agree k n front (TokenReader.peekKind >>= next) (TokenReader.peekKind >>= next')
  peek_bind {β : Type} {k n : Nat} {next : Token → m β} {next' : Token → m' β} :
    (∀ token other, same token other → Agree k n anyKind (next token) (next' other)) →
      Agree k n anyKind (TokenReader.peek >>= next) (TokenReader.peek >>= next')
  unexpected {α : Type} {k n : Nat} (expected : String) :
    Agree k n anyKind (TokenReader.unexpected expected : m α) (TokenReader.unexpected expected)
  /-- The only error that is placed at a token which is consumed before. -/
  notAssignable {α : Type} {k n : Nat} {token other : Token} :
    same token other →
      Agree k n anyKind (TokenReader.fail .notAssignable token.span : m α)
        (TokenReader.fail .notAssignable other.span)
  numeral {n : Nat} : Agree (n + 1) n (· = .number) Grammar.numeral Grammar.numeral
  advance_bind {β : Type} {n : Nat} {kind : Kind} {next : Token → m β} {next' : Token → m' β} :
    kind ≠ .eof →
      (∀ token other, same token other → Agree n n anyKind (next token) (next' other)) →
        Agree (n + 1) n (· = kind) (TokenReader.advance >>= next) (TokenReader.advance >>= next')
  /-- Consuming a token where it may be the end of the source, which stays. -/
  advance_any_bind {β : Type} {n : Nat} {next : Token → m β} {next' : Token → m' β} :
    (∀ token other, same token other → Agree n n anyKind (next token) (next' other)) →
      Agree n n anyKind (TokenReader.advance >>= next) (TokenReader.advance >>= next')
  loop {α : Type} {n : Nat} {step : α → m (Step α)} {step' : α → m' (Step α)} :
    (∀ value, Agree n n anyKind (step value) (step' value)) →
      ∀ value, Agree n n anyKind (TokenReader.loop step value) (TokenReader.loop step' value)

/-- At most `n` of `k` tokens are left behind one that is consumed. -/
class Leaves (k n : Nat) : Prop where
  le : k ≤ n + 1

instance leaves_self {n : Nat} : Leaves n n := ⟨Nat.le_succ n⟩

instance leaves_succ {n : Nat} : Leaves (n + 1) n := ⟨Nat.le_refl (n + 1)⟩

section Rules

variable {m m' : Type → Type} [TokenReader m] [LawfulMonad m] [TokenReader m'] [LawfulMonad m']
variable {sim : Simulation m m'}
variable {α β : Type}
variable {j k n : Nat}
variable {front : Kind → Prop}

namespace Simulation.Agree

variable {first : m α} {second : m' α}

theorem weaken (h : sim.Agree k n anyKind first second) : sim.Agree k n front first second :=
  sim.weaken h

/-- Fewer tokens may be given. -/
theorem narrow (h : sim.Agree k n front first second) (hjk : j ≤ k) :
    sim.Agree j n front first second :=
  sim.narrow h hjk

/-- More tokens may be left. -/
theorem widen (h : sim.Agree k j front first second) (hjn : j ≤ n) :
    sim.Agree k n front first second :=
  sim.widen h hjn

theorem pure (value : α) (hkn : k ≤ n) :
    sim.Agree k n front (Pure.pure value) (Pure.pure value) :=
  (sim.pure value hkn).weaken

/-- Two computations in a row agree if the first ones do, and the second ones for every value. -/
theorem bind
    {next : α → m β}
    {next' : α → m' β}
    (h : sim.Agree k j front first second)
    (hnext : ∀ value, sim.Agree j n anyKind (next value) (next' value)) :
    sim.Agree k n front (first >>= next) (second >>= next') :=
  sim.bind h hnext

/-- The last step of a phrase only shapes its result. -/
theorem map (h : sim.Agree k n front first second) (shape : α → β) :
    sim.Agree k n front (first >>= fun value => Pure.pure (shape value))
      (second >>= fun value => Pure.pure (shape value)) :=
  h.bind fun value => pure (shape value) (Nat.le_refl n)

theorem ite
    {condition : Prop}
    [Decidable condition]
    {other : m α}
    {other' : m' α}
    (h : condition → sim.Agree k n front first second)
    (h' : ¬ condition → sim.Agree k n front other other') :
    sim.Agree k n front (if condition then first else other)
      (if condition then second else other') := by
  split
  · exact h ‹_›
  · exact h' ‹_›

end Simulation.Agree

namespace Grammar

open TokenReader (advance loop peek peekKind unexpected)
open LuaView.Parser (accept commaSeparated expect moreItems name)

/-! ## Looking at tokens -/

theorem agree_peekKind_bind
    {next : Kind → m β}
    {next' : Kind → m' β}
    (h : ∀ kind, front kind → sim.Agree k n (· = kind) (next kind) (next' kind)) :
    sim.Agree k n front (peekKind >>= next) (peekKind >>= next') :=
  sim.peekKind_bind h

theorem agree_peek_bind
    {next : Token → m β}
    {next' : Token → m' β}
    (h : ∀ token other, sim.same token other →
      sim.Agree k n anyKind (next token) (next' other)) :
    sim.Agree k n front (peek >>= next) (peek >>= next') :=
  (sim.peek_bind h).weaken

theorem agree_unexpected (expected : String) :
    sim.Agree k n front (unexpected expected : m α) (unexpected expected) :=
  (sim.unexpected expected).weaken

/-! ## Consuming tokens -/

/-- Behind a token that both readers consume there is one token less. -/
theorem agree_advance_bind
    {kind : Kind}
    (hkind : kind ≠ .eof)
    {next : Token → m β}
    {next' : Token → m' β}
    (h : ∀ token other, sim.same token other → sim.Agree n n anyKind (next token) (next' other))
    [Leaves k n] :
    sim.Agree k n (· = kind) (advance >>= next) (advance >>= next') :=
  (sim.advance_bind hkind h).narrow Leaves.le

/-- Both readers find the token that is expected, or refuse the same one. -/
theorem agree_expect
    {kind : Kind}
    (hkind : kind ≠ .eof)
    [Leaves k n] :
    sim.Agree k n front (expect kind) (expect kind) := by
  refine agree_peekKind_bind fun found _ => .ite ?_ fun _ => agree_unexpected _
  rintro rfl
  exact agree_advance_bind hkind fun _ _ _ => .pure _ (Nat.le_refl n)

theorem agree_expect_bind
    {kind : Kind}
    (hkind : kind ≠ .eof)
    {next : Unit → m β}
    {next' : Unit → m' β}
    (h : sim.Agree n n anyKind (next ()) (next' ()))
    [Leaves k n] :
    sim.Agree k n front (expect kind >>= next) (expect kind >>= next') :=
  (agree_expect hkind).bind fun _ => h

/-- The last token of a phrase. -/
theorem agree_expect_map
    {kind : Kind}
    (hkind : kind ≠ .eof)
    (value : β)
    [Leaves k n] :
    sim.Agree k n front (expect kind >>= fun _ => pure value)
      (expect kind >>= fun _ => pure value) :=
  (agree_expect hkind).map fun _ => value

/-- Both readers read the same name. -/
theorem agree_name [Leaves k n] :
    sim.Agree k n front (name : m Name) name := by
  refine agree_peekKind_bind fun found _ => .ite ?_ fun _ => agree_unexpected _
  rintro rfl
  refine agree_advance_bind (by decide) fun token other hsame => ?_
  rw [sim.text_eq hsame]
  exact .pure _ (Nat.le_refl n)

theorem agree_name_bind
    {next : Name → m β}
    {next' : Name → m' β}
    (h : ∀ id, sim.Agree n n anyKind (next id) (next' id))
    [Leaves k n] :
    sim.Agree k n front (name >>= next) (name >>= next') :=
  agree_name.bind h

theorem agree_name_map
    (shape : Name → β)
    [Leaves k n] :
    sim.Agree k n front (name >>= fun id => pure (shape id))
      (name >>= fun id => pure (shape id)) :=
  agree_name.map shape

/-! ## Repetition -/

/-- Loops agree if their rounds do. -/
theorem agree_loop
    {step : α → m (Step α)}
    {step' : α → m' (Step α)}
    (hstep : ∀ value, sim.Agree n n anyKind (step value) (step' value))
    (value : α) :
    sim.Agree n n front (loop step value) (loop step' value) :=
  (sim.loop hstep value).weaken

/-! ## Tokens that may be there -/

/-- What follows a token that may be there depends on whether it is. -/
theorem accept_bind (kind : Kind) (next : Bool → m β) :
    accept kind >>= next =
      peekKind >>= fun found =>
        if found = kind then advance >>= fun _ => next true else next false := by
  rw [accept, bind_assoc]
  congr 1
  funext found
  split
  · simp only [bind_assoc, pure_bind]
  · simp only [pure_bind]

/-- A token is consumed or left in place. -/
theorem agree_accept_bind
    {kind : Kind}
    (hkind : kind ≠ .eof)
    {next : Bool → m β}
    {next' : Bool → m' β}
    (htrue : sim.Agree n n anyKind (next true) (next' true))
    (hfalse : sim.Agree k n anyKind (next false) (next' false))
    [Leaves k n] :
    sim.Agree k n front (accept kind >>= next) (accept kind >>= next') := by
  rw [accept_bind, accept_bind]
  refine agree_peekKind_bind fun found _ => .ite ?_ fun _ => hfalse.weaken
  rintro rfl
  exact agree_advance_bind hkind fun _ _ _ => htrue

/-- Both readers take the same branch on an optional token. -/
theorem agree_accept_ite
    {kind : Kind}
    (hkind : kind ≠ .eof)
    {first second : m β}
    {first' second' : m' β}
    (hfirst : sim.Agree n n anyKind first first')
    (hsecond : sim.Agree k n anyKind second second')
    [Leaves k n] :
    sim.Agree k n front
      (accept kind >>= fun accepted => if accepted then first else second)
      (accept kind >>= fun accepted => if accepted then first' else second') :=
  agree_accept_bind hkind hfirst hsecond

/-- Further items agree, one by one. -/
theorem agree_moreItems
    {item : m α}
    {item' : m' α}
    (hitem : sim.Agree n n anyKind item item')
    (items : List α) :
    sim.Agree n n front (moreItems item items) (moreItems item' items) := by
  refine agree_loop (fun items => ?_) items
  exact agree_accept_ite (by decide) (hitem.map fun next => Step.again (items ++ [next]))
    (.pure _ (Nat.le_refl n))

/-- Lists of items agree if the items do. -/
theorem agree_commaSeparated
    {item : m α}
    {item' : m' α}
    (hitem : sim.Agree n n anyKind item item') :
    sim.Agree n n front (commaSeparated item) (commaSeparated item') :=
  hitem.weaken.bind fun first => agree_moreItems hitem [first]

end Grammar
end Rules
end LuaView
