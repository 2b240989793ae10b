import LuaView.Proofs.Parsing.Agreement
import Mathlib.Data.List.Forall2

/-!
# Two runs side by side

Two parsers are run on lists of tokens that correspond to each other.  They agree if both runs end
in the same way: with the same result, or with errors that correspond.  A comparison may disregard
some errors of the first run, which is then cut off where the second one goes on.

What corresponds is a parameter.  The tokens may be the same or only look the same, and the parsers
may be given other descents.  Every comparison is a simulation.  From this, by induction on the
budget of levels, follows what two runs with different limits, or on tokens with different spans,
have in common.

The lists are closed by the end of the source and have a bounded length.
-/

namespace LuaView

/-- The error is that of a phrase below the last level. -/
def ParseError.IsTooDeep (error : ParseError) : Prop :=
  ∃ limit, error.cause = .tooDeep limit

/-- What is taken for the same in two runs, and which errors cut off the first one. -/
structure Comparison where
  same : Token → Token → Prop
  sameError : ParseError → ParseError → Prop
  cutOff : ParseError → Prop
  kind_eq : ∀ {token other : Token}, same token other → token.kind = other.kind
  text_eq : ∀ {token other : Token}, same token other → token.text = other.text
  error_of_same : ∀ {token other : Token} {cause : ParseError.Cause}, same token other →
    (∀ limit, cause ≠ .tooDeep limit) → sameError ⟨cause, token.span⟩ ⟨cause, other.span⟩

/-- The last token is the end of the source. -/
def Token.Closed (tokens : List Token) : Prop :=
  ∃ last ∈ tokens.getLast?, last.kind = .eof

theorem Token.Closed.tail
    {token : Token}
    {rest : List Token}
    (h : Token.Closed (token :: rest))
    (htoken : token.kind ≠ .eof) :
    Token.Closed rest := by
  obtain ⟨last, hlast, heof⟩ := h
  cases rest with
  | nil =>
      obtain rfl : token = last := Option.some.inj hlast
      exact absurd heof htoken
  | cons next rest =>
      rw [List.getLast?_cons_cons] at hlast
      exact ⟨last, hlast, heof⟩

namespace Comparison

/-- Closed lists of at most `n` tokens that are the same one by one. -/
structure Corresponds
    (comparison : Comparison)
    (n : Nat)
    (tokens others : List Token) : Prop where
  each : List.Forall₂ comparison.same tokens others
  closed : Token.Closed tokens
  short : tokens.length ≤ n

variable {comparison : Comparison}
variable {k n : Nat}
variable {tokens others : List Token}

/-- A correspondence with a bound is one with any larger bound. -/
theorem Corresponds.mono
    (h : comparison.Corresponds k tokens others)
    (hkn : k ≤ n) :
    comparison.Corresponds n tokens others :=
  ⟨h.each, h.closed, Nat.le_trans h.short hkn⟩

/-- There is a next token on both sides. -/
theorem Corresponds.exists_cons
    (h : comparison.Corresponds n tokens others) :
    ∃ token other rest rest', tokens = token :: rest ∧ others = other :: rest' ∧
      comparison.same token other ∧ List.Forall₂ comparison.same rest rest' := by
  obtain ⟨heach, ⟨last, hlast, -⟩, -⟩ := h
  cases heach with
  | nil => cases hlast
  | cons hsame hrest => exact ⟨_, _, _, _, rfl, rfl, hsame, hrest⟩

/-- Some token is always left. -/
theorem Corresponds.length_pos
    (h : comparison.Corresponds n tokens others) :
    0 < n := by
  obtain ⟨token, other, rest, rest', rfl, rfl, -, -⟩ := h.exists_cons
  exact Nat.lt_of_lt_of_le (Nat.succ_pos rest.length) h.short

/-- The next tokens of both lists correspond. -/
theorem Corresponds.next
    (h : comparison.Corresponds n tokens others) :
    comparison.same (nextToken tokens) (nextToken others) := by
  obtain ⟨token, other, rest, rest', rfl, rfl, hsame, -⟩ := h.exists_cons
  exact hsame

theorem Corresponds.next_kind
    (h : comparison.Corresponds n tokens others) :
    (nextToken tokens).kind = (nextToken others).kind :=
  comparison.kind_eq h.next

theorem Corresponds.length_eq
    (h : comparison.Corresponds n tokens others) :
    tokens.length = others.length :=
  h.each.length_eq

/-- Behind a token that is not the end of the source. -/
theorem Corresponds.tail
    {token other : Token}
    {rest rest' : List Token}
    (h : comparison.Corresponds k (token :: rest) (other :: rest'))
    (htoken : token.kind ≠ .eof)
    (hkn : k ≤ n + 1) :
    comparison.Corresponds n rest rest' := by
  obtain ⟨heach, hclosed, hshort⟩ := h
  obtain ⟨-, hrest⟩ := List.forall₂_cons.mp heach
  refine ⟨hrest, hclosed.tail htoken, ?_⟩
  rw [List.length_cons] at hshort
  omega

end Comparison

/-- Two outcomes are the same, and at most `n` tokens are left. -/
def Outcome.Agree
    {α : Type}
    (comparison : Comparison)
    (n : Nat) :
    Outcome α → Outcome α → Prop
  | .ok value rest, .ok other rest' => value = other ∧ comparison.Corresponds n rest rest'
  | .ok _ _, .fail _ _ => False
  | .fail error _, .ok _ _ => comparison.cutOff error
  | .fail error _, .fail other _ => comparison.sameError error other ∨ comparison.cutOff error

namespace Parser

/-- On corresponding lists of at most `k` tokens whose next kind is in `front`, the parsers end in
the same way and leave at most `n` tokens. -/
def Agree
    {α : Type}
    (comparison : Comparison)
    (k n : Nat)
    (front : Kind → Prop)
    (first second : Parser α) : Prop :=
  ∀ tokens others, comparison.Corresponds k tokens others → front (nextToken tokens).kind →
    (first tokens).Agree comparison n (second others)

section Rules

variable {α β : Type}
variable {comparison : Comparison}
variable {j k n : Nat}
variable {front : Kind → Prop}

namespace Agree

theorem weaken
    {first second : Parser α}
    (h : Agree comparison k n anyKind first second) :
    Agree comparison k n front first second :=
  fun tokens others hcorresponds _ => h tokens others hcorresponds trivial

/-- Fewer tokens may be given. -/
theorem narrow
    {first second : Parser α}
    (h : Agree comparison k n front first second)
    (hjk : j ≤ k) :
    Agree comparison j n front first second :=
  fun tokens others hcorresponds hfront => h tokens others (hcorresponds.mono hjk) hfront

/-- More tokens may be left. -/
theorem widen
    {first second : Parser α}
    (h : Agree comparison k j front first second)
    (hjn : j ≤ n) :
    Agree comparison k n front first second := by
  intro tokens others hcorresponds hfront
  have hagree := h tokens others hcorresponds hfront
  revert hagree
  cases first tokens with
  | ok value rest =>
      cases second others with
      | ok other rest' => exact fun hagree => ⟨hagree.1, hagree.2.mono hjn⟩
      | fail other rest' => exact id
  | fail error rest =>
      cases second others with
      | ok other rest' => exact id
      | fail other rest' => exact id

theorem pure
    (value : α)
    (hkn : k ≤ n) :
    Agree comparison k n front (Pure.pure value) (Pure.pure value) :=
  fun _ _ hcorresponds _ => ⟨rfl, hcorresponds.mono hkn⟩

/-- Two parsers agree if their first parts do, and their second parts on what is left. -/
theorem bind
    {first second : Parser α}
    {next next' : α → Parser β}
    (h : Agree comparison k j front first second)
    (hnext : ∀ value, Agree comparison j n anyKind (next value) (next' value)) :
    Agree comparison k n front (first >>= next) (second >>= next') := by
  intro tokens others hcorresponds hfront
  have hagree := h tokens others hcorresponds hfront
  change Outcome.Agree comparison n (Parser.bind first next tokens)
    (Parser.bind second next' others)
  unfold Parser.bind
  revert hagree
  cases first tokens with
  | ok value rest =>
      cases second others with
      | ok other rest' =>
          rintro ⟨rfl, hrest⟩
          exact hnext value rest rest' hrest trivial
      | fail other rest' => exact False.elim
  | fail error rest =>
      cases second others with
      | fail other rest' => exact id
      | ok other rest' =>
          intro hcut
          cases hnext' : next' other rest' with
          | ok result last =>
              simp only [hnext']
              exact hcut
          | fail other last =>
              simp only [hnext']
              exact .inr hcut

end Agree

/-! ## Looking at tokens -/

theorem agree_peekKind_bind
    {next next' : Kind → Parser β}
    (h : ∀ kind, front kind → Agree comparison k n (· = kind) (next kind) (next' kind)) :
    Agree comparison k n front (peekKind >>= next) (peekKind >>= next') := by
  intro tokens others hcorresponds hfront
  have hagree := h _ hfront tokens others hcorresponds rfl
  have hkind := hcorresponds.next_kind
  change Outcome.Agree comparison n (next (nextToken tokens).kind tokens)
    (next' (nextToken others).kind others)
  rw [← hkind]
  exact hagree

theorem agree_peek_bind
    {next next' : Token → Parser β}
    (h : ∀ token other, comparison.same token other →
      Agree comparison k n front (next token) (next' other)) :
    Agree comparison k n front (peek >>= next) (peek >>= next') :=
  fun tokens others hcorresponds hfront =>
    h _ _ hcorresponds.next tokens others hcorresponds hfront

/-- Both parsers see the same kind of token behind the next one. -/
theorem peekSecondKind_eq
    {tokens others : List Token}
    (h : comparison.Corresponds k tokens others) :
    ∃ kind, peekSecondKind tokens = .ok kind tokens ∧ peekSecondKind others = .ok kind others := by
  obtain ⟨token, other, rest, rest', rfl, rfl, hsame, hrest⟩ := h.exists_cons
  cases hrest with
  | nil => exact ⟨token.kind, rfl, by rw [comparison.kind_eq hsame]; rfl⟩
  | @cons second second' _ _ hsecond _ =>
      exact ⟨second.kind, rfl, by rw [comparison.kind_eq hsecond]; rfl⟩

theorem agree_peekSecondKind_bind
    {next next' : Kind → Parser β}
    (h : ∀ kind, Agree comparison k n front (next kind) (next' kind)) :
    Agree comparison k n front (peekSecondKind >>= next) (peekSecondKind >>= next') := by
  intro tokens others hcorresponds hfront
  obtain ⟨kind, hkind, hkind'⟩ := peekSecondKind_eq hcorresponds
  change Outcome.Agree comparison n (Parser.bind peekSecondKind next tokens)
    (Parser.bind peekSecondKind next' others)
  simp only [Parser.bind, hkind, hkind']
  exact h kind tokens others hcorresponds hfront

/-! ## Failing -/

/-- Errors agree if they are placed at corresponding tokens, unless they are about nesting. -/
theorem agree_fail
    {cause : ParseError.Cause}
    {token other : Token}
    (hsame : comparison.same token other)
    (hcause : ∀ limit, cause ≠ .tooDeep limit) :
    Agree comparison k n front (fail cause token.span : Parser α) (fail cause other.span) :=
  fun _ _ _ _ => .inl (comparison.error_of_same hsame hcause)

theorem agree_unexpected (expected : String) :
    Agree comparison k n front (unexpected expected : Parser α) (unexpected expected) := by
  intro tokens others hcorresponds _
  have hsame := hcorresponds.next
  left
  rw [Token.isEof, Token.isEof, comparison.kind_eq hsame, comparison.text_eq hsame]
  refine comparison.error_of_same hsame fun limit => ?_
  split <;> rintro ⟨⟩

/-! ## Consuming tokens -/

/-- Consuming a token lowers the number of tokens on which the rest has to agree. -/
theorem agree_advance_bind
    {kind : Kind}
    (hkind : kind ≠ .eof)
    {next next' : Token → Parser β}
    (h : ∀ token other, comparison.same token other →
      Agree comparison n n anyKind (next token) (next' other)) :
    Agree comparison (n + 1) n (· = kind) (advance >>= next) (advance >>= next') := by
  intro tokens others hcorresponds hfront
  obtain ⟨token, other, rest, rest', rfl, rfl, hsame, -⟩ := hcorresponds.exists_cons
  have htoken : token.kind ≠ .eof := by
    rw [show token.kind = kind from hfront]
    exact hkind
  have hother : other.kind ≠ .eof := comparison.kind_eq hsame ▸ htoken
  have heof : token.isEof = false := beq_eq_false_iff_ne.mpr htoken
  have heof' : other.isEof = false := beq_eq_false_iff_ne.mpr hother
  change Outcome.Agree comparison n (Parser.bind advance next (token :: rest))
    (Parser.bind advance next' (other :: rest'))
  simp only [Parser.bind, advance, heof, heof']
  exact h token other hsame rest rest' (hcorresponds.tail htoken (Nat.le_refl _)) trivial

/-- Consuming a token where it may be the end of the source, which stays. -/
theorem agree_advance_any_bind
    {next next' : Token → Parser β}
    (h : ∀ token other, comparison.same token other →
      Agree comparison n n anyKind (next token) (next' other)) :
    Agree comparison n n anyKind (advance >>= next) (advance >>= next') := by
  intro tokens others hcorresponds _
  by_cases hkind : (nextToken tokens).kind = .eof
  · have hkind' := hcorresponds.next_kind.symm.trans hkind
    obtain ⟨token, other, rest, rest', rfl, rfl, hsame, -⟩ := hcorresponds.exists_cons
    have heof : token.isEof = true := beq_iff_eq.mpr hkind
    have heof' : other.isEof = true := beq_iff_eq.mpr hkind'
    change Outcome.Agree comparison n (Parser.bind advance next (token :: rest))
      (Parser.bind advance next' (other :: rest'))
    simp only [Parser.bind, advance, heof, heof', if_true]
    exact h token other hsame _ _ hcorresponds trivial
  · exact agree_advance_bind hkind h tokens others (hcorresponds.mono (Nat.le_succ n)) rfl

/-- A numeral has the same value wherever it stands. -/
theorem agree_numeral :
    Agree comparison (n + 1) n (· = .number) Grammar.numeral Grammar.numeral := by
  refine agree_advance_bind (by decide) fun token other hsame => ?_
  rw [comparison.text_eq hsame]
  split
  · exact Agree.pure _ (Nat.le_refl n)
  · exact agree_fail hsame nofun

/-! ## Repetition -/

/-- What a step keeps of two runs, every round keeps, and so does the loop. -/
theorem agree_loop
    {step step' : α → Parser (Step α)}
    (hstep : ∀ value, Agree comparison n n anyKind (step value) (step' value))
    (value : α) :
    Agree comparison n n front (loop step value) (loop step' value) := by
  intro tokens others hcorresponds hfront
  clear hfront
  induction hlength : tokens.length using Nat.strongRecOn generalizing tokens others value with
  | _ length ih =>
      have hround := hstep value tokens others hcorresponds trivial
      rw [loop, loop]
      revert hround
      cases step value tokens with
      | ok result rest =>
          cases step' value others with
          | fail other rest' => exact False.elim
          | ok other rest' =>
              rintro ⟨rfl, hrest⟩
              cases result with
              | done result => exact ⟨rfl, hrest⟩
              | again result =>
                  simp only
                  rw [← hcorresponds.length_eq, ← hrest.length_eq]
                  split
                  · rename_i hless
                    exact ih rest.length (hlength ▸ hless) result rest rest' hrest rfl
                  · exact ⟨rfl, hrest⟩
      | fail error rest =>
          cases step' value others with
          | fail other rest' => exact id
          | ok other rest' =>
              intro hcut
              cases other with
              | done result => exact hcut
              | again result =>
                  simp only
                  split
                  · cases loop step' result rest' with
                    | ok result last => exact hcut
                    | fail other last => exact .inr hcut
                  · exact hcut

end Rules
end Parser

open LuaView.Parser (anyKind)

/-- Every comparison is a simulation of the parsers by themselves. -/
def Comparison.simulation (comparison : Comparison) : Simulation Parser Parser where
  same := comparison.same
  Agree := Parser.Agree comparison
  text_eq := comparison.text_eq
  weaken := Parser.Agree.weaken
  narrow := Parser.Agree.narrow
  widen := Parser.Agree.widen
  pure := Parser.Agree.pure
  bind := Parser.Agree.bind
  peekKind_bind := Parser.agree_peekKind_bind
  peek_bind := Parser.agree_peek_bind
  unexpected := Parser.agree_unexpected
  notAssignable hsame := Parser.agree_fail hsame nofun
  numeral := Parser.agree_numeral
  advance_bind hkind h := Parser.agree_advance_bind hkind h
  advance_any_bind := Parser.agree_advance_any_bind
  loop := Parser.agree_loop

/-- The parsers of deeper phrases agree on lists of at most `n` tokens. -/
def Descent.Agree (comparison : Comparison) (n : Nat) (deeper other : Descent) : Prop :=
  ∀ phrase, Parser.Agree comparison n n anyKind (deeper phrase) (other phrase)

namespace Grammar

variable {comparison : Comparison}
variable {n limit limit' budget budget' : Nat}

/-- Parsers that agree on deeper phrases are related by the simulation. -/
theorem descends_of_agree
    {deeper other : Descent}
    (h : deeper.Agree comparison n other) :
    comparison.simulation.Descends n deeper other := by
  refine descends_of_peekSecondKind h fun {next next'} hnext => ?_
  have hagree : ∀ kind, Parser.Agree comparison n n (· = .name) (next kind) (next' kind) := hnext
  exact Parser.agree_peekSecondKind_bind hagree

/-- One more level. -/
theorem agree_phrase_succ
    (h : Descent.Agree comparison n (phrase limit budget) (phrase limit' budget')) :
    Descent.Agree comparison (n + 1) (phrase limit (budget + 1)) (phrase limit' (budget' + 1)) := by
  intro asked
  cases asked with
  | block => exact agree_blockAt (descends_of_agree h)
  | expression least =>
      exact (agree_expressionAt (descends_of_agree h) least).widen (Nat.le_succ n)

/-- Programs agree if all phrases do. -/
theorem agree_chunk
    (h : Descent.Agree comparison n (phrase limit limit) (phrase limit' limit')) :
    Parser.Agree comparison n n anyKind (chunk limit) (chunk limit') :=
  agree_program (descends_of_agree h)

end Grammar

/-! ## Sessions -/

/-- A session is closed by the end of the source. -/
theorem Session.closed_ofTokens (tokens : List Token) (limit : Nat) :
    Token.Closed (Session.ofTokens tokens limit).tokens := by
  unfold Session.ofTokens
  split
  · exact ⟨Token.eof {}, rfl, rfl⟩
  · rename_i last hlast
    by_cases heof : last.isEof = true
    · rw [if_pos heof]
      exact ⟨last, hlast, beq_iff_eq.mp heof⟩
    · rw [if_neg heof]
      exact ⟨Token.eof last.span.stop, List.getLast?_concat .., rfl⟩

theorem Session.limit_ofTokens (tokens : List Token) (limit : Nat) :
    (Session.ofTokens tokens limit).limit = limit := by
  unfold Session.ofTokens
  split <;> rfl

/-- Two results are the same: programs are equal, and errors correspond or cut off the first run. -/
def Comparison.SameResult
    (comparison : Comparison) :
    Except ParseError Chunk → Except ParseError Chunk → Prop
  | .ok program, .ok other => program = other
  | .ok _, .error _ => False
  | .error error, .ok _ => comparison.cutOff error
  | .error error, .error other => comparison.sameError error other ∨ comparison.cutOff error

/-- Sessions whose phrases agree have the same result. -/
theorem Session.sameResult_of_agree
    {comparison : Comparison}
    {session other : Session}
    {n : Nat}
    (htokens : comparison.Corresponds n session.tokens other.tokens)
    (hphrases : Descent.Agree comparison n (Grammar.phrase session.limit session.limit)
      (Grammar.phrase other.limit other.limit)) :
    comparison.SameResult session.parse.1 other.parse.1 := by
  have hagree := Grammar.agree_chunk hphrases session.tokens other.tokens htokens trivial
  unfold Session.parse
  revert hagree
  cases Grammar.chunk session.limit session.tokens with
  | ok program rest =>
      cases Grammar.chunk other.limit other.tokens with
      | ok program' rest' => exact fun hagree => hagree.1
      | fail error' rest' => exact id
  | fail error rest =>
      cases Grammar.chunk other.limit other.tokens with
      | ok program' rest' => exact id
      | fail error' rest' => exact id

end LuaView
