import LuaView.Grammar.Metered
import LuaView.Proofs.Parsing.InPlace

/-!
# Credit

A metered run pays for its steps with the tokens that it consumes, each of which is worth four.  It
begins with some credit, and what it has got for tokens and not spent on steps is the credit behind
it.  So a computation that ends with more credit than it began with has consumed a token, and the
steps of any computation are bounded by the tokens that it consumes.

A round of a loop has to earn the step of the round that follows it.  A phrase costs a step, and
needs another one for its own loop, so whoever asks for it must have two in hand.  Since a phrase
begins with one step and gets more only for tokens, it has consumed a token whenever it has two.

The rules below relate a metered computation to the one that it meters, so that both are followed
along their common definition.
-/

namespace LuaView

open LuaView.Parser (anyKind Step)

namespace Machine

variable {machine : Machine}

/-- Where no token is left the next one is still the last one. -/
theorem next_kind_of_length_le
    (hclosed : Token.Closed machine.tokens)
    (hplace : machine.tokens.length ≤ machine.place.current) :
    machine.next.kind = .eof := by
  obtain ⟨last, hlast, heof⟩ := hclosed
  have hmin : min machine.place.current (machine.tokens.length - 1) = machine.tokens.length - 1 :=
    Nat.min_eq_right (by omega)
  rw [next, tokenAt, hmin, List.getD_eq_getElem?_getD, ← List.getLast?_eq_getElem?,
    Option.mem_def.mp hlast]
  exact heof

/-- A token that is consumed is not left. -/
theorem left_advance
    (hclosed : Token.Closed machine.tokens)
    (hnext : machine.next.kind ≠ .eof) :
    machine.advance.left + 1 = machine.left := by
  have hplace : machine.place.current < machine.tokens.length :=
    Nat.lt_of_not_le fun hle => hnext (next_kind_of_length_le hclosed hle)
  have heof : ¬ machine.next.isEof = true := fun h => hnext (beq_iff_eq.mp h)
  rw [advance, if_neg heof, left, left, moveTo]
  simp only
  omega

theorem left_advance_le (machine : Machine) : machine.advance.left ≤ machine.left := by
  unfold advance
  split
  · exact Nat.le_refl _
  · exact Nat.sub_le_sub_left (Nat.le_succ _) _

end Machine

/-- Where a computation takes place: in a closed list, at a depth under a limit, and inside a phrase
that began in front of `asking` tokens. -/
structure Site where
  tokens : List Token
  closed : Token.Closed tokens
  limit : Nat
  depth : Nat
  asking : Nat

/-- What a phrase has in all: the step that it begins with, and what its tokens are worth. -/
def Site.fund (site : Site) : Nat :=
  4 * site.asking + 1

/-- What a credit and the tokens that are left amount to. -/
def Machine.worth (machine : Machine) (credit : Nat) : Nat :=
  credit + 4 * machine.left

/-- The credit behind a computation; a failure needs none. -/
def creditBehind {α : Type} (saved : α → Nat) : Except ParseError α → Nat
  | .ok value => saved value
  | .error _ => 0

namespace Site

/-- The machine is at the site. -/
structure Holds (site : Site) (machine : Machine) : Prop where
  tokens_eq : machine.tokens = site.tokens
  limit_eq : machine.limit = site.limit
  depth_eq : machine.place.depth = site.depth

/-- A run has the given result, at the site.  It takes the same number of steps from any supply, and
together with them the result is worth no more than there was at the beginning. -/
structure Pays
    {α : Type}
    (site : Site)
    (worth : Nat)
    (saved : α → Nat)
    (result : Except ParseError α × Machine)
    (run : Nat → Except Breakdown ((Except ParseError α × Machine) × Nat)) : Prop where
  holds : site.Holds result.2
  paid : ∃ spent, spent + result.2.worth (creditBehind saved result.1) ≤ worth ∧
    ∀ supply, run (spent + supply) = .ok (result, supply)

variable {site : Site}
variable {machine : Machine}

theorem Holds.closed (h : site.Holds machine) : Token.Closed machine.tokens :=
  h.tokens_eq ▸ site.closed

theorem Holds.advance (h : site.Holds machine) : site.Holds machine.advance := by
  unfold Machine.advance
  split
  · exact h
  · exact ⟨h.tokens_eq, h.limit_eq, h.depth_eq⟩

end Site

/-- From a machine at the site whose next token has a kind in `front`, the metered computation does
what the other one does.  It begins with a credit that the phrase can have there, and ends with the
credit `saved`, which may depend on its result. -/
def Affords
    {α : Type}
    (site : Site)
    (credit : Nat)
    (front : Kind → Prop)
    (act : Act α)
    (metered : Metered α)
    (saved : α → Nat) : Prop :=
  ∀ machine, site.Holds machine → machine.worth credit ≤ site.fund →
    front machine.next.kind → site.Pays (machine.worth credit) saved (act machine) (metered machine)

namespace Metered

variable {α β : Type}

theorem bind_apply
    (metered : Metered α)
    (next : α → Metered β)
    (machine : Machine)
    (supply : Nat) :
    (metered >>= next) machine supply =
      match metered machine supply with
      | .ok ((.ok value, after), supply) => next value after supply
      | .ok ((.error error, after), supply) => .ok ((.error error, after), supply)
      | .error breakdown => .error breakdown := by
  change (metered machine supply >>= fun result =>
    ExceptT.bindCont next result.1.1 result.1.2 result.2) = _
  rcases metered machine supply with _ | ⟨⟨_ | _, after⟩, supply⟩ <;> rfl

theorem nested_of_le
    {machine : Machine}
    (h : machine.limit ≤ machine.place.depth)
    (inner : Metered α) :
    nested inner machine = free Act.refuse machine := by
  change (if machine.limit ≤ machine.place.depth then free Act.refuse else _ : Metered α)
    machine = _
  rw [if_pos h]

theorem nested_of_lt
    {machine : Machine}
    (h : machine.place.depth < machine.limit)
    (inner : Metered α)
    (supply : Nat) :
    nested inner machine supply = (inner machine.enter supply).map fun result =>
      ((result.1.1, result.1.2.leave), result.2) := by
  change (if machine.limit ≤ machine.place.depth then free Act.refuse else _ : Metered α)
    machine supply = _
  rw [if_neg (Nat.not_le_of_lt h)]
  change (inner machine.enter supply >>= _) = _
  rcases inner machine.enter supply with _ | ⟨⟨_ | _, after⟩, supply⟩ <;> rfl

end Metered

section Rules

variable {α β : Type}
variable {site : Site}
variable {credit mid : Nat}
variable {front : Kind → Prop}

namespace Site.Pays

variable {worth worth' : Nat}
variable {saved saved' : α → Nat}
variable {result : Except ParseError α × Machine}
variable {run run' : Nat → Except Breakdown ((Except ParseError α × Machine) × Nat)}

theorem mono
    (h : site.Pays worth saved result run)
    (hsaved : ∀ value, saved' value ≤ saved value) :
    site.Pays worth saved' result run := by
  obtain ⟨hholds, spent, hspent, hrun⟩ := h
  refine ⟨hholds, spent, Nat.le_trans ?_ hspent, hrun⟩
  refine Nat.add_le_add_left (Nat.add_le_add_right ?_ _) spent
  cases result.1 with
  | ok value => exact hsaved value
  | error error => exact Nat.le_refl 0

/-- There may be more at the beginning. -/
theorem widen
    (h : site.Pays worth saved result run)
    (hworth : worth ≤ worth') :
    site.Pays worth' saved result run := by
  obtain ⟨hholds, spent, hspent, hrun⟩ := h
  exact ⟨hholds, spent, Nat.le_trans hspent hworth, hrun⟩

/-- A computation that takes no steps. -/
theorem free
    (hholds : site.Holds result.2)
    (hworth : result.2.worth (creditBehind saved result.1) ≤ worth)
    (hrun : ∀ supply, run supply = .ok (result, supply)) :
    site.Pays worth saved result run :=
  ⟨hholds, 0, by rwa [Nat.zero_add], fun supply => by rw [Nat.zero_add, hrun]⟩

/-- A run that takes some steps and goes on as another one does. -/
theorem behind
    (h : site.Pays worth saved result run)
    {spent : Nat}
    (hrun : ∀ supply, run' (spent + supply) = run supply) :
    site.Pays (spent + worth) saved result run' := by
  obtain ⟨hholds, more, hmore, hrest⟩ := h
  refine ⟨hholds, spent + more, by omega, fun supply => ?_⟩
  rw [Nat.add_assoc, hrun, hrest]

end Site.Pays

namespace Affords

variable {act : Act α} {metered : Metered α}
variable {saved saved' : α → Nat}

theorem weaken (h : Affords site credit anyKind act metered saved) :
    Affords site credit front act metered saved :=
  fun machine hholds hfund _ => h machine hholds hfund trivial

/-- Less may be left. -/
theorem mono
    (h : Affords site credit front act metered saved)
    (hsaved : ∀ value, saved' value ≤ saved value) :
    Affords site credit front act metered saved' :=
  fun machine hholds hfund hfront => (h machine hholds hfund hfront).mono hsaved

/-- What is not needed is left. -/
theorem frame
    (h : Affords site credit front act metered saved)
    (more : Nat) :
    Affords site (more + credit) front act metered fun value => more + saved value := by
  intro machine hholds hfund hfront
  unfold Machine.worth at hfund
  obtain ⟨hafter, spent, hspent, hmetered⟩ :=
    h machine hholds (by unfold Machine.worth; omega) hfront
  refine ⟨hafter, spent, ?_, hmetered⟩
  have hless : creditBehind (fun value => more + saved value) (act machine).1 ≤
      more + creditBehind saved (act machine).1 := by
    cases (act machine).1 with
    | ok value => exact Nat.le_refl _
    | error error => exact Nat.zero_le _
  unfold Machine.worth at hspent ⊢
  omega

/-- Of a computation it matters only what it does at the site, with what the phrase can have. -/
theorem of_eq
    {other : Act α}
    (h : Affords site credit front act metered saved)
    (hother : ∀ machine, site.Holds machine → machine.worth credit ≤ site.fund →
      other machine = act machine) :
    Affords site credit front other metered saved := by
  intro machine hholds hfund hfront
  rw [hother machine hholds hfund]
  exact h machine hholds hfund hfront

/-- Computations with the same metered run do the same. -/
theorem apply_eq
    {other : Act α}
    {machine : Machine}
    (h : Affords site credit anyKind act metered saved)
    (hother : Affords site credit anyKind other metered saved')
    (hholds : site.Holds machine)
    (hfund : machine.worth credit ≤ site.fund) :
    other machine = act machine := by
  obtain ⟨-, spent, -, hrun⟩ := h machine hholds hfund trivial
  obtain ⟨-, more, -, hmore⟩ := hother machine hholds hfund trivial
  have hsame := hmore spent
  rw [Nat.add_comm, hrun more] at hsame
  exact (congrArg Prod.fst (Except.ok.inj hsame)).symm

theorem pure
    (value : α)
    (hvalue : saved value ≤ credit) :
    Affords site credit front (Pure.pure value) (Pure.pure value) saved :=
  fun _ hholds _ _ => .free hholds (Nat.add_le_add_right hvalue _) fun _ => rfl

/-- A computation that only fails. -/
theorem failing
    (hact : ∀ machine, ∃ error, act machine = (.error error, machine)) :
    Affords site credit front act (Metered.free act) saved := by
  intro machine hholds _ _
  obtain ⟨error, heq⟩ := hact machine
  unfold Metered.free
  rw [heq]
  exact .free hholds (Nat.add_le_add_right (Nat.zero_le credit) _) fun _ => rfl

/-- The second computation begins with the credit that the first one leaves. -/
theorem bind
    {next : α → Act β}
    {next' : α → Metered β}
    {saved : β → Nat}
    (h : Affords site credit front act metered fun _ => mid)
    (hnext : ∀ value, Affords site mid anyKind (next value) (next' value) saved) :
    Affords site credit front (act >>= next) (metered >>= next') saved := by
  intro machine hholds hfund hfront
  obtain ⟨hafter, spent, hspent, hmetered⟩ := h machine hholds hfund hfront
  rw [Act.bind_apply]
  rcases hact : act machine with ⟨error | value, after⟩
  · rw [hact] at hafter hspent hmetered
    refine ⟨hafter, spent, hspent, fun supply => ?_⟩
    rw [Metered.bind_apply, hmetered]
  · rw [hact] at hafter hspent hmetered
    have hrest : after.worth mid ≤ machine.worth credit :=
      Nat.le_trans (Nat.le_add_left _ _) hspent
    have hpays := hnext value after hafter (hrest.trans hfund) trivial
    refine (hpays.behind fun supply => ?_).widen hspent
    rw [Metered.bind_apply, hmetered]

/-- The last step of a phrase only shapes its result. -/
theorem map
    {saved : β → Nat}
    (h : Affords site credit front act metered fun _ => mid)
    (shape : α → β)
    (hsaved : ∀ value, saved (shape value) ≤ mid) :
    Affords site credit front (act >>= fun value => Pure.pure (shape value))
      (metered >>= fun value => Pure.pure (shape value)) saved :=
  h.bind fun value => pure (shape value) (hsaved value)

theorem ite
    {condition : Prop}
    [Decidable condition]
    {other : Act α}
    {other' : Metered α}
    (h : condition → Affords site credit front act metered saved)
    (h' : ¬ condition → Affords site credit front other other' saved) :
    Affords site credit front (if condition then act else other)
      (if condition then metered else other') saved := by
  split
  · exact h ‹_›
  · exact h' ‹_›

end Affords

namespace Grammar

open TokenReader (advance peek peekKind peekSecondKind unexpected)
open LuaView.Parser (accept commaSeparated expect moreItems name)

variable {saved : β → Nat}

/-! ## Looking at tokens -/

theorem affords_peekKind_bind
    {next : Kind → Act β}
    {next' : Kind → Metered β}
    (h : ∀ kind, front kind → Affords site credit (· = kind) (next kind) (next' kind) saved) :
    Affords site credit front (peekKind >>= next) (peekKind >>= next') saved :=
  fun machine hholds hfund hfront => h machine.next.kind hfront machine hholds hfund rfl

theorem affords_peek_bind
    {next : Token → Act β}
    {next' : Token → Metered β}
    (h : ∀ token, Affords site credit front (next token) (next' token) saved) :
    Affords site credit front (peek >>= next) (peek >>= next') saved :=
  fun machine => h machine.next machine

theorem affords_peekSecondKind_bind
    {next : Kind → Act β}
    {next' : Kind → Metered β}
    (h : ∀ kind, Affords site credit front (next kind) (next' kind) saved) :
    Affords site credit front (peekSecondKind >>= next) (peekSecondKind >>= next') saved :=
  fun machine => h (machine.tokenAt (machine.place.current + 1)).kind machine

/-! ## Failing -/

theorem affords_fail (cause : ParseError.Cause) (span : Span) :
    Affords site credit front (TokenReader.fail cause span) (TokenReader.fail cause span) saved :=
  .failing fun _ => ⟨_, rfl⟩

theorem affords_unexpected (expected : String) :
    Affords site credit front (unexpected expected) (unexpected expected) saved :=
  .failing fun _ => ⟨_, rfl⟩

/-! ## Consuming tokens -/

/-- A token that is not the end of the source adds its worth to the credit. -/
theorem affords_advance_bind
    {kind : Kind}
    (hkind : kind ≠ .eof)
    {next : Token → Act β}
    {next' : Token → Metered β}
    (h : ∀ token, Affords site (credit + 4) anyKind (next token) (next' token) saved) :
    Affords site credit (· = kind) (advance >>= next) (advance >>= next') saved := by
  rintro machine hholds hfund rfl
  have hworth : machine.advance.worth (credit + 4) = machine.worth credit := by
    have hleft := Machine.left_advance hholds.closed hkind
    unfold Machine.worth
    omega
  have hnext := h machine.next machine.advance hholds.advance
  rw [hworth] at hnext
  exact hnext hfund trivial

/-- Consuming a token where it may be the end of the source, which stays. -/
theorem affords_advance_any_bind
    {next : Token → Act β}
    {next' : Token → Metered β}
    (h : ∀ token, Affords site credit anyKind (next token) (next' token) saved) :
    Affords site credit front (advance >>= next) (advance >>= next') saved := by
  intro machine hholds hfund _
  have hworth : machine.advance.worth credit ≤ machine.worth credit :=
    Nat.add_le_add_left (Nat.mul_le_mul_left 4 machine.left_advance_le) credit
  have hnext := h machine.next machine.advance hholds.advance (hworth.trans hfund) trivial
  exact hnext.widen hworth

/-- A token that is expected and found adds its worth to the credit. -/
theorem affords_expect
    {kind : Kind}
    (hkind : kind ≠ .eof) :
    Affords site credit front (expect kind) (expect kind) fun _ => credit + 4 := by
  refine affords_peekKind_bind fun found _ => .ite ?_ fun _ => affords_unexpected _
  rintro rfl
  exact affords_advance_bind hkind fun _ => .pure _ (Nat.le_refl _)

theorem affords_expect_bind
    {kind : Kind}
    (hkind : kind ≠ .eof)
    {next : Unit → Act β}
    {next' : Unit → Metered β}
    (h : Affords site (credit + 4) anyKind (next ()) (next' ()) saved) :
    Affords site credit front (expect kind >>= next) (expect kind >>= next') saved :=
  (affords_expect hkind).bind fun _ => h

/-- The last token of a phrase. -/
theorem affords_expect_map
    {kind : Kind}
    (hkind : kind ≠ .eof)
    (value : β)
    (hvalue : saved value ≤ credit + 4) :
    Affords site credit front (expect kind >>= fun _ => pure value)
      (expect kind >>= fun _ => pure value) saved :=
  (affords_expect hkind).map (fun _ => value) fun _ => hvalue

theorem affords_name :
    Affords site credit front (name : Act Name) name fun _ => credit + 4 := by
  refine affords_peekKind_bind fun found _ => .ite ?_ fun _ => affords_unexpected _
  rintro rfl
  exact affords_advance_bind (by decide) fun _ => .pure _ (Nat.le_refl _)

theorem affords_name_bind
    {next : Name → Act β}
    {next' : Name → Metered β}
    (h : ∀ id, Affords site (credit + 4) anyKind (next id) (next' id) saved) :
    Affords site credit front (name >>= next) (name >>= next') saved :=
  affords_name.bind h

/-! ## Tokens that may be there -/

/-- A token is consumed or left in place. -/
theorem affords_accept_bind
    {kind : Kind}
    (hkind : kind ≠ .eof)
    {next : Bool → Act β}
    {next' : Bool → Metered β}
    (htrue : Affords site (credit + 4) anyKind (next true) (next' true) saved)
    (hfalse : Affords site credit anyKind (next false) (next' false) saved) :
    Affords site credit front (accept kind >>= next) (accept kind >>= next') saved := by
  rw [accept_bind, accept_bind]
  refine affords_peekKind_bind fun found _ => .ite ?_ fun _ => hfalse.weaken
  rintro rfl
  exact affords_advance_bind hkind fun _ => htrue

theorem affords_accept_ite
    {kind : Kind}
    (hkind : kind ≠ .eof)
    {first second : Act β}
    {first' second' : Metered β}
    (hfirst : Affords site (credit + 4) anyKind first first' saved)
    (hsecond : Affords site credit anyKind second second' saved) :
    Affords site credit front
      (accept kind >>= fun accepted => if accepted then first else second)
      (accept kind >>= fun accepted => if accepted then first' else second') saved :=
  affords_accept_bind hkind hfirst hsecond

end Grammar

/-! ## Repetition -/

open Classical in
/-- What a round of a loop has to leave: the step of the next round, unless it is the last one and
has found nothing. -/
noncomputable def roundCredit (credit : Nat) (value : α) : Step α → Nat
  | .again _ => credit + 1
  | .done result => if result = value then credit else credit + 1

theorem roundCredit_le (credit : Nat) (value : α) (outcome : Step α) :
    roundCredit credit value outcome ≤ credit + 1 := by
  cases outcome with
  | again result => exact Nat.le_refl _
  | done result =>
      simp only [roundCredit]
      split <;> omega

/-- The last round leaves the credit that the loop began with. -/
theorem le_roundCredit_done (credit : Nat) (value result : α) :
    credit ≤ roundCredit credit value (.done result) := by
  simp only [roundCredit]
  split <;> omega

/-- Credit for another round shows that something has been found. -/
theorem lt_roundCredit
    {value : α}
    {outcome : Step α}
    (houtcome : outcome ≠ .done value) :
    credit < roundCredit credit value outcome := by
  cases outcome with
  | again result => exact Nat.lt_succ_self credit
  | done result =>
      have hresult : result ≠ value := fun heq => houtcome (congrArg Step.done heq)
      simp only [roundCredit, if_neg hresult]
      exact Nat.lt_succ_self credit

namespace Affords

/-- The round that finds nothing is the last one. -/
theorem done (value : α) :
    Affords site credit front (Pure.pure (Step.done value)) (Pure.pure (Step.done value))
      (roundCredit credit value) :=
  .pure _ (if_pos rfl).le

/-- A round that has found something, as its credit shows. -/
theorem found
    {value : α}
    (outcome : Step α)
    {base : Nat}
    (hbase : base + 1 ≤ credit) :
    Affords site credit front (Pure.pure outcome) (Pure.pure outcome) (roundCredit base value) :=
  .pure outcome ((roundCredit_le base value outcome).trans hbase)

/-- A round that ends with what is found. -/
theorem round
    {act : Act β}
    {metered : Metered β}
    {value : α}
    (h : Affords site credit front act metered fun _ => mid)
    (shape : β → Step α)
    {base : Nat}
    (hbase : base + 1 ≤ mid) :
    Affords site credit front (act >>= fun result => Pure.pure (shape result))
      (metered >>= fun result => Pure.pure (shape result)) (roundCredit base value) :=
  h.map shape fun _ => (roundCredit_le base value _).trans hbase

/-- A loop begins with the step of its first round, and every round earns the step of the one behind
it. -/
theorem loop
    {step : α → Act (Step α)}
    {step' : α → Metered (Step α)}
    (hstep : ∀ value,
      Affords site credit anyKind (step value) (step' value) (roundCredit credit value))
    (value : α) :
    Affords site (credit + 1) front (TokenReader.loop step value) (TokenReader.loop step' value)
      fun _ => credit := by
  intro machine hholds hfund hfront
  clear hfront
  change site.Pays _ _ (Act.loop step value machine) (Metered.loop step' value machine)
  induction hleft : machine.left using Nat.strongRecOn generalizing machine value with
  | _ left ih =>
      have hfirst : machine.worth (credit + 1) = machine.worth credit + 1 :=
        Nat.add_right_comm credit 1 _
      obtain ⟨hafter, spent, hspent, hmetered⟩ := hstep value machine hholds (by omega) trivial
      rw [Act.loop]
      rcases hround : step value machine with ⟨error | ⟨result | result⟩, after⟩
      · rw [hround] at hafter hspent hmetered
        refine ⟨hafter, spent + 1, ?_, fun supply => ?_⟩
        · simp only [creditBehind] at hspent ⊢
          omega
        · rw [Nat.add_right_comm, Metered.loop, hmetered]
      · rw [hround] at hafter hspent hmetered
        have hspent : spent + after.worth (credit + 1) ≤ machine.worth credit := hspent
        -- The step of the next round is there, so a token has been consumed for it.
        have hless : after.left < machine.left := by
          unfold Machine.worth at hspent
          omega
        have hrest := ih after.left (hleft ▸ hless) result after hafter (by omega) rfl
        have hsteps : ∀ supply, Metered.loop step' value machine (spent + 1 + supply) =
            Metered.loop step' result after supply := by
          intro supply
          rw [Nat.add_right_comm, Metered.loop, hmetered]
          simp only [if_pos hless]
        simp only [if_pos hless]
        exact (hrest.behind hsteps).widen (by omega)
      · rw [hround] at hafter hspent hmetered
        have hsaved := le_roundCredit_done credit value result
        refine ⟨hafter, spent + 1, ?_, fun supply => ?_⟩
        · simp only [creditBehind, Machine.worth] at hspent ⊢
          omega
        · rw [Nat.add_right_comm, Metered.loop, hmetered]

end Affords

namespace Parser

variable {m : Type → Type} [TokenReader m]

/-- One more item, if a comma stands in front of it. -/
def itemStep (item : m α) (items : List α) : m (Step (List α)) := do
  if ← acceptSymbol .comma then
    let next ← item
    return .again (items ++ [next])
  else return .done items

theorem moreItems_eq_loop (item : m α) : moreItems item = TokenReader.loop (itemStep item) :=
  rfl

end Parser

namespace Grammar

open LuaView.Parser (commaSeparated itemStep moreItems moreItems_eq_loop)

variable {item : Act α} {item' : Metered α}

theorem affords_itemStep
    (hitem : Affords site 2 anyKind item item' fun _ => 3)
    (items : List α) :
    Affords site credit front (itemStep item items) (itemStep item' items)
      (roundCredit credit items) := by
  refine affords_accept_ite (by decide) ?_ (.done items)
  exact (hitem.frame (credit + 2)).round (fun next => Step.again (items ++ [next])) (by omega)

/-- A round finds out that no comma follows, so one step has to be left for it. -/
theorem affords_moreItems
    (hitem : Affords site 2 anyKind item item' fun _ => 3)
    (items : List α) :
    Affords site (credit + 1) front (moreItems item items) (moreItems item' items)
      fun _ => credit := by
  rw [moreItems_eq_loop, moreItems_eq_loop]
  exact .loop (affords_itemStep hitem) items

/-- The first item of a list leaves the step that the round behind it needs. -/
theorem affords_commaSeparated
    (hitem : Affords site 2 anyKind item item' fun _ => 3) :
    Affords site (credit + 2) front (commaSeparated item) (commaSeparated item')
      fun _ => credit + 2 :=
  (hitem.frame credit).weaken.bind fun first => affords_moreItems hitem [first]

end Grammar

/-! ## Phrases -/

namespace Affords

variable {act : Act α} {metered : Metered α}
variable {saved : α → Nat}

/-- A level is left as deep as it was entered. -/
theorem nested
    (h : Affords { site with depth := site.depth + 1 } credit anyKind act metered saved) :
    Affords site credit front (Act.nested act) (Metered.nested metered) saved := by
  intro machine hholds hfund _
  by_cases hlevel : machine.limit ≤ machine.place.depth
  · rw [Act.nested_of_le hlevel, Metered.nested_of_le hlevel]
    exact .free hholds (Nat.add_le_add_right (Nat.zero_le credit) _) fun _ => rfl
  · have hroom := Nat.lt_of_not_le hlevel
    have henter : Site.Holds { site with depth := site.depth + 1 } machine.enter :=
      ⟨hholds.tokens_eq, hholds.limit_eq, congrArg Nat.succ hholds.depth_eq⟩
    obtain ⟨hafter, spent, hspent, hmetered⟩ := h machine.enter henter hfund trivial
    rw [Act.nested_of_lt hroom]
    refine ⟨⟨hafter.tokens_eq, hafter.limit_eq, ?_⟩, spent, hspent, fun supply => ?_⟩
    · exact congrArg Nat.pred hafter.depth_eq
    · rw [Metered.nested_of_lt hroom, hmetered]
      rfl

/-- Below the last level a phrase is refused before it takes a step. -/
theorem refused
    (hlevel : site.limit ≤ site.depth) :
    Affords site credit front Act.refuse (Metered.nested metered) saved := by
  intro machine hholds _ _
  rw [Metered.nested_of_le (by rwa [hholds.limit_eq, hholds.depth_eq])]
  exact .free hholds (Nat.add_le_add_right (Nat.zero_le credit) _) fun _ => rfl

/-- The step of a phrase is paid, and another one is left for its loop. -/
theorem descend
    {body : (left : Nat) → left < site.asking → Metered α}
    (h : ∀ left hleft, Affords { site with asking := left } 1 anyKind act (body left hleft) saved) :
    Affords site 2 front act (Metered.descend site.asking body) saved := by
  intro machine hholds hfund _
  have hleft : machine.left < site.asking := by
    unfold Machine.worth Site.fund at hfund
    omega
  -- The phrase begins with one step and all tokens that are left, which is its whole fund.
  have hbegin : machine.worth 1 ≤ Site.fund { site with asking := machine.left } :=
    Nat.le_of_eq (Nat.add_comm 1 _)
  have hholds' : Site.Holds { site with asking := machine.left } machine :=
    ⟨hholds.tokens_eq, hholds.limit_eq, hholds.depth_eq⟩
  obtain ⟨hafter, spent, hspent, hmetered⟩ := h machine.left hleft machine hholds' hbegin trivial
  refine ⟨⟨hafter.tokens_eq, hafter.limit_eq, hafter.depth_eq⟩, spent + 1, ?_, fun supply => ?_⟩
  · unfold Machine.worth at hspent ⊢
    omega
  · rw [Nat.add_right_comm, Metered.descend, dif_pos hleft, hmetered]

end Affords
end Rules
end LuaView
