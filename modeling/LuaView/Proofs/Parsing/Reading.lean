import LuaView.Proofs.Parsing.Rules
import LuaView.Proofs.Program.Marks

/-!
# Rules for reading marks

A parser reads marks as a value if it gives back that value on any tokens with these marks, and
leaves what follows, as long as the next kind allows it to stop there.  Unlike the contracts for all
outcomes, these rules say that a parser succeeds, so they look at what is behind the marks: a parser
that stops at some kinds only has to be followed by marks that lead to one of them.
-/

namespace LuaView

/-- Tokens with the marks, in front of a kind in `stop`, have a next kind in `front`. -/
def Mark.Leads (marks : List Mark) (stop front : Kind → Prop) : Prop :=
  match marks with
  | [] => ∀ kind, stop kind → front kind
  | mark :: _ => front mark.kind

theorem Mark.Leads.next
    {marks : List Mark}
    {stop front : Kind → Prop}
    (h : Mark.Leads marks stop front)
    {words rest : List Token}
    (hwords : words.map Token.mark = marks)
    (hrest : stop (nextToken rest).kind) :
    front (nextToken (words ++ rest)).kind := by
  cases words with
  | nil =>
      obtain rfl := hwords
      exact h _ hrest
  | cons token words =>
      obtain rfl := hwords
      exact h

theorem Mark.Leads.any
    {marks : List Mark}
    {stop : Kind → Prop} :
    Mark.Leads marks stop Parser.anyKind := by
  cases marks with
  | nil => exact fun _ _ => trivial
  | cons mark marks => exact trivial

theorem Mark.commas_cons (marks : List Mark) (others : List (List Mark)) :
    Mark.commas (marks :: others) =
      marks ++ others.flatMap fun other => .sign .comma :: other := by
  induction others generalizing marks with
  | nil => simp [Mark.commas]
  | cons other others ih =>
      have hstep : Mark.commas (marks :: other :: others) =
        marks ++ .sign .comma :: Mark.commas (other :: others) := rfl
      rw [hstep, ih, List.flatMap_cons]
      rfl

namespace Parser

variable {α β : Type}

/-- The parser reads the marks as the value, in front of a kind in `stop`. -/
def Reads
    (parser : Parser α)
    (marks : List Mark)
    (stop : Kind → Prop)
    (value : α) : Prop :=
  ∀ words rest : List Token, words.map Token.mark = marks → stop (nextToken rest).kind →
    parser (words ++ rest) = .ok value rest

namespace Reads

variable {parser : Parser α}
variable {next : α → Parser β}
variable {marks more : List Mark}
variable {stop front : Kind → Prop}
variable {value : α}
variable {result : β}

theorem pure : Reads (Pure.pure value) [] stop value := by
  intro words rest hwords _
  obtain rfl := List.map_eq_nil_iff.mp hwords
  rfl

theorem mono
    (h : parser.Reads marks front value)
    (himp : ∀ kind, stop kind → front kind) :
    parser.Reads marks stop value :=
  fun words rest hwords hrest => h words rest hwords (himp _ hrest)

theorem bind_eq
    (h : parser.Reads marks front value)
    {words rest : List Token}
    (hwords : words.map Token.mark = marks)
    (hrest : front (nextToken rest).kind) :
    (parser >>= next) (words ++ rest) = next value rest := by
  change Parser.bind parser next (words ++ rest) = next value rest
  rw [Parser.bind, h words rest hwords hrest]

/-- Two parsers in a row read two runs of marks, if what follows the first may stand there. -/
theorem bind
    (hparser : parser.Reads marks front value)
    (hnext : (next value).Reads more stop result)
    (hleads : Mark.Leads more stop front) :
    (parser >>= next).Reads (marks ++ more) stop result := by
  intro words rest hwords hrest
  obtain ⟨first, second, rfl, hfirst, hsecond⟩ := List.map_eq_append_iff.mp hwords
  rw [List.append_assoc, hparser.bind_eq hfirst (hleads.next hsecond hrest)]
  exact hnext second rest hsecond hrest

/-- A first step that may be followed by anything. -/
theorem bind_free
    (hparser : parser.Reads marks anyKind value)
    (hnext : (next value).Reads more stop result) :
    (parser >>= next).Reads (marks ++ more) stop result :=
  hparser.bind hnext Mark.Leads.any

/-- A first step that reads one mark. -/
theorem bind_mark
    {mark : Mark}
    (hparser : parser.Reads [mark] anyKind value)
    (hnext : (next value).Reads more stop result) :
    (parser >>= next).Reads (mark :: more) stop result :=
  hparser.bind_free hnext

/-- A last step that reads nothing. -/
theorem bind_last
    (hparser : parser.Reads marks front value)
    (hnext : (next value).Reads [] stop result)
    (himp : ∀ kind, stop kind → front kind) :
    (parser >>= next).Reads marks stop result := by
  have hbind := hparser.bind hnext himp
  rw [List.append_nil] at hbind
  exact hbind

/-- The last step only shapes the result. -/
theorem map
    {shape : α → β}
    (h : parser.Reads marks stop value) :
    Reads (parser >>= fun value => Pure.pure (shape value)) marks stop (shape value) :=
  h.bind_last pure fun _ hkind => hkind

/-- A first step that reads nothing. -/
theorem bind_nil
    (hparser : parser.Reads [] front value)
    (hnext : (next value).Reads more stop result)
    (hleads : Mark.Leads more stop front) :
    (parser >>= next).Reads more stop result :=
  hparser.bind hnext hleads

/-- Looking at the next kind when there is one more mark. -/
theorem peekKind
    {next : Kind → Parser β}
    {mark : Mark}
    (h : (next mark.kind).Reads (mark :: marks) stop result) :
    (Parser.peekKind >>= next).Reads (mark :: marks) stop result := by
  intro words rest hwords hrest
  have hok := h words rest hwords hrest
  cases words with
  | nil => cases hwords
  | cons token words =>
      obtain ⟨rfl, -⟩ := List.cons.inj hwords
      exact hok

/-- Looking at the next kind when something is known about it. -/
theorem peekKind_leads
    {next : Kind → Parser β}
    (hleads : Mark.Leads marks stop front)
    (h : ∀ kind, front kind → (next kind).Reads marks stop result) :
    (Parser.peekKind >>= next).Reads marks stop result :=
  fun words rest hwords hrest => h _ (hleads.next hwords hrest) words rest hwords hrest

/-- Looking at the next kind behind the marks. -/
theorem peekKind_stop
    {next : Kind → Parser β}
    (h : ∀ kind, stop kind → (next kind).Reads [] stop result) :
    (Parser.peekKind >>= next).Reads [] stop result :=
  peekKind_leads (fun _ hkind => hkind) h

theorem peek
    {next : Token → Parser β}
    (h : ∀ token, (next token).Reads marks stop result) :
    (Parser.peek >>= next).Reads marks stop result :=
  fun words rest hwords hrest => h _ words rest hwords hrest

/-- Looking at the second kind when there are two more marks. -/
theorem peekSecondKind
    {next : Kind → Parser β}
    {mark second : Mark}
    (h : (next second.kind).Reads (mark :: second :: marks) stop result) :
    (Parser.peekSecondKind >>= next).Reads (mark :: second :: marks) stop result := by
  intro words rest hwords hrest
  have hok := h words rest hwords hrest
  match words, hwords with
  | first :: token :: words, hwords =>
      obtain ⟨-, htail⟩ := List.cons.inj hwords
      obtain ⟨rfl, -⟩ := List.cons.inj htail
      exact hok

/-- Looking at the second kind when it does not matter. -/
theorem peekSecondKind_any
    {next : Kind → Parser β}
    (h : ∀ kind, (next kind).Reads marks stop result) :
    (Parser.peekSecondKind >>= next).Reads marks stop result := by
  intro words rest hwords hrest
  have hsecond : ∃ kind, Parser.peekSecondKind (words ++ rest) = .ok kind (words ++ rest) := by
    unfold Parser.peekSecondKind
    split
    · exact ⟨_, rfl⟩
    · exact ⟨_, rfl⟩
  obtain ⟨kind, hkind⟩ := hsecond
  change Parser.bind Parser.peekSecondKind next (words ++ rest) = _
  rw [Parser.bind, hkind]
  exact h kind words rest hwords hrest

/-- A mark is consumed if it is not the end of the source. -/
theorem advance
    {next : Token → Parser β}
    {mark : Mark}
    (hmark : mark.kind ≠ .eof)
    (h : ∀ token : Token, token.mark = mark → (next token).Reads marks stop result) :
    (Parser.advance >>= next).Reads (mark :: marks) stop result := by
  intro words rest hwords hrest
  cases words with
  | nil => cases hwords
  | cons token words =>
      obtain ⟨rfl, htail⟩ := List.cons.inj hwords
      have heof : token.isEof = false := by
        simpa [Token.isEof, Token.mark] using hmark
      change Parser.bind Parser.advance next (token :: (words ++ rest)) = _
      simp only [Parser.bind, Parser.advance, heof]
      exact h token rfl words rest htail hrest

/-! ## Tokens -/

/-- An expected mark is read. -/
theorem expect
    {mark : Mark}
    (hmark : mark.kind ≠ .eof) :
    (Parser.expect mark.kind : Parser Unit).Reads [mark] stop () := by
  have hadvance : Reads (Parser.advance >>= fun _ => Pure.pure ()) [mark] stop () :=
    advance hmark fun _ _ => pure
  refine peekKind ?_
  rw [if_pos rfl]
  exact hadvance

theorem expectWord (word : Keyword) :
    (Parser.expectWord word : Parser Unit).Reads [.word word] stop () :=
  @expect stop (.word word) nofun

theorem expectSymbol (symbol : Symbol) :
    (Parser.expectSymbol symbol : Parser Unit).Reads [.sign symbol] stop () :=
  @expect stop (.sign symbol) nofun

theorem accept
    {mark : Mark}
    (hmark : mark.kind ≠ .eof) :
    (Parser.accept mark.kind : Parser Bool).Reads [mark] stop true := by
  have hadvance : Reads (Parser.advance >>= fun _ => Pure.pure true) [mark] stop true :=
    advance hmark fun _ _ => pure
  refine peekKind ?_
  rw [if_pos rfl]
  exact hadvance

theorem acceptWord (word : Keyword) :
    (Parser.acceptWord word : Parser Bool).Reads [.word word] stop true :=
  @accept stop (.word word) nofun

theorem acceptSymbol (symbol : Symbol) :
    (Parser.acceptSymbol symbol : Parser Bool).Reads [.sign symbol] stop true :=
  @accept stop (.sign symbol) nofun

/-- A kind that is not there is not accepted. -/
theorem accept_other (kind : Kind) :
    (Parser.accept kind : Parser Bool).Reads [] (· ≠ kind) false := by
  refine peekKind_stop fun other hother => ?_
  rw [if_neg hother]
  exact pure

theorem acceptWord_other (word : Keyword) :
    (Parser.acceptWord word : Parser Bool).Reads [] (· ≠ .keyword word) false :=
  accept_other _

theorem acceptSymbol_other (symbol : Symbol) :
    (Parser.acceptSymbol symbol : Parser Bool).Reads [] (· ≠ .symbol symbol) false :=
  accept_other _

/-- A name is read from its mark. -/
theorem name (id : Name) :
    (Parser.name : Parser Name).Reads [.name id] stop id := by
  have hadvance : Reads (Parser.advance >>= fun token => Pure.pure token.text)
      [.name id] stop id := by
    refine advance nofun fun token htoken => ?_
    obtain rfl : token.text = id := congrArg Mark.text htoken
    exact pure
  refine peekKind ?_
  exact hadvance

/-! ## Loops -/

theorem bind_congr
    {first second : Parser α}
    {tokens others : List Token}
    (h : first tokens = second others) :
    (first >>= next) tokens = (second >>= next) others := by
  change Parser.bind first next tokens = Parser.bind second next others
  simp only [Parser.bind, h]

/-- A round that goes on leaves the rest to the next ones. -/
theorem loop_eq
    {step : α → Parser (Step α)}
    {again : α}
    (hstep : (step value).Reads marks front (.again again))
    (hmarks : marks ≠ [])
    {words rest : List Token}
    (hwords : words.map Token.mark = marks)
    (hrest : front (nextToken rest).kind) :
    Parser.loop step value (words ++ rest) = Parser.loop step again rest := by
  have hlength : rest.length < (words ++ rest).length := by
    have hpos : 0 < words.length := by
      rw [← List.length_map Token.mark, hwords]
      exact List.length_pos_iff.mpr hmarks
    simp only [List.length_append]
    omega
  rw [Parser.loop, hstep words rest hwords hrest]
  simp only
  rw [if_pos hlength]

/-- A round that goes on, and whatever is done behind the loop. -/
theorem loop_again
    {step : α → Parser (Step α)}
    {again : α}
    (hstep : (step value).Reads marks front (.again again))
    (hmarks : marks ≠ [])
    (hnext : (Parser.loop step again >>= next).Reads more stop result)
    (hleads : Mark.Leads more stop front) :
    (Parser.loop step value >>= next).Reads (marks ++ more) stop result := by
  intro words rest hwords hrest
  obtain ⟨first, second, rfl, hfirst, hsecond⟩ := List.map_eq_append_iff.mp hwords
  have hloop := loop_eq hstep hmarks hfirst (hleads.next hsecond hrest)
  rw [List.append_assoc, bind_congr hloop]
  exact hnext second rest hsecond hrest

/-- A round that goes on. -/
theorem loop_round
    {step : α → Parser (Step α)}
    {again last : α}
    (hstep : (step value).Reads marks front (.again again))
    (hmarks : marks ≠ [])
    (hloop : Reads (Parser.loop step again) more stop last)
    (hleads : Mark.Leads more stop front) :
    Reads (Parser.loop step value) (marks ++ more) stop last := by
  intro words rest hwords hrest
  obtain ⟨first, second, rfl, hfirst, hsecond⟩ := List.map_eq_append_iff.mp hwords
  rw [List.append_assoc, loop_eq hstep hmarks hfirst (hleads.next hsecond hrest)]
  exact hloop second rest hsecond hrest

/-- A round that goes on and may be followed by anything. -/
theorem loop_round_free
    {step : α → Parser (Step α)}
    {again last : α}
    (hstep : (step value).Reads marks anyKind (.again again))
    (hmarks : marks ≠ [])
    (hloop : Reads (Parser.loop step again) more stop last) :
    Reads (Parser.loop step value) (marks ++ more) stop last :=
  loop_round hstep hmarks hloop Mark.Leads.any

/-- A round that is the last one. -/
theorem loop_done
    {step : α → Parser (Step α)}
    {last : α}
    (hstep : (step value).Reads marks stop (.done last)) :
    Reads (Parser.loop step value) marks stop last := by
  intro words rest hwords hrest
  rw [Parser.loop, hstep words rest hwords hrest]

/-! ## Lists -/

/-- More items, each behind a comma. -/
theorem moreItems
    {item : Parser α}
    {spell : α → List Mark}
    {values : List α}
    (hitems : ∀ value ∈ values, item.Reads (spell value) front value)
    (hcomma : front (.symbol .comma))
    (items : List α) :
    (Parser.moreItems item items).Reads (values.flatMap fun value => .sign .comma :: spell value)
      (fun kind => front kind ∧ kind ≠ .symbol .comma) (items ++ values) := by
  induction values generalizing items with
  | nil =>
      rw [List.append_nil]
      refine loop_done (bind_nil (acceptSymbol_other .comma) ?_ fun _ hkind => hkind.2)
      exact pure
  | cons value values ih =>
      have hitem := hitems value List.mem_cons_self
      have hstep : Reads (Parser.acceptSymbol .comma >>= fun accepted =>
          if accepted = true then item >>= fun next => Pure.pure (.again (items ++ [next]))
          else Pure.pure (.done items)) (.sign .comma :: spell value) front
            (Step.again (items ++ [value])) :=
        (acceptSymbol .comma).bind_mark hitem.map
      have hrest := ih (fun other hother => hitems other (List.mem_cons_of_mem _ hother))
        (items ++ [value])
      rw [List.append_assoc] at hrest
      refine loop_round hstep (List.cons_ne_nil _ _) hrest ?_
      cases values with
      | nil => exact fun kind hkind => hkind.1
      | cons _ _ => exact hcomma

/-- One or more items with commas between them. -/
theorem commaSeparated
    {item : Parser α}
    {spell : α → List Mark}
    {value : α}
    {values : List α}
    (hitems : ∀ other ∈ value :: values, item.Reads (spell other) front other)
    (hcomma : front (.symbol .comma)) :
    (Parser.commaSeparated item).Reads (Mark.commas ((value :: values).map spell))
      (fun kind => front kind ∧ kind ≠ .symbol .comma) (value :: values) := by
  have hmore := moreItems (fun other hother => hitems other (List.mem_cons_of_mem _ hother))
    hcomma [value]
  rw [List.map_cons, Mark.commas_cons, List.flatMap_map]
  refine (hitems value List.mem_cons_self).bind hmore ?_
  cases values with
  | nil => exact fun kind hkind => hkind.1
  | cons _ _ => exact hcomma

end Reads
end Parser
end LuaView
