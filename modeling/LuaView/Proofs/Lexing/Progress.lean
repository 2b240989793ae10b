import LuaView.Proofs.Lexing.ScannedSources

/-!
# Progress of a scan

A scanner never goes back, and a round that looks for a token in front of a character passes at
least that one, whether it finds a token or an error.  So whoever counts the rounds, and gives up
after a number of them that is greater than the number of bytes, never gives up.
-/

namespace LuaView
namespace Scan

open Scanner (between)

variable {α β : Type}

/-- The scanner is never left in front of where it was. -/
def Onward (scan : Scan α) : Prop :=
  ∀ scanner value next, scan scanner = .ok (value, next) → scanner.pos.byte ≤ next.pos.byte

namespace Onward

theorem pure (value : α) : Onward (Pure.pure value) := by
  rintro scanner _ _ ⟨⟩
  exact Nat.le_refl _

/-- Two scans in a row never go back if neither does. -/
theorem bind
    {first : Scan α}
    {next : α → Scan β}
    (h : Onward first)
    (hnext : ∀ value, Onward (next value)) :
    Onward (first >>= next) := by
  intro scanner result final hrun
  cases hfirst : first scanner with
  | error crash =>
      change (first scanner >>= fun found => next found.1 found.2) = _ at hrun
      rw [hfirst] at hrun
      cases hrun
  | ok found =>
      obtain ⟨value, middle⟩ := found
      rw [bind_ok hfirst] at hrun
      exact Nat.le_trans (h scanner value middle hfirst) (hnext value middle result final hrun)

theorem ite
    {condition : Prop}
    [Decidable condition]
    {first second : Scan α}
    (h : Onward first)
    (h' : Onward second) :
    Onward (if condition then first else second) := by
  split
  · exact h
  · exact h'

/-- Looking at something does not move the scanner. -/
theorem look (found : Scanner → Except Scanner.Crash α) :
    Onward fun scanner => found scanner >>= fun value => .ok (value, scanner) := by
  intro scanner value next hrun
  change (found scanner >>= _) = _ at hrun
  cases hfound : found scanner with
  | error crash =>
      rw [hfound] at hrun
      cases hrun
  | ok result =>
      rw [hfound] at hrun
      cases hrun
      exact Nat.le_refl _

/-- A loop never goes back if none of its rounds does. -/
theorem loop
    {round : α → Scan (Round α β)}
    (hround : ∀ value, Onward (round value))
    (value : α) :
    Onward (loop round value) := by
  intro scanner result final hrun
  induction hleft : scanner.remaining using Nat.strongRecOn generalizing scanner value with
  | _ left ih =>
      rw [Scan.loop] at hrun
      cases hfirst : round value scanner with
      | error crash =>
          rw [hfirst] at hrun
          cases hrun
      | ok found =>
          obtain ⟨outcome, middle⟩ := found
          have hmiddle := hround value scanner outcome middle hfirst
          rw [hfirst] at hrun
          cases outcome with
          | done done =>
              cases hrun
              exact hmiddle
          | again again =>
              simp only at hrun
              split at hrun
              · rename_i hless
                have hlast := ih middle.remaining (hleft ▸ hless) again middle hrun rfl
                exact Nat.le_trans hmiddle hlast
              · cases hrun

end Onward

/-! ## Operations -/

theorem onward_position : Onward position :=
  .look fun scanner => .ok scanner.pos

theorem onward_peek : Onward peek :=
  .look fun scanner => scanner.charAt 0

theorem onward_slice (start stop : Nat) : Onward (slice start stop) :=
  .look fun scanner => scanner.cut start stop

/-- One step passes one character, or none at the end of the source. -/
theorem onward_advance : Onward advance := by
  refine onward_peek.bind fun c => ?_
  cases c with
  | none => exact .pure none
  | some c =>
      refine .bind ?_ fun _ => .pure (some c)
      rintro scanner _ _ ⟨⟩
      exact Nat.le_add_right _ _

theorem onward_eat (expected : Char) : Onward (eat expected) :=
  onward_peek.bind fun _ => .ite (onward_advance.bind fun _ => .pure true) (.pure false)

/-- Passing the characters of a class never goes back. -/
theorem onward_advanceWhile (cls : Char → Bool) : Onward (advanceWhile cls) := by
  refine .loop (fun _ => onward_peek.bind fun c => ?_) ()
  cases c with
  | none => exact .pure _
  | some c => exact .ite (onward_advance.bind fun _ => .pure _) (.pure _)

/-! ## Tokens -/

theorem onward_errorFrom (start : Position) (cause : ParseError.Cause) :
    Onward (errorFrom start cause : Scan (Except ParseError α)) :=
  onward_position.bind fun _ => .pure _

theorem onward_pushText (kind : Kind) (start : Position) (text : List Char) :
    Onward (pushText kind start text) :=
  onward_position.bind fun _ => .pure _

theorem onward_pushSlice (kind : Kind) (start : Position) : Onward (pushSlice kind start) :=
  onward_position.bind fun _ => (onward_slice _ _).bind fun text => onward_pushText kind start text

/-- Looking for the second character of a symbol never goes back. -/
theorem onward_eatPair (choices : List (Char × Symbol)) : Onward (eatPair choices) := by
  induction choices with
  | nil => exact .pure none
  | cons choice more ih => exact (onward_eat choice.1).bind fun _ => .ite (.pure _) ih

theorem onward_points : Onward points :=
  (onward_eat '.').bind fun _ =>
    .ite ((onward_eat '.').bind fun _ => .ite (.pure _) (.pure _)) (.pure _)

/-- Reading a symbol never goes back. -/
theorem onward_symbol? (first : Char) : Onward (symbol? first) := by
  refine .ite (onward_points.bind fun _ => .pure _) ((onward_eatPair _).bind fun symbol => ?_)
  cases symbol <;> exact .pure _

/-- No escape goes back, not even one at the end of the source. -/
theorem onward_escapeRound : Onward escapeRound := by
  refine onward_advance.bind fun escaped => ?_
  cases escaped with
  | none => exact .pure _
  | some escaped =>
      refine .ite ((onward_advanceWhile _).bind fun _ => .pure _) ?_
      exact (Onward.pure ()).bind fun _ => .pure _

/-- No round of a quoted string goes back. -/
theorem onward_quotedRound (quote : Char) : Onward (quotedRound quote) := by
  refine onward_peek.bind fun c => ?_
  cases c with
  | none => exact .pure _
  | some c =>
      refine .ite (.pure _) (.ite (.pure _) (.ite ?_ ?_))
      · exact onward_advance.bind fun _ => onward_escapeRound
      · exact onward_advance.bind fun _ => .pure _

/-- Reading a quoted string never goes back, whether or not it is closed. -/
theorem onward_scanString (start : Position) (quote : Char) (delimiter : Delimiter) :
    Onward (scanString start quote delimiter) := by
  refine onward_position.bind fun content => ?_
  refine (Onward.loop (fun _ => onward_quotedRound quote) ()).bind fun _ => .ite ?_ ?_
  · refine onward_position.bind fun _ => (onward_slice _ _).bind fun text => ?_
    exact onward_advance.bind fun _ => (onward_pushText _ start text).bind fun _ => .pure _
  · exact onward_errorFrom start _

/-- No round of a numeral goes back. -/
theorem onward_numeralRound (isMark : Char → Bool) : Onward (numeralRound isMark) := by
  refine onward_peek.bind fun c => ?_
  cases c with
  | none => exact .pure _
  | some c =>
      refine .ite ?_ (.ite (onward_advance.bind fun _ => .pure _) (.pure _))
      refine onward_advance.bind fun _ => onward_peek.bind fun sign => .ite ?_ ?_
      · exact onward_advance.bind fun _ => .pure _
      · exact (Onward.pure ()).bind fun _ => .pure _

/-- Reading a numeral never goes back, whether or not it has a value. -/
theorem onward_scanNumber (start : Position) (first : Char) : Onward (scanNumber start first) := by
  have hmarks : Onward (exponentMarks first) :=
    onward_peek.bind fun _ => .ite (onward_advance.bind fun _ => .pure _) (.pure _)
  have hpass : ∀ isMark, Onward (passNumeral isMark) := fun isMark =>
    (Onward.loop (fun _ => onward_numeralRound isMark) ()).bind fun _ => onward_advanceWhile _
  refine hmarks.bind fun isMark => (hpass isMark).bind fun _ => onward_position.bind fun stop => ?_
  refine (onward_slice _ _).bind fun text => .ite ?_ (.pure _)
  exact (onward_pushSlice _ start).bind fun _ => .pure _

theorem onward_scanWord (start : Position) : Onward (scanWord start) :=
  (onward_advanceWhile _).bind fun _ => onward_position.bind fun _ =>
    (onward_slice _ _).bind fun _ => onward_pushSlice _ start

/-- Reading a token never goes back, whatever its first character. -/
theorem onward_scanFrom (start : Position) (first : Char) : Onward (scanFrom start first) := by
  refine onward_peek.bind fun next => ?_
  refine .ite (onward_scanNumber start first) (.ite (onward_scanString start _ _)
    (.ite (onward_scanString start _ _) (.ite ?_ ?_)))
  · exact (onward_scanWord start).bind fun _ => .pure _
  · refine (onward_symbol? first).bind fun symbol => ?_
    cases symbol with
    | some symbol => exact (onward_pushSlice _ start).bind fun _ => .pure _
    | none => exact onward_errorFrom start _

/-! ## Rounds -/

/-- A token is found, or an error; the scan does not break down. -/
theorem Gives.exists_ok
    {before all : List Char}
    {read : Except Lexeme.Fault Lexeme}
    {scanned : Except Scanner.Crash (Except ParseError Token × Scanner)}
    (h : Gives before all read scanned) :
    ∃ result next, scanned = .ok (result, next) := by
  cases read with
  | ok lexeme => exact ⟨_, _, h⟩
  | error fault =>
      obtain ⟨-, next, hscanned⟩ := h
      exact ⟨_, next, hscanned⟩

/-- Characters behind a text make it longer. -/
theorem byteLength_lt_append
    (before : List Char)
    {text : List Char}
    (htext : text ≠ []) :
    byteLength before < byteLength (before ++ text) := by
  have hlength := List.length_pos_iff.mpr htext
  have hbytes := length_le_byteLength text
  rw [byteLength_append]
  omega

/-- A character in front of the scanner is passed when a token is looked for. -/
theorem scanToken_passes
    {before cs : List Char}
    {first : Char}
    {result : Except ParseError (Option Token)}
    {next : Scanner}
    (h : scanToken (between before (first :: cs)) = .ok (result, next)) :
    byteLength before < next.pos.byte := by
  rw [scanToken, bind_ok (position_between before _), bind_ok (longBracketLevel_between before _)]
    at h
  cases hlevel : LongBracket.level? (first :: cs) with
  | some level =>
      have hbracket := readLongBracket_between hlevel before
      rw [hlevel] at h
      cases hread : LongBracket.read? level (first :: cs) with
      | some bracket =>
          rw [hread] at hbracket
          simp only at h
          rw [bind_ok hbracket] at h
          cases h
          rw [Scanner.byte_between]
          exact byteLength_lt_append before (by simp [LongBracket.spelling, LongBracket.opening])
      | none =>
          rw [hread] at hbracket
          simp only at h
          rw [bind_ok hbracket] at h
          cases h
          rw [Scanner.byte_between]
          exact byteLength_lt_append before (List.cons_ne_nil first cs)
  | none =>
      -- The first character is passed, and what it begins is scanned from behind it.
      have honward : Onward (do
          return (← scanFrom (Position.afterAll {} before) first).map some :
            Scan (Except ParseError (Option Token))) :=
        (onward_scanFrom _ first).bind fun _ => .pure _
      rw [hlevel] at h
      simp only at h
      rw [bind_ok (advance_cons before cs first)] at h
      have hfirst := byteLength_lt_append before (List.cons_ne_nil first [])
      have hbehind := honward _ _ _ h
      rw [Scanner.byte_between] at hbehind
      exact Nat.lt_of_lt_of_le hfirst hbehind

/-- In front of a character a round never breaks down, and passes something whatever it finds. -/
theorem tokenRound_passes
    (tokens : List Token)
    (before : List Char)
    {after : List Char}
    (hafter : after ≠ []) :
    ∃ outcome next, tokenRound tokens (between before after) = .ok (outcome, next) ∧
      byteLength before < next.pos.byte := by
  obtain ⟨outcome, next, hround⟩ : ∃ outcome next,
      tokenRound tokens (between before after) = .ok (outcome, next) := by
    rcases tokenRound_between before after tokens with
      ⟨final, hround⟩ | ⟨_, _, _, _, _, _, hround⟩
    · exact ⟨_, _, hround⟩
    · exact ⟨_, _, hround⟩
  have hwhole := byteLength_lt_append before hafter
  have hgap := Lexeme.gap_append after
  have hskip := skipGap_between before after
  refine ⟨outcome, next, hround, ?_⟩
  rw [tokenRound] at hround
  by_cases hcomment : StartsComment (after.drop (Lexeme.gap after).length)
  · -- A comment that is never closed takes all that follows.
    rw [if_pos hcomment] at hskip
    rw [bind_ok hskip] at hround
    cases hround
    rwa [Scanner.byte_between]
  rw [if_neg hcomment] at hskip
  generalize Lexeme.gap after = gap at *
  generalize after.drop gap.length = rest at *
  subst hgap
  rw [bind_ok hskip] at hround
  simp only at hround
  rw [bind_ok (isEof_between (before ++ gap) rest)] at hround
  cases rest with
  | nil =>
      cases hround
      rwa [Scanner.byte_between, ← List.append_nil gap]
  | cons first cs =>
      obtain ⟨scanned, hgives, hscan⟩ := scanToken_between (before ++ gap) hcomment
      obtain ⟨result, final, rfl⟩ := hgives.exists_ok
      have hbefore : byteLength before ≤ byteLength (before ++ gap) := by
        rw [byteLength_append]
        exact Nat.le_add_right _ _
      have hpasses : byteLength before < final.pos.byte :=
        Nat.lt_of_le_of_lt hbefore (scanToken_passes hscan)
      rw [if_neg (by simp), bind_ok hscan] at hround
      cases result with
      | error error =>
          cases hround
          exact hpasses
      | ok token =>
          cases hround
          exact hpasses

/-! ## Counted rounds -/

/-- Repeat a round until it is done, but give up after a number of rounds.  Nothing is asked of what
the rounds pass. -/
def loopWithin (round : α → Scan (Round α β)) : Nat → α → Scan (Option β)
  | 0, _ => return none
  | rounds + 1, value => do
      match ← round value with
      | .again value => loopWithin round rounds value
      | .done result => return some result

/-- A loop that ends does so after as many rounds as there are bytes, and one more. -/
theorem loopWithin_of_loop
    {round : α → Scan (Round α β)}
    {value : α}
    {result : β}
    {scanner final : Scanner}
    (hloop : loop round value scanner = .ok (result, final))
    {rounds : Nat}
    (hrounds : scanner.remaining < rounds) :
    loopWithin round rounds value scanner = .ok (some result, final) := by
  induction rounds generalizing scanner value with
  | zero => exact absurd hrounds (Nat.not_lt_zero _)
  | succ rounds ih =>
      rw [loop] at hloop
      rw [loopWithin]
      cases hround : round value scanner with
      | error crash =>
          rw [hround] at hloop
          cases hloop
      | ok found =>
          obtain ⟨outcome, middle⟩ := found
          rw [hround] at hloop
          rw [bind_ok hround]
          cases outcome with
          | done done =>
              cases hloop
              rfl
          | again again =>
              simp only at hloop ⊢
              split at hloop
              · exact ih hloop (by omega)
              · cases hloop

/-- All tokens, as long as they are found within a number of rounds. -/
def tokensWithin (rounds : Nat) : Scan (Option (Except ParseError (List Token))) := do
  skipShebang
  loopWithin tokenRound rounds []

end Scan

/-- The tokens of a source, or the first error in it, if a number of rounds is enough. -/
def scanWithin (rounds : Nat) (source : String) :
    Except Scanner.Crash (Option (Except ParseError (List Token))) :=
  (Scan.tokensWithin rounds ⟨source.toList, {}⟩).map Prod.fst

/-- A round for each byte, and one that finds the end, are enough. -/
theorem scanWithin_eq_tokenize
    {rounds : Nat}
    {source : String}
    (hrounds : source.utf8ByteSize < rounds) :
    scanWithin rounds source = .ok (some (tokenize source)) := by
  obtain ⟨passed, rest, hsource, hcursor, hshebang⟩ := Scan.skipShebang_between [] source.toList
  obtain ⟨final, hloop⟩ := Scan.loop_tokenRound_between passed rest []
  have hremaining : (Scanner.between passed rest).remaining < rounds := by
    rw [utf8ByteSize_eq_byteLength, hsource, byteLength_append] at hrounds
    rw [Scanner.remaining_between]
    omega
  have hwithin := Scan.loopWithin_of_loop hloop hremaining
  have htokenize : tokenize source = (Scan.cursorBetween passed rest).tokens :=
    congrArg Cursor.tokens hcursor
  have htokens : Scan.tokensWithin rounds ⟨source.toList, {}⟩ = _ :=
    (Scan.bind_ok hshebang).trans hwithin
  rw [scanWithin, htokens, htokenize]
  cases (Scan.cursorBetween passed rest).tokens <;> rfl

end LuaView
