import LuaView.Proofs.Lexing.Relayout

/-!
# Carriage returns in front of line feeds

`crlf` puts a carriage return in front of every line feed of a text.  A text that holds no carriage
returns before has the same gap at its front afterwards, and the same long bracket, but for the
carriage returns in them.
-/

namespace LuaView

/-- A text with a carriage return in front of every line feed. -/
def crlf : List Char → List Char
  | [] => []
  | c :: cs => if c = '\n' then '\r' :: '\n' :: crlf cs else c :: crlf cs

@[simp] theorem crlf_nil : crlf [] = [] := rfl

@[simp] theorem crlf_newline (cs : List Char) :
    crlf ('\n' :: cs) = '\r' :: '\n' :: crlf cs := rfl

theorem crlf_cons_of_ne
    {c : Char}
    (h : c ≠ '\n')
    (cs : List Char) :
    crlf (c :: cs) = c :: crlf cs :=
  if_neg h

@[simp] theorem crlf_append (as bs : List Char) :
    crlf (as ++ bs) = crlf as ++ crlf bs := by
  induction as with
  | nil => rfl
  | cons a as ih =>
      by_cases ha : a = '\n'
      · simp [ha, ih]
      · simp [crlf_cons_of_ne ha, ih]

/-- A text without line feeds stays as it is. -/
theorem crlf_eq_self
    {cs : List Char}
    (h : '\n' ∉ cs) :
    crlf cs = cs := by
  induction cs with
  | nil => rfl
  | cons c cs ih =>
      rw [List.mem_cons, not_or] at h
      rw [crlf_cons_of_ne (Ne.symm h.1), ih h.2]

/-- The new text begins with the same character, or with a carriage return. -/
theorem head?_crlf
    {c : Char}
    (hfeed : c ≠ '\n')
    (hreturn : c ≠ '\r')
    (cs : List Char) :
    (crlf cs).head? = some c ↔ cs.head? = some c := by
  cases cs with
  | nil => exact Iff.rfl
  | cons d ds =>
      by_cases hd : d = '\n'
      · simp [hd, hfeed.symm, hreturn.symm]
      · simp [crlf_cons_of_ne hd]

/-- A run of characters other than the two of line breaks is the same in the new text. -/
theorem takeWhile_crlf
    {cls : Char → Bool}
    (hfeed : cls '\n' = false)
    (hreturn : cls '\r' = false)
    (cs : List Char) :
    (crlf cs).takeWhile cls = cs.takeWhile cls := by
  induction cs with
  | nil => rfl
  | cons c cs ih =>
      by_cases hc : c = '\n'
      · simp [hc, hfeed, hreturn]
      · simp only [crlf_cons_of_ne hc, List.takeWhile_cons, ih]

/-- A class that holds neither character of a line break stops at the same place. -/
theorem dropWhile_crlf
    {cls : Char → Bool}
    (hfeed : cls '\n' = false)
    (hreturn : cls '\r' = false)
    (cs : List Char) :
    (crlf cs).dropWhile cls = crlf (cs.dropWhile cls) := by
  induction cs with
  | nil => rfl
  | cons c cs ih =>
      by_cases hc : c = '\n'
      · simp [hc, hfeed, hreturn]
      · rw [crlf_cons_of_ne hc, List.dropWhile_cons, List.dropWhile_cons, ih]
        split
        · rfl
        · rw [crlf_cons_of_ne hc]

/-- A mark without line breaks is in front of both texts or of none. -/
theorem isPrefixOf_crlf
    {mark : List Char}
    (hfeed : '\n' ∉ mark)
    (hreturn : '\r' ∉ mark)
    (cs : List Char) :
    mark.isPrefixOf (crlf cs) = mark.isPrefixOf cs := by
  induction mark generalizing cs with
  | nil => simp
  | cons m mark ih =>
      simp only [List.mem_cons, not_or] at hfeed hreturn
      cases cs with
      | nil => rfl
      | cons c cs =>
          by_cases hc : c = '\n'
          · have hfeed' : (m == '\n') = false := beq_false_of_ne (Ne.symm hfeed.1)
            have hreturn' : (m == '\r') = false := beq_false_of_ne (Ne.symm hreturn.1)
            simp [hc, List.isPrefixOf, hfeed', hreturn']
          · simp only [crlf_cons_of_ne hc, List.isPrefixOf, ih hfeed.2 hreturn.2]

/-- Both texts have the same number of lines. -/
theorem afterAll_crlf_line
    {pos other : Position}
    (h : other.line = pos.line)
    (cs : List Char) :
    (other.afterAll (crlf cs)).line = (pos.afterAll cs).line := by
  induction cs generalizing pos other with
  | nil => exact h
  | cons c cs ih =>
      by_cases hc : c = '\n'
      · rw [hc]
        exact ih (by simp [Position.after, h])
      · rw [crlf_cons_of_ne hc]
        exact ih (by simp [Position.after, hc, h])

/-! ## Long brackets -/

namespace LongBracket

/-- The bracket with two characters in every line break. -/
def withReturns (bracket : LongBracket) : LongBracket :=
  ⟨bracket.level, crlf bracket.lineBreak, crlf bracket.content⟩

theorem crlf_opening (level : Nat) :
    crlf (opening level) = opening level :=
  crlf_eq_self (by simp [opening])

theorem crlf_closing (level : Nat) :
    crlf (closing level) = closing level :=
  crlf_eq_self (by simp [closing])

/-- The spelling of a long bracket whose line breaks are replaced. -/
theorem spelling_withReturns (bracket : LongBracket) :
    bracket.withReturns.spelling = crlf bracket.spelling := by
  simp [withReturns, spelling, crlf_opening, crlf_closing]

/-- A long bracket opens in both texts at the same level. -/
theorem level?_crlf (cs : List Char) :
    level? (crlf cs) = level? cs := by
  cases cs with
  | nil => rfl
  | cons c cs =>
      by_cases hc : c = '['
      · subst hc
        have hrun : (crlf cs).takeWhile (· == '=') = cs.takeWhile (· == '=') :=
          takeWhile_crlf (by decide) (by decide) cs
        have hbehind : (crlf cs).dropWhile (· == '=') = crlf (cs.dropWhile (· == '=')) :=
          dropWhile_crlf (by decide) (by decide) cs
        have hopen : (crlf cs)[(cs.takeWhile (· == '=')).length]? = some '[' ↔
            cs[(cs.takeWhile (· == '=')).length]? = some '[' := by
          rw [← List.head?_drop, ← List.head?_drop, drop_length_takeWhile, ← hrun,
            drop_length_takeWhile, hbehind]
          exact head?_crlf (by decide) (by decide) _
        rw [crlf_cons_of_ne (by decide)]
        simp only [level?, hrun, hopen]
      · by_cases hfeed : c = '\n'
        · rw [hfeed]
          rfl
        · rw [crlf_cons_of_ne hfeed, Lexeme.level?_eq_none hc, Lexeme.level?_eq_none hc]

/-- The line break that is left out is left out with both its characters. -/
theorem leadingBreak_crlf
    {cs : List Char}
    (h : '\r' ∉ cs) :
    leadingBreak (crlf cs) = crlf (leadingBreak cs) := by
  cases cs with
  | nil => rfl
  | cons c cs =>
      have hreturn : c ≠ '\r' := fun hc => h (hc ▸ List.mem_cons_self)
      by_cases hfeed : c = '\n'
      · rw [hfeed]
        rfl
      · simp [crlf_cons_of_ne hfeed, leadingBreak, hfeed, hreturn]

/-- The first occurrence of a mark is behind the same text. -/
theorem before?_crlf
    {mark : List Char}
    (hmark : mark ≠ [])
    (hfeed : '\n' ∉ mark)
    (hreturn : '\r' ∉ mark)
    (cs : List Char) :
    before? mark (crlf cs) = (before? mark cs).map crlf := by
  induction cs with
  | nil => simp [before?, hmark]
  | cons c cs ih =>
      have hprefix := isPrefixOf_crlf hfeed hreturn
      by_cases hc : c = '\n'
      · have hstart : mark.isPrefixOf ('\n' :: cs) = false ∧
            ∀ ds, mark.isPrefixOf ('\r' :: ds) = false ∧ mark.isPrefixOf ('\n' :: ds) = false := by
          cases mark with
          | nil => exact absurd rfl hmark
          | cons m mark =>
              simp only [List.mem_cons, not_or] at hfeed hreturn
              simp [List.isPrefixOf, beq_false_of_ne (Ne.symm hfeed.1),
                beq_false_of_ne (Ne.symm hreturn.1)]
        simp only [hc, crlf_newline, before?, hstart, Bool.false_eq_true, if_false, ih,
          Option.map_map]
        rfl
      · have hsame := hprefix (c :: cs)
        rw [crlf_cons_of_ne hc] at hsame ⊢
        simp only [before?, hsame, ih]
        split
        · rfl
        · simp only [Option.map_map]
          congr 1
          funext content
          exact (crlf_cons_of_ne hc content).symm

/-- A long bracket is closed where it was closed before. -/
theorem read?_crlf
    {cs : List Char}
    {level : Nat}
    (hlevel : level? cs = some level)
    (hreturn : '\r' ∉ cs) :
    read? level (crlf cs) = (read? level cs).map withReturns := by
  have hopening := opening_prefix_of_level? hlevel
  generalize hinner : cs.drop (level + 2) = inner at hopening
  have hreturn' : '\r' ∉ inner := fun hmem => hreturn (List.mem_of_mem_drop (hinner ▸ hmem))
  have hinner' : (crlf cs).drop (level + 2) = crlf inner := by
    have hlength : (opening level).length = level + 2 := by simp [opening]
    rw [hopening, crlf_append, crlf_opening, ← hlength, List.drop_left]
  have hbehind : (crlf inner).drop (crlf (leadingBreak inner)).length =
      crlf (inner.drop (leadingBreak inner).length) := by
    have hsplit := congrArg crlf (leadingBreak_append_drop inner)
    rw [crlf_append] at hsplit
    rw [← hsplit, List.drop_left]
  have hclosing : closing level ≠ [] ∧ '\n' ∉ closing level ∧ '\r' ∉ closing level := by
    simp [closing]
  simp only [read?, hinner, hinner', leadingBreak_crlf hreturn', hbehind,
    before?_crlf hclosing.1 hclosing.2.1 hclosing.2.2, Option.map_map]
  rfl

end LongBracket
/-! ## Gaps -/

namespace Lexeme

/-- A line comment ends with the carriage return in front of its line feed. -/
theorem comment_crlf_line
    {body rest : List Char}
    (hbody : '\n' ∉ body)
    (hshort : LongBracket.level? (body ++ '\n' :: rest) = none) :
    comment (crlf (body ++ '\n' :: rest)) = some (body ++ ['\r']) := by
  have htake : (crlf (body ++ '\n' :: rest)).takeWhile (· != '\n') = body ++ ['\r'] := by
    rw [crlf_append, crlf_eq_self hbody, crlf_newline, List.takeWhile_append_of_pos]
    · simp
    · intro c hc
      exact bne_iff_ne.mpr fun heq => hbody (heq ▸ hc)
  rw [← LongBracket.level?_crlf] at hshort
  rw [comment, hshort]
  exact congrArg some htake

/-- A short comment without a line feed extends to the end of the source. -/
theorem comment_last
    {body : List Char}
    (hbody : '\n' ∉ body)
    (hshort : LongBracket.level? body = none) :
    comment body = some body := by
  rw [comment, hshort]
  refine congrArg some (List.takeWhile_eq_self_iff.mpr fun c hc => ?_)
  exact bne_iff_ne.mpr fun heq => hbody (heq ▸ hc)

/-- A long comment ends at the same bracket in both texts. -/
theorem comment_crlf_long
    {cs : List Char}
    {level : Nat}
    (hlevel : LongBracket.level? cs = some level)
    (hreturn : '\r' ∉ cs) :
    comment (crlf cs) = (comment cs).map crlf := by
  have hlevel' := LongBracket.level?_crlf cs
  rw [hlevel] at hlevel'
  simp only [comment, hlevel, hlevel', LongBracket.read?_crlf hlevel hreturn, Option.map_map]
  congr 1
  funext bracket
  exact bracket.spelling_withReturns

theorem gap_nil : gap [] = [] := by
  rw [gap, if_pos filler_nil]

/-- A comment that is never closed ends the gap in front of it. -/
theorem gap_eq_nil_of_comment
    {cs : List Char}
    (h : comment cs = none) :
    gap ('-' :: '-' :: cs) = [] := by
  rw [gap, if_pos]
  simp only [filler, h]

theorem crlf_dashes (cs : List Char) :
    crlf ('-' :: '-' :: cs) = '-' :: '-' :: crlf cs := rfl

/-- A comment in front of a gap.  The comment of the new text may have taken a carriage return from
the gap. -/
theorem gap_crlf_split
    {body rest body' rest' : List Char}
    (hbody : comment (body ++ rest) = some body)
    (hbody' : comment (body' ++ rest') = some body')
    (hsplit : crlf (body ++ rest) = body' ++ rest')
    (hrest : body' ++ gap rest' = crlf (body ++ gap rest)) :
    gap (crlf ('-' :: '-' :: (body ++ rest))) = crlf (gap ('-' :: '-' :: (body ++ rest))) := by
  have hgap := gap_comment hbody
  have hgap' := gap_comment hbody'
  simp only [List.cons_append] at hgap hgap'
  rw [hgap, crlf_dashes, crlf_dashes, hsplit, hgap', hrest]

/-- A comment belongs to the gap of both texts if it does so with what follows it. -/
theorem gap_crlf_comment
    {body rest : List Char}
    (hreturn : '\r' ∉ body ++ rest)
    (hcomment : comment (body ++ rest) = some body)
    (hrest : gap (crlf rest) = crlf (gap rest)) :
    gap (crlf ('-' :: '-' :: (body ++ rest))) = crlf (gap ('-' :: '-' :: (body ++ rest))) := by
  cases hlevel : LongBracket.level? (body ++ rest) with
  | some level =>
      have hcomment' : comment (crlf body ++ crlf rest) = some (crlf body) := by
        rw [← crlf_append, comment_crlf_long hlevel hreturn, hcomment]
        rfl
      exact gap_crlf_split hcomment hcomment' (crlf_append _ _) (by simp [hrest])
  | none =>
      have htake : (body ++ rest).takeWhile (· != '\n') = body := by
        simpa [comment, hlevel] using hcomment
      have hbody : '\n' ∉ body := htake ▸ newline_not_mem_takeWhile (body ++ rest)
      have hend : LineEnds rest := by
        have hdrop := drop_length_takeWhile (· != '\n') (body ++ rest)
        rw [htake, List.drop_left] at hdrop
        exact hdrop ▸ lineEnds_dropWhile (body ++ rest)
      rcases hend with rfl | hend
      · rw [List.append_nil] at hlevel
        have hcomment' : comment (body ++ []) = some body := by
          rw [List.append_nil]
          exact comment_last hbody hlevel
        exact gap_crlf_split hcomment hcomment' (by simp [crlf_eq_self hbody])
          (by simp [crlf_eq_self hbody, gap_nil])
      · obtain ⟨more, rfl⟩ : ∃ more, rest = '\n' :: more := by
          cases rest with
          | nil => cases hend
          | cons c more => exact ⟨more, by rw [Option.some.inj hend]⟩
        have hsplit : crlf (body ++ '\n' :: more) = (body ++ ['\r']) ++ '\n' :: crlf more := by
          simp [crlf_eq_self hbody]
        have hcomment' := comment_crlf_line hbody hlevel
        rw [hsplit] at hcomment'
        refine gap_crlf_split hcomment hcomment' hsplit ?_
        have hreturnGap := gap_blank (c := '\r') (by decide) ('\n' :: crlf more)
        rw [List.append_assoc, List.singleton_append, ← hreturnGap, ← crlf_newline, hrest,
          crlf_append, crlf_eq_self hbody]

/-- The gap at the front of the new text is the old one with its line breaks replaced. -/
theorem gap_crlf
    {cs : List Char}
    (hreturn : '\r' ∉ cs) :
    gap (crlf cs) = crlf (gap cs) := by
  -- A gap is a blank or a comment in front of a gap, so the induction is on the length.
  induction hlength : cs.length using Nat.strongRecOn generalizing cs with
  | _ n ih =>
  obtain rfl := hlength
  cases cs with
  | nil => rw [crlf_nil, gap_nil, crlf_nil]
  | cons c cs =>
      have hreturn' : '\r' ∉ cs := fun hmem => hreturn (List.mem_cons_of_mem c hmem)
      by_cases hblank : isBlank c = true
      · have hcs := ih cs.length (Nat.lt_succ_self _) hreturn' rfl
        by_cases hfeed : c = '\n'
        · rw [hfeed, crlf_newline, gap_blank (by decide), gap_blank (by decide),
            gap_blank (by decide), hcs, crlf_newline]
        · rw [crlf_cons_of_ne hfeed, gap_blank hblank, gap_blank hblank, hcs,
            crlf_cons_of_ne hfeed]
      · have hfeed : c ≠ '\n' := fun heq => hblank (heq ▸ by decide)
        have hblank' : isBlank c = false := Bool.eq_false_iff.mpr hblank
        by_cases hdashes : c = '-' ∧ cs.head? = some '-'
        · obtain ⟨rfl, hhead⟩ := hdashes
          obtain ⟨ds, rfl⟩ : ∃ ds, cs = '-' :: ds := List.head?_eq_some_iff.mp hhead
          have hreturn'' : '\r' ∉ ds := fun hmem => hreturn' (List.mem_cons_of_mem _ hmem)
          cases hcomment : comment ds with
          | none =>
              have hcomment' : comment (crlf ds) = none := by
                cases hlevel : LongBracket.level? ds with
                | none => simp [comment, hlevel] at hcomment
                | some level =>
                    rw [comment_crlf_long hlevel hreturn'', hcomment]
                    rfl
              rw [crlf_dashes, gap_eq_nil_of_comment hcomment, gap_eq_nil_of_comment hcomment',
                crlf_nil]
          | some body =>
              obtain ⟨rest, rfl⟩ : ∃ rest, ds = body ++ rest := ⟨_, (comment_append hcomment).symm⟩
              have hrest : gap (crlf rest) = crlf (gap rest) :=
                ih rest.length (by simp; omega) (fun hmem => hreturn'' (by simp [hmem])) rfl
              exact gap_crlf_comment hreturn'' hcomment hrest
        · have hdashes' : c = '-' → cs.head? ≠ some '-' := fun hc hhead => hdashes ⟨hc, hhead⟩
          rw [crlf_cons_of_ne hfeed, gap_eq_nil hblank' hdashes', gap_eq_nil hblank', crlf_nil]
          intro hc hhead
          exact hdashes' hc ((head?_crlf (by decide) (by decide) cs).mp hhead)

end Lexeme
end LuaView
