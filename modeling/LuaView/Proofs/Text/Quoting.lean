import LuaView.Text.LongBracket

/-!
# Reading quoted contents back

A content in long brackets of the level that `LongBracket.levelFor` chooses is read back whatever
stands behind it, as it is but for a line break at its front.  The closing bracket occurs nowhere in
the content, and it does not begin there either: the first bracket of the real one would have to be
an equals sign of the other.
-/

namespace LuaView
namespace LongBracket

theorem length_closing (level : Nat) :
    (closing level).length = level + 2 := by
  simp [closing]

theorem getElem?_closing
    {level i : Nat}
    (hpos : 0 < i)
    (hle : i ≤ level) :
    (closing level)[i]? = some '=' := by
  obtain ⟨j, rfl⟩ := Nat.exists_eq_succ_of_ne_zero (Nat.ne_of_gt hpos)
  have hlength : (List.replicate level '=').length = level := List.length_replicate
  simp only [closing, List.cons_append, List.getElem?_cons_succ]
  rw [List.getElem?_append_left (by omega), List.getElem?_replicate, if_pos (by omega)]

/-- A closing bracket that begins in front of another one ends with its first character. -/
theorem closing_prefix_of_overlap
    {level : Nat}
    {front rest : List Char}
    (hfront : front ≠ [])
    (h : closing level <+: front ++ closing level ++ rest) :
    closing level <+: front ++ [']'] := by
  have hpos : 0 < front.length := List.length_pos_iff.mpr hfront
  have hsplit : front ++ closing level ++ rest =
      (front ++ [']']) ++ (List.replicate level '=' ++ [']'] ++ rest) := by
    simp [closing]
  rw [hsplit] at h
  rcases Nat.lt_or_ge level front.length with hlong | hshort
  · refine List.prefix_of_prefix_length_le h (List.prefix_append _ _) ?_
    rw [length_closing, List.length_append]
    simp only [List.length_singleton]
    omega
  · -- the first bracket behind `front` is an equals sign of the overlapping one
    exfalso
    have hget := getElem?_closing hpos hshort
    have htext : ((front ++ [']']) ++ (List.replicate level '=' ++ [']'] ++ rest))[front.length]? =
        some ']' := by
      simp
    obtain ⟨behind, hbehind⟩ := h
    rw [← hbehind, List.getElem?_append_left (by rw [length_closing]; omega), hget] at htext
    cases htext

/-- A content that does not hold its closing bracket ends at the bracket behind it. -/
theorem before?_of_not_closesWithin
    {level : Nat}
    {content : List Char}
    (h : closesWithin content level = false)
    (rest : List Char) :
    before? (closing level) (content ++ closing level ++ rest) = some content := by
  unfold closesWithin at h
  induction content with
  | nil =>
      have hprefix : (closing level).isPrefixOf (closing level ++ rest) = true :=
        List.isPrefixOf_iff_prefix.mpr (List.prefix_append _ _)
      rw [List.nil_append]
      cases hclosing : closing level ++ rest with
      | nil => simp [closing] at hclosing
      | cons c cs =>
          rw [hclosing] at hprefix
          simp [before?, hprefix]
  | cons c cs ih =>
      simp only [List.cons_append, before?] at h ⊢
      split at h
      · simp at h
      · rename_i hhere
        have hthere : ¬ (closing level).isPrefixOf (c :: (cs ++ closing level ++ rest)) = true := by
          intro hprefix
          refine hhere (List.isPrefixOf_iff_prefix.mpr ?_)
          exact closing_prefix_of_overlap (List.cons_ne_nil c cs)
            (List.isPrefixOf_iff_prefix.mp hprefix)
        rw [if_neg hthere, ih (by simpa using h)]
        rfl

theorem before?_eq_none_of_length
    {mark cs : List Char}
    (h : cs.length < mark.length) :
    before? mark cs = none := by
  induction cs with
  | nil =>
      cases mark with
      | nil => simp at h
      | cons c cs => rfl
  | cons c cs ih =>
      have hprefix : ¬ mark.isPrefixOf (c :: cs) = true := by
        intro hprefix
        have hle := (List.isPrefixOf_iff_prefix.mp hprefix).length_le
        omega
      simp only [List.length_cons] at h
      rw [before?, if_neg hprefix, ih (by omega)]
      rfl

/-- The level that is chosen closes nowhere inside the content. -/
theorem closesWithin_levelFor (content : List Char) :
    closesWithin content (levelFor content) = false := by
  unfold levelFor
  cases hfind : (List.range content.length).find? fun level => !closesWithin content level with
  | some level =>
      have hlevel := List.find?_some hfind
      simpa using hlevel
  | none =>
      rw [Option.getD_none, closesWithin, before?_eq_none_of_length]
      · rfl
      · rw [length_closing, List.length_append, List.length_singleton]
        omega

theorem level?_opening (level : Nat) (rest : List Char) :
    level? (opening level ++ rest) = some level := by
  have htake : (List.replicate level '=' ++ '[' :: rest).takeWhile (· == '=') =
      List.replicate level '=' := by
    rw [List.takeWhile_append_of_pos (by simp)]
    simp
  have hget : (List.replicate level '=' ++ '[' :: rest)[level]? = some '[' := by
    rw [List.getElem?_append_right (by simp)]
    simp
  simp only [opening, List.cons_append, List.append_assoc, List.nil_append, level?, htake,
    List.length_replicate, hget, if_true]

/-- A quoted content opens with a bracket of the level that is chosen. -/
theorem level?_quote (content rest : List Char) :
    level? (quote content ++ rest) = some (levelFor content) := by
  rw [quote]
  simp only [List.append_assoc]
  exact level?_opening _ _

theorem drop_quote (content rest : List Char) :
    (quote content ++ rest).drop (levelFor content + 2) =
      content ++ closing (levelFor content) ++ rest := by
  have hlength : (opening (levelFor content)).length = levelFor content + 2 := by
    simp [opening]
  rw [← hlength, quote]
  simp only [List.append_assoc]
  exact List.drop_left

/-- A quoted content ends at its own closing bracket. -/
theorem before?_quote (content rest : List Char) :
    before? (closing (levelFor content))
      ((quote content ++ rest).drop (levelFor content + 2)) = some content := by
  rw [drop_quote]
  exact before?_of_not_closesWithin (closesWithin_levelFor content) rest

/-- A quoted content at the front of a text is determined by the text, line breaks included. -/
theorem eq_of_quote
    {content other rest rest' : List Char}
    (h : quote content ++ rest = quote other ++ rest') :
    content = other := by
  have hlevel : levelFor content = levelFor other := by
    refine Option.some.inj ?_
    rw [← level?_quote content rest, h, level?_quote]
  have hcontent := before?_quote content rest
  rw [h, hlevel, before?_quote] at hcontent
  exact (Option.some.inj hcontent).symm

/-- The content is not cut at its front. -/
def StartsPlain (content : List Char) : Prop :=
  ∀ c ∈ content.head?, c ≠ '\n' ∧ c ≠ '\r'

theorem leadingBreak_eq_nil
    {cs : List Char}
    (h : StartsPlain cs) :
    leadingBreak cs = [] := by
  unfold leadingBreak
  split <;> simp_all [StartsPlain]

/-- A bracket behind a text is no part of the line break at its front. -/
theorem leadingBreak_append (text rest : List Char) :
    leadingBreak (text ++ ']' :: rest) = leadingBreak text := by
  cases text with
  | nil => rfl
  | cons c text =>
      by_cases hreturn : c = '\r'
      · cases text with
        | nil => simp [leadingBreak, hreturn]
        | cons d text => by_cases hfeed : d = '\n' <;> simp [leadingBreak, hreturn, hfeed]
      · by_cases hfeed : c = '\n' <;> simp [leadingBreak, hreturn, hfeed]

/-- A mark that does not occur in a text does not occur in its rear. -/
theorem before?_drop_eq_none
    {mark cs : List Char}
    (h : before? mark cs = none)
    (n : Nat) :
    before? mark (cs.drop n) = none := by
  induction cs generalizing n with
  | nil => rwa [List.drop_nil]
  | cons c cs ih =>
      cases n with
      | zero => exact h
      | succ n =>
          rw [before?] at h
          split at h
          · cases h
          · exact ih (Option.map_eq_none_iff.mp h) n

theorem closesWithin_drop
    {content : List Char}
    {level n : Nat}
    (hn : n ≤ content.length)
    (h : closesWithin content level = false) :
    closesWithin (content.drop n) level = false := by
  rw [closesWithin, Option.isSome_eq_false_iff, Option.isNone_iff_eq_none] at h ⊢
  rw [← List.drop_append_of_le_length hn]
  exact before?_drop_eq_none h n

/-- A quoted content is a long bracket, but a line break at its front is not in the bracket's
content any more. -/
theorem read?_quote (content rest : List Char) :
    read? (levelFor content) (quote content ++ rest) =
      some ⟨levelFor content, leadingBreak content,
        content.drop (leadingBreak content).length⟩ := by
  have hbreak : leadingBreak (content ++ (closing (levelFor content) ++ rest)) =
      leadingBreak content := by
    rw [closing, List.cons_append, List.cons_append, leadingBreak_append]
  have hlength : (leadingBreak content).length ≤ content.length := by
    unfold leadingBreak
    split <;> simp
  have hopen := closesWithin_drop hlength (closesWithin_levelFor content)
  have hbefore := before?_of_not_closesWithin hopen rest
  simp only [read?, drop_quote, List.append_assoc, hbreak,
    List.drop_append_of_le_length hlength] at hbefore ⊢
  rw [hbefore]
  rfl

end LongBracket
end LuaView
