import LuaView.Proofs.Lexing.Partition
import LuaView.Token.Scan

/-!
# Scanners between two parts of a source

A scanner that has passed `before` and stands in front of `after` cuts out of the source what stands
there, never within a character.  Each operation passes the characters that the operations on lists
take, so a scan breaks down nowhere and gives the tokens of `tokenize`.
-/

namespace LuaView

namespace Scanner

/-- The scanner between two parts of its source. -/
def between (before after : List Char) : Scanner :=
  ⟨before ++ after, Position.afterAll {} before⟩

/-! ## Cuts -/

/-- Cutting a text at the end of its first part leaves the second part. -/
theorem cutFront?_append (before after : List Char) :
    cutFront? (byteLength before) (before ++ after) = some after := by
  induction before with
  | nil => cases after <;> rfl
  | cons c before ih =>
      obtain ⟨n, hn⟩ := Nat.exists_eq_succ_of_ne_zero (Nat.ne_of_gt c.utf8Size_pos)
      rw [byteLength_cons, hn, Nat.succ_add, List.cons_append, cutFront?, if_pos (by omega)]
      rw [show n + byteLength before + 1 - c.utf8Size = byteLength before by omega]
      exact ih

/-- Cutting a text at the end of its first part leaves that part in front. -/
theorem cutBack?_append (before after : List Char) :
    cutBack? (byteLength before) (before ++ after) = some before := by
  induction before with
  | nil => cases after <;> rfl
  | cons c before ih =>
      obtain ⟨n, hn⟩ := Nat.exists_eq_succ_of_ne_zero (Nat.ne_of_gt c.utf8Size_pos)
      rw [byteLength_cons, hn, Nat.succ_add, List.cons_append, cutBack?, if_pos (by omega)]
      rw [show n + byteLength before + 1 - c.utf8Size = byteLength before by omega, ih]
      rfl

/-- A cut between parts of a source. -/
theorem cut_append
    {scanner : Scanner}
    {before middle after : List Char}
    (hsource : scanner.source = before ++ (middle ++ after)) :
    scanner.cut (byteLength before) (byteLength (before ++ middle)) = .ok middle := by
  rw [cut, if_pos (by rw [byteLength_append]; exact Nat.le_add_right _ _), hsource,
    cutFront?_append, byteLength_append, Nat.add_sub_cancel_left]
  simp only [Option.bind_some, cutBack?_append]

section Between

variable (before after : List Char)

theorem byte_between :
    (between before after).pos.byte = byteLength before := by
  rw [between, Position.afterAll_byte]
  exact Nat.zero_add _

theorem size_between :
    (between before after).size = byteLength (before ++ after) :=
  List.foldr_map.symm

theorem remaining_between :
    (between before after).remaining = byteLength after := by
  rw [remaining, size_between, byte_between, byteLength_append, Nat.add_sub_cancel_left]

/-- What is behind a scanner is what is left. -/
theorem behind_between :
    (between before after).behind = .ok after := by
  have hsource : (between before after).source = before ++ (after ++ []) := by
    rw [List.append_nil]
    rfl
  rw [behind, byte_between, size_between]
  exact cut_append hsource

/-- The characters ahead are those of what is left. -/
theorem charAt_between (n : Nat) :
    (between before after).charAt n = .ok after[n]? := by
  rw [charAt, behind_between]
  rfl

end Between

end Scanner

namespace Scan

open Scanner (between)

variable {α β : Type}

theorem bind_ok
    {first : Scan α}
    {next : α → Scan β}
    {scanner scanner' : Scanner}
    {value : α}
    (h : first scanner = .ok (value, scanner')) :
    (first >>= next) scanner = next value scanner' := by
  change (first scanner >>= fun result => next result.1 result.2) = _
  rw [h]
  rfl

theorem bind_of_eq
    {first first' : Scan α}
    {next : α → Scan β}
    {scanner scanner' : Scanner}
    (h : first scanner = first' scanner') :
    (first >>= next) scanner = (first' >>= next) scanner' := by
  change (first scanner >>= fun result => next result.1 result.2) = _
  rw [h]
  rfl

section Operations

variable (before after : List Char)

/-- The position of a scanner is behind what it has passed. -/
theorem position_between :
    position (between before after) =
      .ok (Position.afterAll {} before, between before after) :=
  rfl

theorem byte_afterAll :
    (Position.afterAll {} before).byte = byteLength before := by
  rw [Position.afterAll_byte]
  exact Nat.zero_add _

theorem isEof_between :
    isEof (between before after) = .ok (after.isEmpty, between before after) := by
  have hempty : decide ((between before after).size ≤ (between before after).pos.byte) =
      after.isEmpty := by
    rw [Scanner.size_between, Scanner.byte_between, byteLength_append]
    cases after with
    | nil => simp
    | cons c cs =>
        have hc := c.utf8Size_pos
        rw [List.isEmpty_cons, byteLength_cons]
        exact decide_eq_false (by omega)
  rw [← hempty]
  rfl

/-- Looking ahead gives a character of what is left, without passing any. -/
theorem peekNth_between (n : Nat) :
    peekNth n (between before after) = .ok (after[n]?, between before after) := by
  change ((between before after).charAt n >>= fun c => .ok (c, between before after)) = _
  rw [Scanner.charAt_between]
  rfl

theorem peek_between :
    peek (between before after) = .ok (after.head?, between before after) := by
  rw [peek, peekNth_between, List.head?_eq_getElem?]

/-- One step passes one character. -/
theorem advance_cons (c : Char) :
    advance (between before (c :: after)) = .ok (some c, between (before ++ [c]) after) := by
  rw [advance, bind_ok (peek_between before (c :: after))]
  simp only [between, List.append_assoc, Position.afterAll_append]
  rfl

/-- At the end of the source no step is possible. -/
theorem advance_nil :
    advance (between before []) = .ok (none, between before []) := by
  rw [advance, bind_ok (peek_between before [])]
  rfl

/-- A character that is expected is passed. -/
theorem eat_cons (c : Char) :
    eat c (between before (c :: after)) = .ok (true, between (before ++ [c]) after) := by
  rw [eat, bind_ok (peek_between before _), if_pos List.head?_cons,
    bind_ok (advance_cons before after c)]
  rfl

/-- Any other character is not passed. -/
theorem eat_of_ne
    {c : Char}
    (h : after.head? ≠ some c) :
    eat c (between before after) = .ok (false, between before after) := by
  rw [eat, bind_ok (peek_between before _), if_neg h]
  rfl

/-- A slice up to the scanner is what it passed since then. -/
theorem slice_between (middle : List Char) :
    slice (byteLength before) (byteLength (before ++ middle)) (between (before ++ middle) after) =
      .ok (middle, between (before ++ middle) after) := by
  change ((between (before ++ middle) after).cut _ _ >>= fun cs => .ok (cs, _)) = _
  rw [Scanner.cut_append (List.append_assoc before middle after)]
  rfl

/-- As many steps as a text has characters pass the text. -/
theorem advanceTimes_between (passed : List Char) :
    advanceTimes passed.length (between before (passed ++ after)) =
      .ok ((), between (before ++ passed) after) := by
  induction passed generalizing before with
  | nil => rw [List.append_nil]; rfl
  | cons c passed ih =>
      rw [List.length_cons, advanceTimes, List.cons_append, bind_ok (advance_cons before _ c), ih]
      simp only [List.append_assoc, List.singleton_append]

end Operations

/-! ## Repetition -/

/-- A loop ends with the round that says so. -/
theorem loop_done
    {round : α → Scan (Round α β)}
    {value : α}
    {result : β}
    {scanner scanner' : Scanner}
    (h : round value scanner = .ok (.done result, scanner')) :
    loop round value scanner = .ok (result, scanner') := by
  rw [loop, h]

/-- A round that passes something is followed by the others. -/
theorem loop_again
    {round : α → Scan (Round α β)}
    {value next : α}
    {before passed rest : List Char}
    (hne : passed ≠ [])
    (h : round value (between before (passed ++ rest)) =
      .ok (.again next, between (before ++ passed) rest)) :
    loop round value (between before (passed ++ rest)) =
      loop round next (between (before ++ passed) rest) := by
  have hpassed := List.length_pos_iff.mpr hne
  have hbytes := length_le_byteLength passed
  rw [loop, h]
  simp only
  rw [if_pos]
  rw [Scanner.remaining_between, Scanner.remaining_between, byteLength_append]
  omega

/-- What holds in front of a text whenever it holds behind each of its beginnings holds anywhere in
a source. -/
theorem passing_induction
    {motive : List Char → List Char → Prop}
    (step : ∀ before after,
      (∀ passed rest, passed ≠ [] → after = passed ++ rest → motive (before ++ passed) rest) →
      motive before after)
    (before after : List Char) :
    motive before after := by
  induction hlength : after.length using Nat.strongRecOn generalizing before after with
  | _ length ih =>
      refine step before after fun passed rest hne hsplit => ih rest.length ?_ _ rest rfl
      have hpassed := List.length_pos_iff.mpr hne
      rw [← hlength, hsplit, List.length_append]
      omega

theorem drop_passed (passed more rest : List Char) :
    (passed ++ rest).drop (passed ++ more).length = rest.drop more.length := by
  rw [List.length_append, ← List.drop_drop, List.drop_left]

/-- The characters of a class are passed up to the first other one. -/
theorem advanceWhile_between
    (cls : Char → Bool)
    (before after : List Char) :
    advanceWhile cls (between before after) =
      .ok ((), between (before ++ after.takeWhile cls) (after.dropWhile cls)) := by
  induction after generalizing before with
  | nil =>
      rw [List.takeWhile_nil, List.dropWhile_nil, List.append_nil]
      exact loop_done (bind_ok (peek_between before []))
  | cons c after ih =>
      cases hc : cls c with
      | true =>
          rw [List.takeWhile_cons_of_pos hc, List.dropWhile_cons_of_pos hc]
          have hround := ih (before ++ [c])
          rw [List.append_assoc, List.singleton_append] at hround
          rw [← hround]
          refine loop_again (List.cons_ne_nil c []) ?_
          rw [List.singleton_append, bind_ok (peek_between before _)]
          simp only [List.head?_cons, hc, if_true]
          exact bind_ok (advance_cons before after c)
      | false =>
          rw [List.takeWhile_cons_of_neg (by rw [hc]; decide),
            List.dropWhile_cons_of_neg (by rw [hc]; decide), List.append_nil]
          refine loop_done ?_
          rw [bind_ok (peek_between before _)]
          simp only [List.head?_cons, hc, Bool.false_eq_true, if_false]
          rfl

/-! ## Long brackets -/

theorem lift_ok
    {result : Except Scanner.Crash α}
    {value : α}
    {scanner : Scanner}
    (h : result = .ok value) :
    (liftM result : Scan α) scanner = .ok (value, scanner) := by
  rw [h]
  rfl

theorem get_between (before after : List Char) :
    (get : Scan Scanner) (between before after) =
      .ok (between before after, between before after) :=
  rfl

/-- With the equals signs behind the first bracket counted, the character behind them decides. -/
theorem equalsSigns_counted
    (before rest : List Char)
    (level : Nat) :
    equalsSigns (between before ('[' :: (List.replicate level '=' ++ rest))) level =
      if rest.head? = some '=' then
        equalsSigns (between before ('[' :: (List.replicate level '=' ++ rest))) (level + 1)
      else .ok level := by
  have hchar : (between before ('[' :: (List.replicate level '=' ++ rest))).charAt (level + 1) =
      .ok rest.head? := by
    rw [Scanner.charAt_between, List.getElem?_cons_succ, List.head?_eq_getElem?,
      List.getElem?_append_right (by rw [List.length_replicate]), List.length_replicate,
      Nat.sub_self]
  have hlevel : level <
      (between before ('[' :: (List.replicate level '=' ++ rest))).source.length := by
    simp [between]
    omega
  rw [equalsSigns]
  split
  · rename_i hcrash
    rw [hchar] at hcrash
    cases hcrash
  · rename_i c hc
    obtain rfl := Except.ok.inj (hchar.symm.trans hc)
    rw [if_pos hlevel]

/-- Equals signs are counted up to the first other character. -/
theorem equalsSigns_between
    (before rest : List Char)
    (level : Nat) :
    equalsSigns (between before ('[' :: (List.replicate level '=' ++ rest))) level =
      .ok (level + (rest.takeWhile (· == '=')).length) := by
  induction rest generalizing level with
  | nil => exact (equalsSigns_counted before [] level).trans (if_neg (by decide))
  | cons c rest ih =>
      rw [equalsSigns_counted, List.head?_cons]
      split
      · rename_i hequals
        obtain rfl := Option.some.inj hequals
        have hnext := ih (level + 1)
        rw [List.replicate_succ', List.append_assoc, List.singleton_append] at hnext
        rw [hnext, List.takeWhile_cons_of_pos (by decide), List.length_cons, Nat.add_assoc,
          Nat.add_comm 1]
      · rename_i hother
        rw [List.takeWhile_cons_of_neg (by simpa using hother)]
        rfl

/-- The scanner finds the level of a long bracket that opens here. -/
theorem longBracketLevel_between (before after : List Char) :
    longBracketLevel (between before after) =
      .ok (LongBracket.level? after, between before after) := by
  rw [longBracketLevel, bind_ok (peek_between before after)]
  split
  · rename_i hhead
    obtain ⟨cs, rfl⟩ := List.head?_eq_some_iff.mp hhead
    have hlevel := equalsSigns_between before cs 0
    rw [List.replicate_zero, List.nil_append, Nat.zero_add] at hlevel
    rw [bind_ok (get_between before _), bind_ok (lift_ok hlevel),
      bind_ok (peekNth_between before _ _), List.getElem?_cons_succ]
    simp only [LongBracket.level?]
    split <;> rfl
  · rename_i hhead
    have hnone : LongBracket.level? after = none := by
      unfold LongBracket.level?
      split
      · exact absurd rfl hhead
      · rfl
    rw [hnone]
    rfl

/-- A check of every number below a bound that only looks. -/
theorem allM_range
    {check : Nat → Scan Bool}
    {holds : Nat → Bool}
    {scanner : Scanner}
    (h : ∀ i, check i scanner = .ok (holds i, scanner))
    (is : List Nat) :
    is.allM check scanner = .ok (is.all holds, scanner) := by
  induction is with
  | nil => rfl
  | cons i is ih =>
      rw [List.allM, bind_ok (h i), List.all_cons]
      cases holds i with
      | true => exact ih
      | false => rfl

/-- The brackets and the equals signs between them, looked at one by one. -/
theorem closing_isPrefixOf
    (level : Nat)
    (cs : List Char) :
    (LongBracket.closing level).isPrefixOf cs =
      (decide (cs.head? = some ']') &&
        ((List.range level).all fun i => decide (cs[i + 1]? = some '=')) &&
        decide (cs[level + 1]? = some ']')) := by
  rw [Bool.eq_iff_iff, List.isPrefixOf_iff_prefix, List.prefix_iff_getElem?]
  simp only [Bool.and_eq_true, decide_eq_true_eq, List.all_eq_true, List.mem_range]
  have hlength : (LongBracket.closing level).length = level + 2 := by simp [LongBracket.closing]
  constructor
  · intro h
    refine ⟨⟨?_, fun i hi => ?_⟩, ?_⟩
    · rw [List.head?_eq_getElem?, h 0 (by omega)]
      rfl
    · rw [h (i + 1) (by omega)]
      simp [LongBracket.closing, hi]
    · rw [h (level + 1) (by omega)]
      simp [LongBracket.closing]
  · rintro ⟨⟨hfirst, hequals⟩, hlast⟩ i hi
    rw [hlength] at hi
    cases i with
    | zero =>
        rw [← List.head?_eq_getElem?, hfirst]
        rfl
    | succ i =>
        rcases Nat.lt_or_ge i level with hlt | hge
        · rw [hequals i hlt]
          simp [LongBracket.closing, hlt]
        · obtain rfl : i = level := by omega
          rw [hlast]
          simp [LongBracket.closing]

/-- The scanner finds out whether a long bracket of the level closes here. -/
theorem atLongBracketClose_between
    (level : Nat)
    (before after : List Char) :
    atLongBracketClose level (between before after) =
      .ok ((LongBracket.closing level).isPrefixOf after, between before after) := by
  have hlook : ∀ i : Nat, (do return decide ((← peekNth (i + 1)) = some '=') : Scan Bool)
      (between before after) = .ok (decide (after[i + 1]? = some '='), between before after) :=
    fun i => bind_ok (peekNth_between before after (i + 1))
  have hequals := allM_range hlook (List.range level)
  rw [atLongBracketClose, bind_ok (peek_between before after), closing_isPrefixOf]
  by_cases hfirst : after.head? = some ']'
  · rw [if_pos hfirst, bind_ok hequals, decide_eq_true hfirst, Bool.true_and]
    cases (List.range level).all fun i => decide (after[i + 1]? = some '=') with
    | true => exact bind_ok (peekNth_between before after (level + 1))
    | false => rfl
  · rw [if_neg hfirst, decide_eq_false hfirst]
    rfl

/-- The line break behind an opening bracket is passed. -/
theorem skipBreak_between (before after : List Char) :
    skipBreak (between before after) =
      .ok ((), between (before ++ LongBracket.leadingBreak after)
        (after.drop (LongBracket.leadingBreak after).length)) := by
  unfold LongBracket.leadingBreak
  split
  · rename_i cs
    rw [skipBreak, bind_ok (eat_cons before _ '\r'), if_pos rfl, bind_ok (eat_cons _ cs '\n'),
      List.append_assoc]
    rfl
  · rename_i cs hnot
    have hother : cs.head? ≠ some '\n' := by
      intro hhead
      obtain ⟨more, rfl⟩ := List.head?_eq_some_iff.mp hhead
      exact hnot more rfl
    rw [skipBreak, bind_ok (eat_cons before _ '\r'), if_pos rfl, bind_ok (eat_of_ne _ cs hother)]
    rfl
  · rename_i cs
    rw [skipBreak, bind_ok (eat_of_ne before _ (by simp)), if_neg (by decide),
      bind_ok (eat_cons _ cs '\n')]
    rfl
  · rename_i hboth hreturn hfeed
    have hfirst : after.head? ≠ some '\r' := by
      intro hhead
      obtain ⟨more, rfl⟩ := List.head?_eq_some_iff.mp hhead
      exact hreturn more rfl
    have hsecond : after.head? ≠ some '\n' := by
      intro hhead
      obtain ⟨more, rfl⟩ := List.head?_eq_some_iff.mp hhead
      exact hfeed more rfl
    rw [skipBreak, bind_ok (eat_of_ne before _ hfirst), if_neg (by decide),
      bind_ok (eat_of_ne before _ hsecond), List.append_nil]
    rfl

theorem length_closing (level : Nat) :
    (LongBracket.closing level).length = level + 2 := by
  simp [LongBracket.closing]

/-- At its closing bracket the content is complete, and the bracket is passed. -/
theorem contentRound_closed
    (level : Nat)
    (before seen rest : List Char) :
    contentRound level (Position.afterAll {} before)
        (between (before ++ seen) (LongBracket.closing level ++ rest)) =
      .ok (.done (some seen), between (before ++ seen ++ LongBracket.closing level) rest) := by
  have hclosed :
      (LongBracket.closing level).isPrefixOf (LongBracket.closing level ++ rest) = true :=
    List.isPrefixOf_iff_prefix.mpr (List.prefix_append _ _)
  have hcontent := slice_between before (LongBracket.closing level ++ rest) seen
  have hpassed := advanceTimes_between (before ++ seen) rest (LongBracket.closing level)
  rw [length_closing] at hpassed
  rw [contentRound, bind_ok (isEof_between _ _), if_neg (by simp [LongBracket.closing]),
    bind_ok (atLongBracketClose_between level _ _), hclosed, if_pos rfl,
    bind_ok (position_between _ _), byte_afterAll, byte_afterAll, bind_ok hcontent, bind_ok hpassed]
  rfl

/-- Anywhere else one more character belongs to the content. -/
theorem contentRound_open
    {level : Nat}
    {c : Char}
    {after : List Char}
    (hopen : (LongBracket.closing level).isPrefixOf (c :: after) = false)
    (start : Position)
    (before : List Char) :
    contentRound level start (between before (c :: after)) =
      .ok (.again (), between (before ++ [c]) after) := by
  rw [contentRound, bind_ok (isEof_between _ _), if_neg (by simp),
    bind_ok (atLongBracketClose_between level _ _), hopen, if_neg (by decide),
    bind_ok (advance_cons before after c)]
  rfl

/-- The content of a bracket of which some is passed already. -/
theorem content_between
    (level : Nat)
    (before seen after : List Char) :
    loop (fun () => contentRound level (Position.afterAll {} before)) ()
        (between (before ++ seen) after) =
      match LongBracket.before? (LongBracket.closing level) after with
      | some content =>
          .ok (some (seen ++ content), between
            (before ++ (seen ++ content) ++ LongBracket.closing level)
            (after.drop (content ++ LongBracket.closing level).length))
      | none => .ok (none, between (before ++ (seen ++ after)) []) := by
  induction after generalizing seen with
  | nil =>
      rw [LongBracket.before?, if_neg (by simp [LongBracket.closing]), List.append_nil]
      refine loop_done ?_
      rw [contentRound, bind_ok (isEof_between _ [])]
      rfl
  | cons c after ih =>
      rw [LongBracket.before?]
      cases hclosed : (LongBracket.closing level).isPrefixOf (c :: after) with
      | true =>
          obtain ⟨rest, hrest⟩ := List.isPrefixOf_iff_prefix.mp hclosed
          rw [← hrest, if_pos rfl, loop_done (contentRound_closed level before seen rest)]
          simp only [List.append_nil, List.nil_append, List.drop_left]
      | false =>
          have hnext := ih (seen ++ [c])
          rw [← List.append_assoc, List.append_assoc seen, List.singleton_append] at hnext
          have hround :
              loop (fun () => contentRound level (Position.afterAll {} before)) ()
                (between (before ++ seen) ([c] ++ after)) =
              loop (fun () => contentRound level (Position.afterAll {} before)) ()
                (between (before ++ seen ++ [c]) after) :=
            loop_again (List.cons_ne_nil c []) (contentRound_open hclosed _ _)
          rw [if_neg (by decide), ← List.singleton_append, hround, hnext]
          cases LongBracket.before? (LongBracket.closing level) after with
          | none => rfl
          | some content => simp

/-- A long bracket that opens here is passed, or all that follows is. -/
theorem readLongBracket_between
    {level : Nat}
    {after : List Char}
    (hlevel : LongBracket.level? after = some level)
    (before : List Char) :
    readLongBracket level (between before after) =
      match LongBracket.read? level after with
      | some bracket => .ok (some bracket.content,
          between (before ++ bracket.spelling) (after.drop bracket.spelling.length))
      | none => .ok (none, between (before ++ after) []) := by
  have hopening := LongBracket.opening_prefix_of_level? hlevel
  have hlength : (LongBracket.opening level).length = level + 2 := by simp [LongBracket.opening]
  rw [LongBracket.read?]
  generalize after.drop (level + 2) = inner at hopening
  subst hopening
  have hpassed := advanceTimes_between before inner (LongBracket.opening level)
  rw [hlength] at hpassed
  have hcontent := content_between level
    (before ++ LongBracket.opening level ++ LongBracket.leadingBreak inner) []
    (inner.drop (LongBracket.leadingBreak inner).length)
  rw [List.append_nil] at hcontent
  rw [readLongBracket, bind_ok hpassed, bind_ok (skipBreak_between _ inner),
    bind_ok (position_between _ _), hcontent]
  have hsplit := LongBracket.leadingBreak_append_drop inner
  generalize LongBracket.leadingBreak inner = lineBreak at hsplit ⊢
  generalize inner.drop lineBreak.length = behind at hsplit ⊢
  subst hsplit
  cases LongBracket.before? (LongBracket.closing level) behind with
  | none => simp
  | some content =>
      simp only [Option.map_some, LongBracket.spelling, List.nil_append, List.append_assoc,
        List.length_append, ← List.drop_drop, List.drop_left]

end Scan
end LuaView
