import LuaView.Proofs.Lexing.Shape
import Mathlib.Algebra.GroupWithZero.Nat

/-!
# Cutting a source into tokens

`tokenize` partitions its source: gaps and spellings alternate, the spans of the tokens say where
the spellings stand, and nothing is left over.

`Cut pos cs tokens` is that statement for the part `cs` of a source that begins at `pos`, as a
relation built from the back.  `Partition source tokens` is the same seen from outside, by byte
offsets into the whole source: `byteSlice` gives what stands between two offsets.
-/

namespace LuaView

/-- A sequence succeeds if and only if both of its parts do. -/
theorem Except.bind_eq_ok_iff
    {ε α β : Type} {x : Except ε α} {f : α → Except ε β} {b : β} :
    x >>= f = .ok b ↔ ∃ a, x = .ok a ∧ f a = .ok b := by
  cases x with
  | error e => exact ⟨nofun, nofun⟩
  | ok a =>
      constructor
      · intro h
        exact ⟨a, rfl, h⟩
      · rintro ⟨_, ⟨⟩, h⟩
        exact h

theorem Except.exists_of_isOk
    {ε α : Type} {x : Except ε α}
    (h : x.isOk = true) :
    ∃ a, x = .ok a := by
  cases x with
  | error e => cases h
  | ok a => exact ⟨a, rfl⟩

/-- The number of bytes in the UTF-8 form of a text. -/
def byteLength (cs : List Char) : Nat :=
  (cs.map Char.utf8Size).sum

@[simp] theorem byteLength_nil : byteLength [] = 0 := rfl

@[simp] theorem byteLength_cons (c : Char) (cs : List Char) :
    byteLength (c :: cs) = c.utf8Size + byteLength cs := rfl

@[simp] theorem byteLength_append (as bs : List Char) :
    byteLength (as ++ bs) = byteLength as + byteLength bs := by
  simp [byteLength]

/-- Every character has at least one byte. -/
theorem length_le_byteLength (cs : List Char) :
    cs.length ≤ byteLength cs := by
  induction cs with
  | nil => simp
  | cons c cs ih =>
      have hc := c.utf8Size_pos
      simp only [List.length_cons, byteLength_cons]
      omega

theorem utf8ByteSize_ofList (cs : List Char) :
    (String.ofList cs).utf8ByteSize = byteLength cs := by
  induction cs with
  | nil => rfl
  | cons c cs ih =>
      rw [← List.singleton_append, String.ofList_append, String.utf8ByteSize_append, ih]
      simp

theorem utf8ByteSize_eq_byteLength (source : String) :
    source.utf8ByteSize = byteLength source.toList := by
  rw [← utf8ByteSize_ofList, String.ofList_toList]

/-- A position counts the bytes that it passes. -/
theorem Position.afterAll_byte (pos : Position) (cs : List Char) :
    (pos.afterAll cs).byte = pos.byte + byteLength cs := by
  induction cs generalizing pos with
  | nil => rfl
  | cons c cs ih =>
      have hstep : pos.afterAll (c :: cs) = (pos.after c).afterAll cs := rfl
      rw [hstep, ih, byteLength_cons]
      simp only [Position.after]
      omega

/-- Passing two texts is passing the first one and then the second one. -/
@[simp] theorem Position.afterAll_append (pos : Position) (as bs : List Char) :
    pos.afterAll (as ++ bs) = (pos.afterAll as).afterAll bs := by
  simp [Position.afterAll]

/-- What stands in a text from one byte offset up to another. -/
def byteSlice (start stop : Nat) : List Char → List Char
  | [] => []
  | c :: cs =>
      if 0 < start then byteSlice (start - c.utf8Size) (stop - c.utf8Size) cs
      else if 0 < stop then c :: byteSlice 0 (stop - c.utf8Size) cs
      else []

/-- The bytes of the first text of two are that text. -/
theorem byteSlice_zero_append (as bs : List Char) :
    byteSlice 0 (byteLength as) (as ++ bs) = as := by
  induction as with
  | nil =>
      cases bs with
      | nil => rfl
      | cons c cs => simp [byteSlice]
  | cons c cs ih =>
      have hc := c.utf8Size_pos
      have hstop : c.utf8Size + byteLength cs - c.utf8Size = byteLength cs := by omega
      simp only [List.cons_append, byteSlice, byteLength_cons, hstop, ih]
      rw [if_neg (by omega), if_pos (by omega)]

/-- The slice behind one part of a text, as long as the next part, is that part. -/
theorem byteSlice_append (before middle behind : List Char) :
    byteSlice (byteLength before) (byteLength before + byteLength middle)
      (before ++ (middle ++ behind)) = middle := by
  induction before with
  | nil =>
      simp only [byteLength_nil, Nat.zero_add, List.nil_append]
      exact byteSlice_zero_append middle behind
  | cons c cs ih =>
      have hc := c.utf8Size_pos
      have hstart : c.utf8Size + byteLength cs - c.utf8Size = byteLength cs := by omega
      have hstop : c.utf8Size + byteLength cs + byteLength middle - c.utf8Size =
          byteLength cs + byteLength middle := by omega
      simp only [List.cons_append, byteSlice, byteLength_cons, hstart, hstop]
      rw [if_pos (by omega), ih]

namespace Cursor

theorem pos_advance (cursor : Cursor) :
    cursor.advance.pos = cursor.pos.afterAll (cursor.rest.take 1) := by
  unfold advance
  split
  · rename_i h
    rw [h]
    rfl
  · rename_i h
    rw [h]
    rfl

/-- A cursor that moves on counts the characters it passes. -/
theorem pos_advanceBy (n : Nat) (cursor : Cursor) :
    (advanceBy n cursor).pos = cursor.pos.afterAll (cursor.rest.take n) := by
  induction n generalizing cursor with
  | zero => rfl
  | succ n ih =>
      rw [advanceBy, ih, pos_advance, rest_advance, ← Position.afterAll_append,
        ← List.take_add, Nat.add_comm]

end Cursor

/-- The tokens that the part of a source behind a position is cut into. -/
inductive Cut : Position → List Char → List Token → Prop
  | eof {pos : Position} {gap : List Char}
      (hgap : IsGap gap []) :
      Cut pos gap [Token.eof (pos.afterAll gap)]
  | token {pos : Position} {gap spelling rest : List Char}
      {token : Token} {tokens : List Token}
      (hgap : IsGap gap (spelling ++ rest))
      (hspelling : spelling ≠ [])
      (hspells : token.kind.Spells token.text.toList spelling)
      (hstart : token.span.start = pos.afterAll gap)
      (hstop : token.span.stop = (pos.afterAll gap).afterAll spelling)
      (htokens : Cut token.span.stop rest tokens) :
      Cut pos (gap ++ (spelling ++ rest)) (token :: tokens)

namespace Cursor

/-- Skipping a gap moves the position behind it. -/
theorem skipGap_pos (cursor : Cursor) :
    cursor.skipGap.pos = cursor.pos.afterAll (Lexeme.gap cursor.rest) := by
  rw [skipGap, pos_advanceBy]
  congr 1
  exact (List.prefix_iff_eq_take.mp ⟨_, Lexeme.gap_append cursor.rest⟩).symm

/-- Skipping a gap leaves what stands behind it. -/
theorem skipGap_rest (cursor : Cursor) :
    cursor.skipGap.rest = cursor.rest.drop (Lexeme.gap cursor.rest).length :=
  rest_advanceBy _ _

/-- Where only a gap is left the last token is the end of the source. -/
theorem tokens_of_skipGap_nil
    {cursor : Cursor}
    (h : cursor.skipGap.rest = []) :
    cursor.tokens = .ok [Token.eof cursor.skipGap.pos] := by
  rw [tokens]
  split
  · rfl
  · rename_i hcons
    rw [h] at hcons
    cases hcons

/-- A lexeme that cannot be read is an error of the whole source. -/
theorem tokens_of_error
    {cursor : Cursor}
    {first : Char}
    {cs extent : List Char}
    {cause : ParseError.Cause}
    (h : cursor.skipGap.rest = first :: cs)
    (hread : Lexeme.read first cs = .error (cause, extent)) :
    ∃ span, cursor.tokens = .error ⟨cause, span⟩ := by
  rw [tokens]
  split
  · rename_i hnil
    rw [h] at hnil
    cases hnil
  · rename_i hcons
    obtain ⟨rfl, rfl⟩ := List.cons.inj (h.symm.trans hcons)
    rw [hread]
    exact ⟨_, rfl⟩

/-- A lexeme that can be read is the next token, and the others are those behind it. -/
theorem tokens_of_lexeme
    {cursor : Cursor}
    {first : Char}
    {cs : List Char}
    {lexeme : Lexeme}
    (h : cursor.skipGap.rest = first :: cs)
    (hread : Lexeme.read first cs = .ok lexeme) :
    cursor.tokens =
      (advanceBy lexeme.spelling.length cursor.skipGap).tokens.map fun tokens =>
        ⟨lexeme.kind, String.ofList lexeme.text, cursor.skipGap.pos,
          (advanceBy lexeme.spelling.length cursor.skipGap).pos⟩ :: tokens := by
  rw [tokens]
  split
  · rename_i hnil
    rw [h] at hnil
    cases hnil
  · rename_i hcons
    obtain ⟨rfl, rfl⟩ := List.cons.inj (h.symm.trans hcons)
    rw [hread]
    dsimp only
    cases (advanceBy lexeme.spelling.length cursor.skipGap).tokens <;> rfl

/-- The tokens from a cursor on cut what stands behind it. -/
theorem cut_tokens
    {cursor : Cursor} {tokens : List Token}
    (h : cursor.tokens = .ok tokens) :
    Cut cursor.pos cursor.rest tokens := by
  fun_induction Cursor.tokens cursor generalizing tokens with
  | case1 cursor hrest =>
      obtain rfl := Except.ok.inj h
      have happend := Lexeme.gap_append cursor.rest
      have hgap := Lexeme.isGap_gap cursor.rest
      rw [← skipGap_rest, hrest] at happend hgap
      rw [List.append_nil] at happend
      have hcut : Cut cursor.pos _ _ := .eof hgap
      rwa [← skipGap_pos, happend] at hcut
  | case2 cursor first cs hrest cause extent hread => cases h
  | case3 cursor first cs hrest lexeme hread next =>
      rename_i ih
      obtain ⟨rest, hnext, htokens⟩ := Except.bind_eq_ok_iff.mp h
      obtain rfl := Except.ok.inj htokens
      have happend := Lexeme.gap_append cursor.rest
      have hgap := Lexeme.isGap_gap cursor.rest
      have hfits := Lexeme.read_fits hread
      obtain ⟨behind, hbehind⟩ := hfits.atFront
      rw [← hrest] at hbehind
      rw [← skipGap_rest, ← hbehind] at happend hgap
      have hstop : next.pos =
          (cursor.pos.afterAll (Lexeme.gap cursor.rest)).afterAll lexeme.spelling := by
        rw [pos_advanceBy, skipGap_pos, ← hbehind, List.take_left]
      have hbehindNext : next.rest = behind := by
        rw [rest_advanceBy, ← hbehind, List.drop_left]
      have htail := ih hnext
      rw [hbehindNext] at htail
      rw [← happend]
      refine .token hgap lexeme.spelling_ne_nil ?_ (skipGap_pos cursor) hstop htail
      rw [String.toList_ofList]
      exact hfits.spells

/-- A line that begins with `#!` is skipped up to its end. -/
theorem skipShebang_cases (cursor : Cursor) :
    cursor.skipShebang = cursor ∨
      ∃ line, '\n' ∉ line ∧
        cursor.rest = '#' :: '!' :: line ++ cursor.skipShebang.rest ∧
        LineEnds cursor.skipShebang.rest ∧
        cursor.skipShebang.pos = cursor.pos.afterAll ('#' :: '!' :: line) := by
  unfold skipShebang
  split
  · rename_i cs hrest
    right
    have htake : cursor.rest.takeWhile (· != '\n') = '#' :: '!' :: cs.takeWhile (· != '\n') := by
      rw [hrest]
      rfl
    have hdrop : (advanceWhile (· != '\n') cursor).rest = cs.dropWhile (· != '\n') := by
      rw [advanceWhile, rest_advanceBy, drop_length_takeWhile, hrest]
      rfl
    refine ⟨cs.takeWhile (· != '\n'), newline_not_mem_takeWhile cs, ?_, ?_, ?_⟩
    · rw [hdrop, hrest, List.cons_append, List.cons_append, List.takeWhile_append_dropWhile]
    · rw [hdrop]
      exact lineEnds_dropWhile cs
    · rw [advanceWhile, pos_advanceBy, ← htake]
      congr 1
      exact (List.prefix_iff_eq_take.mp (List.takeWhile_prefix _)).symm
  · exact .inl rfl

end Cursor

/-- What may stand in front of the first token: a gap, or a line that begins with `#!` and a gap
behind that line. -/
def IsLeadingGap (gap rest : List Char) : Prop :=
  IsGap gap rest ∨
    ∃ line more, '\n' ∉ line ∧ gap = '#' :: '!' :: line ++ more ∧
      LineEnds (more ++ rest) ∧ IsGap more rest

/-- Between the tokens, and in front of the first one, stand gaps.  The gap in front of the first
token begins at `start`. -/
def GapsFit (source : List Char) (isGap : List Char → List Char → Prop) (start : Nat) :
    List Token → Prop
  | [] => True
  | token :: tokens =>
      isGap (byteSlice start token.span.start.byte source)
        (byteSlice token.span.start.byte (byteLength source) source) ∧
      GapsFit source IsGap token.span.stop.byte tokens

/-- How tokens lie in the part of a source behind an offset. -/
structure PartitionFrom (source : List Char) (isGap : List Char → List Char → Prop) (start : Nat)
    (tokens : List Token) : Prop where
  bounds : ∀ token ∈ tokens, start ≤ token.span.start.byte ∧
    token.span.start.byte ≤ token.span.stop.byte ∧ token.span.stop.byte ≤ byteLength source
  ordered : tokens.Pairwise fun first second => first.span.stop.byte ≤ second.span.start.byte
  ends : ∃ words pos, tokens = words ++ [Token.eof pos] ∧ pos.byte = byteLength source ∧
    ∀ token ∈ words, token.kind ≠ .eof ∧ token.span.start.byte < token.span.stop.byte
  gaps : GapsFit source isGap start tokens
  spelled : ∀ token ∈ tokens, token.kind.Spells token.text.toList
    (byteSlice token.span.start.byte token.span.stop.byte source)

/-- The bytes behind the first text of two are the second one. -/
theorem byteSlice_to_end (before behind : List Char) :
    byteSlice (byteLength before) (byteLength (before ++ behind)) (before ++ behind) = behind := by
  have h := byteSlice_append before behind []
  rwa [List.append_nil, ← byteLength_append] at h

theorem byteSlice_self (cs : List Char) :
    byteSlice (byteLength cs) (byteLength cs) cs = [] := by
  have h := byteSlice_to_end cs []
  rwa [List.append_nil] at h

/-- The last token stands at the end of its source. -/
theorem PartitionFrom.eof
    {before gap : List Char} {pos : Position} {isGap : List Char → List Char → Prop}
    (hpos : pos.byte = byteLength (before ++ gap))
    (hgap : isGap gap []) :
    PartitionFrom (before ++ gap) isGap (byteLength before) [Token.eof pos] := by
  have hstart : (Token.eof pos).span.start.byte = byteLength (before ++ gap) := hpos
  have hstop : (Token.eof pos).span.stop.byte = byteLength (before ++ gap) := hpos
  refine ⟨?_, List.pairwise_singleton _ _, ⟨[], pos, rfl, hpos, by simp⟩, ⟨?_, trivial⟩, ?_⟩
  · intro token htoken
    obtain rfl := List.mem_singleton.mp htoken
    rw [hstart, hstop]
    exact ⟨by simp, Nat.le_refl _, Nat.le_refl _⟩
  · rw [hstart, byteSlice_to_end, byteSlice_self]
    exact hgap
  · intro token htoken
    obtain rfl := List.mem_singleton.mp htoken
    rw [hstart, hstop, byteSlice_self]
    exact ⟨rfl, rfl⟩

/-- A token in front of a partition of what stands behind it. -/
theorem PartitionFrom.cons
    {before gap spelling rest : List Char} {token : Token} {tokens : List Token}
    {isGap : List Char → List Char → Prop}
    (hstart : token.span.start.byte = byteLength (before ++ gap))
    (hstop : token.span.stop.byte = byteLength (before ++ gap ++ spelling))
    (hspelling : spelling ≠ [])
    (hspells : token.kind.Spells token.text.toList spelling)
    (hgap : isGap gap (spelling ++ rest))
    (htokens : PartitionFrom (before ++ gap ++ spelling ++ rest) IsGap token.span.stop.byte
      tokens) :
    PartitionFrom (before ++ gap ++ spelling ++ rest) isGap (byteLength before)
      (token :: tokens) := by
  have hlength : 0 < byteLength spelling :=
    Nat.lt_of_lt_of_le (List.length_pos_iff.mpr hspelling) (length_le_byteLength spelling)
  have hgapSlice : byteSlice (byteLength before) token.span.start.byte
      (before ++ gap ++ spelling ++ rest) = gap := by
    have h := byteSlice_append before gap (spelling ++ rest)
    rwa [← byteLength_append, ← hstart, ← List.append_assoc, ← List.append_assoc] at h
  have hrestSlice : byteSlice token.span.start.byte (byteLength (before ++ gap ++ spelling ++ rest))
      (before ++ gap ++ spelling ++ rest) = spelling ++ rest := by
    have h := byteSlice_to_end (before ++ gap) (spelling ++ rest)
    rwa [← hstart, ← List.append_assoc] at h
  have hspellingSlice : byteSlice token.span.start.byte token.span.stop.byte
      (before ++ gap ++ spelling ++ rest) = spelling := by
    have h := byteSlice_append (before ++ gap) spelling rest
    rwa [← byteLength_append, ← hstart, ← hstop, ← List.append_assoc] at h
  have hkind : token.kind ≠ .eof := by
    intro hkind
    rw [hkind] at hspells
    exact hspelling hspells.2
  obtain ⟨hbounds, hordered, ⟨words, pos, rfl, hpos, hwords⟩, hgaps, hspelled⟩ := htokens
  simp only [byteLength_append] at hstart hstop
  refine ⟨?_, ?_, ⟨token :: words, pos, rfl, hpos, ?_⟩, ⟨?_, hgaps⟩, ?_⟩
  · intro other hother
    simp only [byteLength_append]
    rcases List.mem_cons.mp hother with rfl | hother
    · omega
    · have h := hbounds other hother
      simp only [byteLength_append] at h
      omega
  · exact List.pairwise_cons.mpr ⟨fun other hother => (hbounds other hother).1, hordered⟩
  · intro other hother
    rcases List.mem_cons.mp hother with rfl | hother
    · exact ⟨hkind, by omega⟩
    · exact hwords other hother
  · rw [hgapSlice, hrestSlice]
    exact hgap
  · intro other hother
    rcases List.mem_cons.mp hother with rfl | hother
    · rw [hspellingSlice]
      exact hspells
    · exact hspelled other hother

/-- A cut of the part behind `before ++ skipped` partitions the source from the end of `before` on,
if what is skipped may stand in front of the first gap. -/
theorem Cut.partitionFrom
    {pos : Position} {cs : List Char} {tokens : List Token}
    (h : Cut pos cs tokens)
    (before skipped : List Char) (isGap : List Char → List Char → Prop)
    (hpos : pos.byte = byteLength (before ++ skipped))
    (hskipped : ∀ gap rest, cs = gap ++ rest → IsGap gap rest → isGap (skipped ++ gap) rest) :
    PartitionFrom (before ++ (skipped ++ cs)) isGap (byteLength before) tokens := by
  induction h generalizing before skipped isGap with
  | @eof pos gap hgap =>
      apply PartitionFrom.eof
      · rw [Position.afterAll_byte, hpos]
        simp only [byteLength_append]
        omega
      · exact hskipped gap [] (List.append_nil gap).symm hgap
  | @token pos gap spelling rest token tokens hgap hspelling hspells hstart hstop htokens ih =>
      have hstartByte : token.span.start.byte = byteLength (before ++ (skipped ++ gap)) := by
        rw [hstart, Position.afterAll_byte, hpos]
        simp only [byteLength_append]
        omega
      have hstopByte : token.span.stop.byte =
          byteLength (before ++ (skipped ++ gap) ++ spelling) := by
        rw [hstop, Position.afterAll_byte, ← hstart, hstartByte, byteLength_append _ spelling]
      have htail : PartitionFrom (before ++ (skipped ++ gap) ++ spelling ++ rest) IsGap
          token.span.stop.byte tokens := by
        rw [hstopByte]
        exact ih _ [] IsGap (by rw [List.append_nil]; exact hstopByte) fun _ _ _ h => h
      have hcons := PartitionFrom.cons hstartByte hstopByte hspelling hspells
        (hskipped gap _ rfl hgap) htail
      simpa only [List.append_assoc] using hcons

/-- How the tokens of a source lie in it. -/
def Partition (source : String) (tokens : List Token) : Prop :=
  PartitionFrom source.toList IsLeadingGap 0 tokens

/-- A source is partitioned by its tokens. -/
theorem partition_of_tokenize
    {source : String} {tokens : List Token}
    (h : tokenize source = .ok tokens) :
    Partition source tokens := by
  have hcut := Cursor.cut_tokens h
  rcases Cursor.skipShebang_cases (Cursor.ofText source) with
    hsame | ⟨line, hline, hrest, hend, hpos⟩
  · rw [hsame] at hcut
    exact hcut.partitionFrom [] [] IsLeadingGap rfl fun _ _ _ hgap => .inl hgap
  · have hbyte : (Cursor.ofText source).skipShebang.pos.byte =
        byteLength ([] ++ ('#' :: '!' :: line)) := by
      rw [hpos, Position.afterAll_byte, List.nil_append]
      exact Nat.zero_add _
    have hpartition := hcut.partitionFrom [] ('#' :: '!' :: line) IsLeadingGap hbyte ?_
    · have hsource : source.toList =
          '#' :: '!' :: line ++ (Cursor.ofText source).skipShebang.rest :=
        hrest
      rw [Partition, hsource]
      exact hpartition
    · intro gap rest hsplit hgap
      refine .inr ⟨line, gap, hline, rfl, ?_, hgap⟩
      rw [← hsplit]
      exact hend

end LuaView
