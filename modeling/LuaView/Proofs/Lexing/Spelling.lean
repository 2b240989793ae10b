import LuaView.Proofs.Lexing.Marks

/-!
# Spelling out marks

A text spells out marks if it is their spellings in order, with blank characters before, between
and behind them, and if no mark is followed by a character that may not stand behind it.  Such a
text is cut into these marks.

In a plain spelling numerals are decimal digits only, and a point may stand right behind them; long
brackets may start with a line break.  The lexer would read on behind the point and leave out the
line break, but the text still determines the marks.
-/

namespace LuaView

namespace Mark

/-- The mark can be written, and without anything but digits if it is a plain numeral.  Any text
can stand in plain long brackets. -/
structure Admitted (plain : Bool) (mark : Mark) : Prop where
  valid : mark.Valid ∨ plain = true ∧ mark.kind = .string .long
  digits : plain = true → mark.kind = .number → ∀ c ∈ mark.text.toList, c.isDigit = true

/-- The character may stand right behind a mark, which may be a plain numeral. -/
def admits (plain : Bool) (mark : Mark) (c : Char) : Bool :=
  mark.allows c || (plain && decide (mark.kind = .number) && c == '.')

theorem Admitted.of_valid
    {plain : Bool}
    {mark : Mark}
    (h : mark.Valid)
    (hkind : mark.kind ≠ .number) :
    mark.Admitted plain :=
  ⟨.inl h, fun _ hnumber => absurd hnumber hkind⟩

/-- A character that may stand behind a mark in a source may do so in a plain text. -/
theorem admits_of_allows
    {mark : Mark}
    {c : Char}
    (h : mark.allows c = true)
    (plain : Bool) :
    mark.admits plain c = true := by
  simp [admits, h]

/-- Except behind numerals the converse holds. -/
theorem allows_of_admits
    {plain : Bool}
    {mark : Mark}
    (hmark : plain = false ∨ mark.kind ≠ .number)
    {c : Char}
    (h : mark.admits plain c = true) :
    mark.allows c = true := by
  rcases hmark with rfl | hkind
  · simpa [admits] using h
  · simpa [admits, hkind] using h

end Mark

/-- The text is the spellings of the marks, with blanks between them. -/
inductive Spelled (plain : Bool) : List Char → List Mark → Prop
  | nil :
      Spelled plain [] []
  | blank
      {c : Char} {cs : List Char} {marks : List Mark}
      (hc : isBlank c = true)
      (h : Spelled plain cs marks) :
      Spelled plain (c :: cs) marks
  | mark
      {mark : Mark} {rest : List Char} {marks : List Mark}
      (hmark : mark.Admitted plain)
      (hrest : ∀ c ∈ rest.head?, mark.admits plain c = true)
      (h : Spelled plain rest marks) :
      Spelled plain (mark.spelling ++ rest) (mark :: marks)

namespace Spelled

/-- Blanks in front do not change what is spelled. -/
theorem blanks
    {plain : Bool}
    {cs rest : List Char}
    (hcs : ∀ c ∈ cs, isBlank c = true)
    {marks : List Mark}
    (h : Spelled plain rest marks) :
    Spelled plain (cs ++ rest) marks := by
  induction cs with
  | nil => exact h
  | cons c cs ih =>
      exact .blank (hcs c List.mem_cons_self) (ih fun d hd => hcs d (List.mem_cons_of_mem c hd))

/-- A text that spells out marks is cut into them. -/
theorem lexed
    {cs : List Char}
    {marks : List Mark}
    (h : Spelled false cs marks) :
    Lexed cs marks := by
  induction h with
  | nil => exact .nil
  | blank hc _ ih => exact ih.blank hc
  | mark hmark hrest _ ih =>
      have hvalid := hmark.valid.resolve_right (by rintro ⟨⟨⟩, -⟩)
      exact .mark hvalid (fun c hc => Mark.allows_of_admits (.inl rfl) (hrest c hc)) ih

end Spelled

/-! ## A plain spelling determines the marks -/

namespace Lexeme

/-- Only numerals start with a digit. -/
theorem kind_of_isDigit
    {first : Char}
    {cs : List Char}
    {lexeme : Lexeme}
    (hfirst : first.isDigit = true)
    (h : read first cs = .ok lexeme) :
    lexeme.kind = .number := by
  have hword : CharClass.isWord first = true :=
    CharClass.isWord_of_isHexDigit (CharClass.isHexDigit_of_isDigit hfirst)
  have hdash : first ≠ '-' := ne_of_isWord hword (by decide)
  unfold read at h
  rw [if_neg (fun h => hdash h.1), level?_eq_none (ne_of_isWord hword (by decide))] at h
  simp only [hfirst, Bool.true_or, if_true, readNumeral] at h
  split at h
  · cases h
    rfl
  · cases h

/-- Only long brackets open as such. -/
theorem level?_of_read
    {first : Char}
    {cs : List Char}
    {lexeme : Lexeme}
    (h : read first cs = .ok lexeme)
    (hkind : lexeme.kind ≠ .string .long) :
    LongBracket.level? (first :: cs) = none := by
  cases hlevel : LongBracket.level? (first :: cs) with
  | none => rfl
  | some level =>
      unfold read at h
      rw [hlevel] at h
      split at h
      · cases h
      · simp only [readLong] at h
        split at h
        · cases h
          exact absurd rfl hkind
        · cases h

end Lexeme

namespace Mark

theorem isDigit_isBlank
    {c : Char}
    (h : c.isDigit = true) :
    isBlank c = false :=
  Lexeme.not_isBlank_of_isWord
    (CharClass.isWord_of_isHexDigit (CharClass.isHexDigit_of_isDigit h))

/-- What stands behind a plain numeral is not a digit. -/
theorem not_isDigit_of_admits
    {mark : Mark}
    (hkind : mark.kind = .number)
    {c : Char}
    (h : mark.admits true c = true) :
    c.isDigit = false := by
  refine Bool.eq_false_iff.mpr fun hdigit => ?_
  have hword : CharClass.isWord c = true :=
    CharClass.isWord_of_isHexDigit (CharClass.isHexDigit_of_isDigit hdigit)
  have hpoint : c ≠ '.' := Lexeme.ne_of_isWord hword (by decide)
  simp [admits, allows, hkind, endsNumeral, hword, hpoint] at h

theorem spelling_long
    {mark : Mark}
    (hkind : mark.kind = .string .long) :
    mark.spelling = LongBracket.quote mark.text.toList := by
  rw [spelling, hkind]
  exact String.toList_ofList

/-- The front of a text shows whether the mark there is a numeral, a long bracket or neither. -/
structure Front (mark : Mark) (first : Char) (cs : List Char) : Prop where
  blank : isBlank first = false
  numeral : first.isDigit = true ↔ mark.kind = .number
  long : (LongBracket.level? (first :: cs)).isSome ↔ mark.kind = .string .long

/-- An admitted mark begins with a character that tells its kind. -/
theorem Admitted.front
    {mark : Mark}
    (h : mark.Admitted true)
    {rest : List Char}
    (hrest : ∀ c ∈ rest.head?, mark.admits true c = true) :
    ∃ first cs, mark.spelling ++ rest = first :: cs ∧ mark.Front first cs := by
  by_cases hlong : mark.kind = .string .long
  · have hlevel := LongBracket.level?_quote mark.text.toList rest
    rw [spelling_long hlong]
    rw [LongBracket.quote, LongBracket.opening] at hlevel ⊢
    refine ⟨'[', _, rfl, by decide, ?_, ?_⟩
    · rw [hlong]
      decide
    · exact iff_of_true (Option.isSome_iff_exists.mpr ⟨_, hlevel⟩) hlong
  · have hvalid := h.valid.resolve_right fun h => hlong h.2
    by_cases hkind : mark.kind = .number
    · have hdigits := h.digits rfl hkind
      obtain ⟨kind, text⟩ := mark
      obtain rfl : kind = .number := hkind
      cases htext : text.toList with
      | nil =>
          have hnumeral : (Number.ofNumeral? text.toList).isSome ∧ _ := hvalid
          rw [htext] at hnumeral
          cases hnumeral.1
      | cons first cs =>
          have hfirst : first.isDigit = true :=
            hdigits first (by rw [htext]; exact List.mem_cons_self)
          have hspelling : spelling ⟨.number, text⟩ = first :: cs := htext
          have hword : CharClass.isWord first = true :=
            CharClass.isWord_of_isHexDigit (CharClass.isHexDigit_of_isDigit hfirst)
          refine ⟨first, cs ++ rest, by rw [hspelling]; rfl, isDigit_isBlank hfirst,
            iff_of_true hfirst rfl, iff_of_false ?_ hlong⟩
          rw [Lexeme.level?_eq_none (Lexeme.ne_of_isWord hword (by decide))]
          decide
    · obtain ⟨hgap, first, cs, lexeme, hfront, hread, hlexeme, _⟩ :=
        hvalid.readsAs fun c hc => allows_of_admits (.inr hkind) (hrest c hc)
      refine ⟨first, cs, hfront, ?_, iff_of_false (fun hdigit => ?_) hkind,
        iff_of_false ?_ hlong⟩
      · refine Bool.eq_false_iff.mpr fun hblank => ?_
        rw [hfront, Lexeme.gap_blank hblank] at hgap
        cases hgap
      · exact hkind (hlexeme ▸ Lexeme.kind_of_isDigit hdigit hread)
      · rw [Lexeme.level?_of_read hread (hlexeme ▸ hlong)]
        decide

/-- A numeral of a plain text is all its digits. -/
theorem takeWhile_isDigit
    {mark : Mark}
    (h : mark.Admitted true)
    (hkind : mark.kind = .number)
    {rest : List Char}
    (hrest : ∀ c ∈ rest.head?, mark.admits true c = true) :
    (mark.spelling ++ rest).takeWhile Char.isDigit = mark.text.toList := by
  have hspelling : mark.spelling = mark.text.toList := by
    simp [spelling, hkind]
  rw [hspelling, List.takeWhile_append_of_pos (h.digits rfl hkind)]
  cases rest with
  | nil => simp
  | cons c rest => simp [not_isDigit_of_admits hkind (hrest c rfl)]

theorem eq_of_chars
    {mark other : Mark}
    (hkind : mark.kind = other.kind)
    (htext : mark.text.toList = other.text.toList) :
    mark = other := by
  cases mark
  cases other
  cases hkind
  cases String.toList_inj.mp htext
  rfl

/-- Two marks at the front of one text are the same. -/
theorem eq_of_spelling
    {mark other : Mark}
    (hmark : mark.Admitted true)
    (hother : other.Admitted true)
    {rest rest' : List Char}
    (hrest : ∀ c ∈ rest.head?, mark.admits true c = true)
    (hrest' : ∀ c ∈ rest'.head?, other.admits true c = true)
    (h : mark.spelling ++ rest = other.spelling ++ rest') :
    mark = other ∧ rest = rest' := by
  obtain ⟨first, cs, hfront, -, hnumeral, hlong⟩ := hmark.front hrest
  obtain ⟨first', cs', hfront', -, hnumeral', hlong'⟩ := hother.front hrest'
  obtain ⟨rfl, rfl⟩ := List.cons.inj (hfront.symm.trans (h.trans hfront'))
  have hself : mark = other := by
    by_cases hkind : mark.kind = .number
    · have hkind' : other.kind = .number := hnumeral'.mp (hnumeral.mpr hkind)
      have htext : mark.text.toList = other.text.toList := by
        rw [← takeWhile_isDigit hmark hkind hrest, h, takeWhile_isDigit hother hkind' hrest']
      exact eq_of_chars (hkind.trans hkind'.symm) htext
    by_cases hstring : mark.kind = .string .long
    · have hstring' : other.kind = .string .long := hlong'.mp (hlong.mpr hstring)
      rw [spelling_long hstring, spelling_long hstring'] at h
      exact eq_of_chars (hstring.trans hstring'.symm) (LongBracket.eq_of_quote h)
    -- The lexer reads any other mark back, and it reads one mark only.
    · have hkind' : other.kind ≠ .number := fun hkind' => hkind (hnumeral.mp (hnumeral'.mpr hkind'))
      have hstring' : other.kind ≠ .string .long := fun hstring' =>
        hstring (hlong.mp (hlong'.mpr hstring'))
      have hvalid := hmark.valid.resolve_right fun h => hstring h.2
      have hvalid' := hother.valid.resolve_right fun h => hstring' h.2
      obtain ⟨-, _, _, lexeme, hcs, hread, hlexeme, htext, -⟩ :=
        hvalid.readsAs fun c hc => allows_of_admits (.inr hkind) (hrest c hc)
      obtain ⟨-, _, _, lexeme', hcs', hread', hlexeme', htext', -⟩ :=
        hvalid'.readsAs fun c hc => allows_of_admits (.inr hkind') (hrest' c hc)
      obtain ⟨rfl, rfl⟩ := List.cons.inj (hcs.symm.trans (h.trans hcs'))
      obtain rfl : lexeme = lexeme' := Except.ok.inj (hread.symm.trans hread')
      exact eq_of_chars (hlexeme.symm.trans hlexeme') (htext.symm.trans htext')
  refine ⟨hself, ?_⟩
  rw [hself] at h
  exact List.append_cancel_left h

end Mark

namespace Spelled

/-- A plain text spells one list of marks only. -/
theorem unique
    {cs : List Char}
    {marks marks' : List Mark}
    (h : Spelled true cs marks)
    (h' : Spelled true cs marks') :
    marks = marks' := by
  induction h generalizing marks' with
  | nil =>
      generalize hcs : ([] : List Char) = cs at h'
      cases h' with
      | nil => rfl
      | blank hc _ => cases hcs
      | mark hmark hrest _ =>
          obtain ⟨first, cs, hfront, -⟩ := hmark.front hrest
          cases hcs.trans hfront
  | @blank c cs marks hc hcs ih =>
      generalize hwhole : c :: cs = whole at h'
      cases h' with
      | nil => cases hwhole
      | blank _ h' =>
          obtain ⟨rfl, rfl⟩ := List.cons.inj hwhole
          exact ih h'
      | mark hmark hrest _ =>
          obtain ⟨first, cs, hfront, hblank, -, -⟩ := hmark.front hrest
          obtain ⟨rfl, -⟩ := List.cons.inj (hwhole.trans hfront)
          rw [hc] at hblank
          cases hblank
  | @mark mark rest marks hmark hrest _ ih =>
      obtain ⟨first, cs, hfront, hblank, -, -⟩ := hmark.front hrest
      generalize hwhole : mark.spelling ++ rest = whole at h'
      cases h' with
      | nil => cases hfront.symm.trans hwhole
      | blank hc _ =>
          obtain ⟨rfl, -⟩ := List.cons.inj (hfront.symm.trans hwhole)
          rw [hc] at hblank
          cases hblank
      | mark hmark' hrest' h' =>
          obtain ⟨rfl, rfl⟩ := Mark.eq_of_spelling hmark hmark' hrest hrest' hwhole
          rw [ih h']

end Spelled
end LuaView
