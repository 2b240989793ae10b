import LuaView.Json.Reader

/-!
# The grammar of JSON texts

`Spells node cs` says that the text `cs` is a spelling of the node: of a value, of the items of an
array, or of the members of an object.  A value has many spellings, since blanks may stand between
its parts and since most characters of a string can be escaped in more than one way.

The reader reads every spelling of a value as that value.  So a text spells one value at most.
-/

namespace LuaView
namespace Json

/-- Blanks that may stand around a value or a sign. -/
def AreSpaces (cs : List Char) : Prop :=
  ∀ c ∈ cs, c = ' ' ∨ c = '\n' ∨ c = '\r' ∨ c = '\t'

/-- Decimal digits, at least one. -/
def AreDigits (cs : List Char) : Prop :=
  cs ≠ [] ∧ ∀ c ∈ cs, c.isDigit = true

/-- A whole number without needless zeros in front, and optionally a minus before it, a fraction
and an exponent behind it. -/
inductive IsNumeral : List Char → Prop
  | intro
      {minus whole fraction exponent : List Char}
      (hminus : minus = [] ∨ minus = ['-'])
      (hwhole : AreDigits whole)
      (hzero : whole.head? = some '0' → whole = ['0'])
      (hfraction : fraction = [] ∨ ∃ digits, AreDigits digits ∧ fraction = '.' :: digits)
      (hexponent : exponent = [] ∨ ∃ mark sign digits, (mark = 'e' ∨ mark = 'E') ∧
        (sign = [] ∨ sign = ['+'] ∨ sign = ['-']) ∧ AreDigits digits ∧
          exponent = mark :: (sign ++ digits)) :
      IsNumeral (minus ++ whole ++ fraction ++ exponent)

/-- Four hexadecimal digits for a number. -/
structure IsUnit (digits : List Char) (unit : Nat) : Prop where
  length_eq : digits.length = 4
  isHexDigit : ∀ c ∈ digits, CharClass.isHexDigit c = true
  value_eq : CharClass.digitsValue 16 digits = unit

/-- The letters of the short escapes, each with the character it stands for. -/
def shortEscapes : List (Char × Char) :=
  [('"', '"'), ('\\', '\\'), ('/', '/'), ('b', '\x08'), ('f', '\x0c'), ('n', '\n'), ('r', '\r'),
    ('t', '\t')]

/-- How a character may be written in a string. -/
inductive SpellsChar : Char → List Char → Prop
  | plain
      {c : Char}
      (hcontrol : 0x20 ≤ c.toNat)
      (hquote : c ≠ '"')
      (hbackslash : c ≠ '\\') :
      SpellsChar c [c]
  | short
      {c letter : Char}
      (h : (letter, c) ∈ shortEscapes) :
      SpellsChar c ['\\', letter]
  | unit
      {c : Char} {digits : List Char}
      (h : IsUnit digits c.toNat) :
      SpellsChar c ('\\' :: 'u' :: digits)
  | pair
      {c : Char} {first second : List Char} {leading trailing : Nat}
      (hfirst : IsUnit first leading)
      (hsecond : IsUnit second trailing)
      (hleading : 0xD800 ≤ leading ∧ leading < 0xDC00)
      (htrailing : 0xDC00 ≤ trailing ∧ trailing < 0xE000)
      (hvalue : c.toNat = 0x10000 + (leading - 0xD800) * 0x400 + (trailing - 0xDC00)) :
      SpellsChar c ('\\' :: 'u' :: (first ++ '\\' :: 'u' :: second))

/-- How the characters of a string may be written. -/
inductive SpellsChars : List Char → List Char → Prop
  | nil :
      SpellsChars [] []
  | cons
      {c : Char} {text cs more : List Char}
      (h : SpellsChar c cs)
      (hrest : SpellsChars text more) :
      SpellsChars (c :: text) (cs ++ more)

/-- What is spelled. -/
inductive Node where
  | value (json : Json)
  /-- At least one item. -/
  | items (items : List Json)
  /-- At least one member. -/
  | members (members : List (String × Json))

/-- The text is a spelling of the node.  There are no blanks around a value, while blanks around an
item or a member belong to its spelling. -/
inductive Spells : Node → List Char → Prop
  | null :
      Spells (.value .null) ['n', 'u', 'l', 'l']
  | true :
      Spells (.value (.bool true)) ['t', 'r', 'u', 'e']
  | false :
      Spells (.value (.bool false)) ['f', 'a', 'l', 's', 'e']
  | number
      {json : Json} {numeral : List Char}
      (hnumeral : IsNumeral numeral)
      (hvalue : number? numeral = some json) :
      Spells (.value json) numeral
  | string
      {text : String} {cs : List Char}
      (h : SpellsChars text.toList cs) :
      Spells (.value (.string text)) ('"' :: (cs ++ ['"']))
  | emptyArray
      {blank : List Char}
      (hblank : AreSpaces blank) :
      Spells (.value (.array [])) ('[' :: (blank ++ [']']))
  | array
      {items : List Json} {cs : List Char}
      (h : Spells (.items items) cs) :
      Spells (.value (.array items)) ('[' :: (cs ++ [']']))
  | emptyObject
      {blank : List Char}
      (hblank : AreSpaces blank) :
      Spells (.value (.object [])) ('\x7b' :: (blank ++ ['\x7d']))
  | object
      {members : List (String × Json)} {cs : List Char}
      (h : Spells (.members members) cs) :
      Spells (.value (.object members)) ('\x7b' :: (cs ++ ['\x7d']))
  | lastItem
      {item : Json} {before cs after : List Char}
      (hbefore : AreSpaces before)
      (hitem : Spells (.value item) cs)
      (hafter : AreSpaces after) :
      Spells (.items [item]) (before ++ (cs ++ after))
  | nextItem
      {item : Json} {items : List Json} {before cs after more : List Char}
      (hbefore : AreSpaces before)
      (hitem : Spells (.value item) cs)
      (hafter : AreSpaces after)
      (hitems : Spells (.items items) more) :
      Spells (.items (item :: items)) (before ++ (cs ++ (after ++ ',' :: more)))
  | lastMember
      {name : String} {value : Json} {before key colon blank cs after : List Char}
      (hbefore : AreSpaces before)
      (hkey : SpellsChars name.toList key)
      (hcolon : AreSpaces colon)
      (hblank : AreSpaces blank)
      (hvalue : Spells (.value value) cs)
      (hafter : AreSpaces after) :
      Spells (.members [(name, value)])
        (before ++ '"' :: (key ++ '"' :: (colon ++ ':' :: (blank ++ (cs ++ after)))))
  | nextMember
      {name : String} {value : Json} {members : List (String × Json)}
      {before key colon blank cs after more : List Char}
      (hbefore : AreSpaces before)
      (hkey : SpellsChars name.toList key)
      (hcolon : AreSpaces colon)
      (hblank : AreSpaces blank)
      (hvalue : Spells (.value value) cs)
      (hafter : AreSpaces after)
      (hmembers : Spells (.members members) more) :
      Spells (.members ((name, value) :: members))
        (before ++ '"' :: (key ++ '"' :: (colon ++ ':' ::
          (blank ++ (cs ++ (after ++ ',' :: more))))))

/-! ## Reading strings -/

theorem IsUnit.exists_digits
    {digits : List Char}
    {unit : Nat}
    (h : IsUnit digits unit) :
    ∃ a b c d, digits = [a, b, c, d] ∧ unit? [a, b, c, d] = some unit := by
  obtain ⟨hlength, hdigits, hvalue⟩ := h
  match digits, hlength with
  | [a, b, c, d], _ =>
      refine ⟨a, b, c, d, rfl, ?_⟩
      rw [unit?, if_pos (List.all_eq_true.mpr hdigits), hvalue]

/-- Every short escape stands for its character. -/
theorem unescape?_of_mem :
    ∀ escape ∈ shortEscapes, unescape? escape.1 = some escape.2 ∧ escape.1 ≠ 'u' := by
  decide

/-- No character is half of a pair. -/
theorem not_isLeading_toNat (c : Char) : isLeading c.toNat = false := by
  have hvalid : c.toNat < 0xD800 ∨ 0xDFFF < c.toNat ∧ c.toNat < 0x110000 := c.valid
  simp only [isLeading, Bool.and_eq_false_iff, decide_eq_false_iff_not]
  omega

theorem not_isTrailing_toNat (c : Char) : isTrailing c.toNat = false := by
  have hvalid : c.toNat < 0xD800 ∨ 0xDFFF < c.toNat ∧ c.toNat < 0x110000 := c.valid
  simp only [isTrailing, Bool.and_eq_false_iff, decide_eq_false_iff_not]
  omega

/-- A written character is read, and then the rest of the string. -/
theorem readString?_char
    {c : Char}
    {cs : List Char}
    (h : SpellsChar c cs)
    {rest text after : List Char}
    (hrest : readString? rest = some (text, after)) :
    readString? (cs ++ rest) = some (c :: text, after) := by
  cases h with
  | plain hcontrol hquote hbackslash =>
      have hplain : (decide (c.toNat < 0x20) || decide (c = '\\')) = false := by
        simp [hbackslash, hcontrol]
      rw [List.singleton_append, readString?.eq_5 c rest hquote
        (fun _ _ _ _ _ h _ => hbackslash h) (fun _ _ h _ => hbackslash h), hplain, hrest]
      rfl
  | short h =>
      obtain ⟨hletter, hunit⟩ := unescape?_of_mem _ h
      rw [List.cons_append, List.singleton_append,
        readString?.eq_4 _ rest fun _ _ _ _ _ h _ => hunit h, hletter, hrest]
      rfl
  | unit h =>
      obtain ⟨a, b, d, e, rfl, hunit⟩ := h.exists_digits
      simp only [List.cons_append, List.nil_append, readString?, hunit, hrest, Option.bind_eq_bind,
        Option.bind_some, not_isLeading_toNat, not_isTrailing_toNat, Bool.false_eq_true, if_false,
        Char.ofNat_toNat]
      rfl
  | @pair _ _ leading trailing hfirst hsecond hleading htrailing hvalue =>
      obtain ⟨a, b, d, e, rfl, hunit⟩ := hfirst.exists_digits
      obtain ⟨a', b', d', e', rfl, hunit'⟩ := hsecond.exists_digits
      have hlead : isLeading leading = true := by simpa [isLeading] using hleading
      have htrail : isTrailing trailing = true := by simpa [isTrailing] using htrailing
      simp only [List.cons_append, List.nil_append, readString?, hunit, hunit', hrest,
        Option.bind_eq_bind, Option.bind_some, hlead, htrail, if_true, ← hvalue, Char.ofNat_toNat]
      rfl

/-- A string is read up to its closing quotation mark. -/
theorem readString?_chars
    {text cs : List Char}
    (h : SpellsChars text cs)
    (rest : List Char) :
    readString? (cs ++ '"' :: rest) = some (text, rest) := by
  induction h with
  | nil => rfl
  | cons hchar _ ih =>
      rw [List.append_assoc]
      exact readString?_char hchar ih

/-! ## Reading values -/

theorem isSpace_eq_true_iff {c : Char} :
    isSpace c = true ↔ c = ' ' ∨ c = '\n' ∨ c = '\r' ∨ c = '\t' := by
  simp [isSpace, or_assoc]

/-- Blanks are skipped. -/
theorem skipSpace_append
    {blank : List Char}
    (hblank : AreSpaces blank)
    (cs : List Char) :
    skipSpace (blank ++ cs) = skipSpace cs :=
  List.dropWhile_append_of_pos fun c hc => isSpace_eq_true_iff.mpr (hblank c hc)

theorem skipSpace_cons
    {c : Char}
    (hc : isSpace c = false)
    (cs : List Char) :
    skipSpace (c :: cs) = c :: cs :=
  List.dropWhile_cons_of_neg (by simp [hc])

/-- Blank space in front of a value is skipped. -/
theorem readValue?_append
    {blank : List Char}
    (hblank : AreSpaces blank)
    (fuel : Nat)
    (cs : List Char) :
    readValue? fuel (blank ++ cs) = readValue? fuel cs := by
  cases fuel with
  | zero => rw [readValue?, readValue?]
  | succ fuel => rw [readValue?, readValue?, skipSpace_append hblank]

/-- A text that starts a value, and not the end of an array or an object. -/
def Opens (cs : List Char) : Prop :=
  ∃ c more, cs = c :: more ∧ isSpace c = false ∧ c ≠ ']'

theorem Opens.skipSpace_append
    {cs : List Char}
    (h : Opens cs)
    (rest : List Char) :
    skipSpace (cs ++ rest) = cs ++ rest := by
  obtain ⟨c, more, rfl, hc, -⟩ := h
  exact skipSpace_cons hc _

/-- The first character of a numeral is a minus or a digit. -/
theorem IsNumeral.exists_front
    {numeral : List Char}
    (h : IsNumeral numeral) :
    ∃ c more, numeral = c :: more ∧ (c = '-' ∨ c.isDigit = true) := by
  cases h with
  | @intro minus whole fraction exponent hminus hwhole _ _ _ =>
      obtain ⟨hwhole, hdigits⟩ := hwhole
      rcases hminus with rfl | rfl
      · cases whole with
        | nil => exact absurd rfl hwhole
        | cons c whole => exact ⟨c, _, rfl, .inr (hdigits c List.mem_cons_self)⟩
      · exact ⟨'-', _, rfl, .inl rfl⟩

theorem isNumeralChar_of_isDigit
    {c : Char}
    (h : c.isDigit = true) :
    isNumeralChar c = true := by
  simp [isNumeralChar, h]

theorem IsNumeral.isNumeralChar
    {numeral : List Char}
    (h : IsNumeral numeral) :
    ∀ c ∈ numeral, isNumeralChar c = true := by
  cases h with
  | @intro minus whole fraction exponent hminus hwhole _ hfraction hexponent =>
      have hdigits {digits : List Char} (h : AreDigits digits) :
          ∀ c ∈ digits, Json.isNumeralChar c = true :=
        fun c hc => isNumeralChar_of_isDigit (h.2 c hc)
      simp only [List.forall_mem_append]
      refine ⟨⟨⟨?_, hdigits hwhole⟩, ?_⟩, ?_⟩
      · rcases hminus with rfl | rfl
        · exact nofun
        · exact List.forall_mem_singleton.mpr rfl
      · rcases hfraction with rfl | ⟨digits, h, rfl⟩
        · exact nofun
        · exact List.forall_mem_cons.mpr ⟨rfl, hdigits h⟩
      · rcases hexponent with rfl | ⟨mark, sign, digits, hmark, hsign, h, rfl⟩
        · exact nofun
        · refine List.forall_mem_cons.mpr ⟨?_, List.forall_mem_append.mpr ⟨?_, hdigits h⟩⟩
          · rcases hmark with rfl | rfl <;> rfl
          · rcases hsign with rfl | rfl | rfl
            · exact nofun
            · exact List.forall_mem_singleton.mpr rfl
            · exact List.forall_mem_singleton.mpr rfl

/-- What a value may stand in front of. -/
def EndsNumeral (rest : List Char) : Prop :=
  ∀ c ∈ rest.head?, isNumeralChar c = false

theorem endsNumeral_cons
    {c : Char}
    (hc : isNumeralChar c = false)
    (rest : List Char) :
    EndsNumeral (c :: rest) := by
  rintro _ ⟨⟩
  exact hc

theorem endsNumeral_append
    {blank rest : List Char}
    (hblank : AreSpaces blank)
    (hrest : EndsNumeral rest) :
    EndsNumeral (blank ++ rest) := by
  cases blank with
  | nil => exact hrest
  | cons space blank =>
      rintro _ ⟨⟩
      rcases hblank space List.mem_cons_self with rfl | rfl | rfl | rfl <;> rfl

/-- No value begins with blank space. -/
theorem Spells.opens_value
    {json : Json}
    {cs : List Char}
    (h : Spells (.value json) cs) :
    Opens cs := by
  cases h with
  | number hnumeral _ =>
      obtain ⟨c, more, rfl, hc⟩ := hnumeral.exists_front
      refine ⟨c, more, rfl, ?_⟩
      rcases hc with rfl | hdigit
      · decide
      · refine ⟨?_, ?_⟩
        · rw [Bool.eq_false_iff]
          intro hspace
          rcases isSpace_eq_true_iff.mp hspace with rfl | rfl | rfl | rfl <;> cases hdigit
        · rintro rfl
          cases hdigit
  | _ => exact ⟨_, _, rfl, by decide⟩

/-- The items of an array do not start with its end. -/
theorem Spells.opens_items
    {items : List Json}
    {cs : List Char}
    (h : Spells (.items items) cs)
    (rest : List Char) :
    ∃ c more, skipSpace (cs ++ rest) = c :: more ∧ c ≠ ']' := by
  cases h with
  | lastItem hbefore hitem _ =>
      obtain ⟨c, more, rfl, hc, hend⟩ := hitem.opens_value
      rw [List.append_assoc, skipSpace_append hbefore]
      exact ⟨c, _, skipSpace_cons hc _, hend⟩
  | nextItem hbefore hitem _ _ =>
      obtain ⟨c, more, rfl, hc, hend⟩ := hitem.opens_value
      rw [List.append_assoc, skipSpace_append hbefore]
      exact ⟨c, _, skipSpace_cons hc _, hend⟩

/-- The members of an object do not start with its end. -/
theorem Spells.opens_members
    {members : List (String × Json)}
    {cs : List Char}
    (h : Spells (.members members) cs)
    (rest : List Char) :
    ∃ more, skipSpace (cs ++ rest) = '"' :: more := by
  cases h with
  | lastMember hbefore _ _ _ _ _ =>
      rw [List.append_assoc, skipSpace_append hbefore]
      exact ⟨_, rfl⟩
  | nextMember hbefore _ _ _ _ _ _ =>
      rw [List.append_assoc, skipSpace_append hbefore]
      exact ⟨_, rfl⟩

/-- The reader reads the text as the node, whatever follows it. -/
def IsRead (cs : List Char) : Node → Prop
  | .value json => ∀ fuel rest, cs.length ≤ fuel → EndsNumeral rest →
      readValue? fuel (cs ++ rest) = some (json, rest)
  | .items values => ∀ fuel rest, cs.length < fuel →
      readItems? fuel (cs ++ ']' :: rest) = some (values, rest)
  | .members named => ∀ fuel rest, cs.length < fuel →
      readMembers? fuel (cs ++ '\x7d' :: rest) = some (named, rest)

/-- No word, string, array or object starts as a numeral does. -/
theorem IsNumeral.append_ne_cons
    {numeral : List Char}
    (h : IsNumeral numeral)
    {c : Char}
    (hc : ¬ (c = '-' ∨ c.isDigit = true))
    (rest more : List Char) :
    numeral ++ rest ≠ c :: more := by
  obtain ⟨front, behind, rfl, hfront⟩ := h.exists_front
  rintro ⟨⟩
  exact hc hfront

/-- A numeral is read up to what ends it. -/
theorem readPlain?_numeral
    {json : Json}
    {numeral : List Char}
    (hnumeral : IsNumeral numeral)
    (hvalue : number? numeral = some json)
    {rest : List Char}
    (hrest : EndsNumeral rest) :
    readPlain? (numeral ++ rest) = some (json, rest) := by
  have htake : (numeral ++ rest).takeWhile isNumeralChar = numeral := by
    rw [List.takeWhile_append_of_pos hnumeral.isNumeralChar]
    cases rest with
    | nil => simp
    | cons d rest => rw [List.takeWhile_cons_of_neg (by simp [hrest d rfl]), List.append_nil]
  have hdrop : (numeral ++ rest).dropWhile isNumeralChar = rest := by
    rw [List.dropWhile_append_of_pos hnumeral.isNumeralChar]
    cases rest with
    | nil => rfl
    | cons d rest => exact List.dropWhile_cons_of_neg (by simp [hrest d rfl])
  rw [readPlain?.eq_4, htake, hdrop, hvalue]
  · rfl
  all_goals exact fun _ h => hnumeral.append_ne_cons (by decide) _ _ h

theorem readValue?_numeral
    {json : Json}
    {numeral : List Char}
    (hnumeral : IsNumeral numeral)
    (hvalue : number? numeral = some json)
    (fuel : Nat)
    {rest : List Char}
    (hrest : EndsNumeral rest) :
    readValue? (fuel + 1) (numeral ++ rest) = some (json, rest) := by
  have hopens : Opens numeral := (Spells.number hnumeral hvalue).opens_value
  rw [readValue?, hopens.skipSpace_append]
  split
  · rename_i h
    exact absurd h (hnumeral.append_ne_cons (by decide) _ _)
  · rename_i h
    exact absurd h (hnumeral.append_ne_cons (by decide) _ _)
  · rename_i h
    exact absurd h (hnumeral.append_ne_cons (by decide) _ _)
  · exact readPlain?_numeral hnumeral hvalue hrest

theorem readValue?_string
    {text : String}
    {cs : List Char}
    (h : SpellsChars text.toList cs)
    (fuel : Nat)
    (rest : List Char) :
    readValue? (fuel + 1) ('"' :: (cs ++ '"' :: rest)) = some (.string text, rest) := by
  rw [readValue?, skipSpace_cons (by decide)]
  simp only [readString?_chars h, Option.bind_eq_bind, Option.bind_some, String.ofList_toList]
  rfl

/-- The items are read, and then the end of the array. -/
theorem readValue?_array
    {items : List Json}
    {cs : List Char}
    (h : Spells (.items items) cs)
    {fuel : Nat}
    {rest : List Char}
    (hread : readItems? fuel (cs ++ ']' :: rest) = some (items, rest)) :
    readValue? (fuel + 1) ('[' :: (cs ++ ']' :: rest)) = some (.array items, rest) := by
  obtain ⟨c, more, hskip, hc⟩ := h.opens_items (']' :: rest)
  rw [readValue?, skipSpace_cons (by decide)]
  simp only [hskip]
  split
  · rename_i hend
    exact absurd (List.head_eq_of_cons_eq hend) hc
  · rw [hread]
    rfl

/-- The members are read, and then the end of the object. -/
theorem readValue?_object
    {members : List (String × Json)}
    {cs : List Char}
    (h : Spells (.members members) cs)
    {fuel : Nat}
    {rest : List Char}
    (hread : readMembers? fuel (cs ++ '\x7d' :: rest) = some (members, rest)) :
    readValue? (fuel + 1) ('\x7b' :: (cs ++ '\x7d' :: rest)) = some (.object members, rest) := by
  obtain ⟨more, hskip⟩ := h.opens_members ('\x7d' :: rest)
  rw [readValue?, skipSpace_cons (by decide)]
  simp only [hskip, hread]
  rfl

/-- Every spelling is read. -/
theorem Spells.isRead
    {node : Node}
    {cs : List Char}
    (h : Spells node cs) :
    IsRead cs node := by
  induction h with
  | null =>
      rintro (_ | fuel) rest hfuel _
      · cases hfuel
      · rfl
  | true =>
      rintro (_ | fuel) rest hfuel _
      · cases hfuel
      · rfl
  | false =>
      rintro (_ | fuel) rest hfuel _
      · cases hfuel
      · rfl
  | number hnumeral hvalue =>
      rintro (_ | fuel) rest hfuel hrest
      · obtain ⟨c, more, rfl, -⟩ := hnumeral.exists_front
        cases hfuel
      · exact readValue?_numeral hnumeral hvalue fuel hrest
  | string h =>
      rintro (_ | fuel) rest hfuel _
      · cases hfuel
      · rw [List.cons_append, List.append_assoc]
        exact readValue?_string h fuel rest
  | emptyArray hblank =>
      rintro (_ | fuel) rest hfuel _
      · cases hfuel
      · rw [List.cons_append, List.append_assoc, readValue?, skipSpace_cons (by decide)]
        simp only [skipSpace_append hblank]
        rfl
  | array h ih =>
      rintro (_ | fuel) rest hfuel _
      · cases hfuel
      · rw [List.cons_append, List.append_assoc]
        refine readValue?_array h (ih fuel rest ?_)
        simp only [List.length_cons, List.length_append] at hfuel
        omega
  | emptyObject hblank =>
      rintro (_ | fuel) rest hfuel _
      · cases hfuel
      · rw [List.cons_append, List.append_assoc, readValue?, skipSpace_cons (by decide)]
        simp only [skipSpace_append hblank]
        rfl
  | object h ih =>
      rintro (_ | fuel) rest hfuel _
      · cases hfuel
      · rw [List.cons_append, List.append_assoc]
        refine readValue?_object h (ih fuel rest ?_)
        simp only [List.length_cons, List.length_append] at hfuel
        omega
  | @lastItem item before cs after hbefore hitem hafter ih =>
      rintro (_ | fuel) rest hfuel
      · cases hfuel
      · simp only [List.length_append] at hfuel
        have hvalue : readValue? fuel (cs ++ (after ++ ']' :: rest)) =
            some (item, after ++ ']' :: rest) :=
          ih fuel _ (by omega) (endsNumeral_append hafter (endsNumeral_cons rfl rest))
        simp only [List.append_assoc, readItems?, readValue?_append hbefore, hvalue,
          Option.bind_eq_bind, Option.bind_some, skipSpace_append hafter]
        rfl
  | @nextItem item items before cs after more hbefore hitem hafter hitems ihitem ihitems =>
      rintro (_ | fuel) rest hfuel
      · cases hfuel
      · simp only [List.length_append, List.length_cons] at hfuel
        have hvalue : readValue? fuel (cs ++ (after ++ ',' :: (more ++ ']' :: rest))) =
            some (item, after ++ ',' :: (more ++ ']' :: rest)) :=
          ihitem fuel _ (by omega) (endsNumeral_append hafter (endsNumeral_cons rfl _))
        have hmore : readItems? fuel (more ++ ']' :: rest) = some (items, rest) :=
          ihitems fuel rest (by omega)
        simp only [List.append_assoc, List.cons_append, readItems?, readValue?_append hbefore,
          hvalue, Option.bind_eq_bind, Option.bind_some, skipSpace_append hafter]
        simp only [skipSpace_cons (c := ',') (by decide), hmore]
        rfl
  | @lastMember name value before key colon blank cs after hbefore hkey hcolon hblank hvalue hafter
      ih =>
      rintro (_ | fuel) rest hfuel
      · cases hfuel
      · simp only [List.length_append, List.length_cons] at hfuel
        have hread : readValue? fuel (cs ++ (after ++ '\x7d' :: rest)) =
            some (value, after ++ '\x7d' :: rest) :=
          ih fuel _ (by omega) (endsNumeral_append hafter (endsNumeral_cons rfl rest))
        simp only [List.append_assoc, List.cons_append, readMembers?, skipSpace_append hbefore,
          skipSpace_cons (c := '"') (by decide), readString?_chars hkey, Option.bind_eq_bind,
          Option.bind_some, skipSpace_append hcolon, skipSpace_cons (c := ':') (by decide),
          readValue?_append hblank, hread, skipSpace_append hafter,
          skipSpace_cons (c := '\x7d') (by decide), String.ofList_toList]
        rfl
  | @nextMember name value members before key colon blank cs after more hbefore hkey hcolon hblank
      hvalue hafter hmembers ihvalue ihmembers =>
      rintro (_ | fuel) rest hfuel
      · cases hfuel
      · simp only [List.length_append, List.length_cons] at hfuel
        have hread : readValue? fuel (cs ++ (after ++ ',' :: (more ++ '\x7d' :: rest))) =
            some (value, after ++ ',' :: (more ++ '\x7d' :: rest)) :=
          ihvalue fuel _ (by omega) (endsNumeral_append hafter (endsNumeral_cons rfl _))
        have hmore : readMembers? fuel (more ++ '\x7d' :: rest) = some (members, rest) :=
          ihmembers fuel rest (by omega)
        simp only [List.append_assoc, List.cons_append, readMembers?, skipSpace_append hbefore,
          skipSpace_cons (c := '"') (by decide), readString?_chars hkey, Option.bind_eq_bind,
          Option.bind_some, skipSpace_append hcolon, skipSpace_cons (c := ':') (by decide),
          readValue?_append hblank, hread, skipSpace_append hafter,
          skipSpace_cons (c := ',') (by decide), hmore, String.ofList_toList]
        rfl

/-- Every spelling of a value, with blanks around it, is read as that value. -/
theorem parse?_of_spells
    {json : Json}
    {before cs after : List Char}
    (hbefore : AreSpaces before)
    (h : Spells (.value json) cs)
    (hafter : AreSpaces after) :
    parse? (String.ofList (before ++ (cs ++ after))) = some json := by
  have hread : readValue? (2 * (before ++ (cs ++ after)).length + 2) (before ++ (cs ++ after)) =
      some (json, after) := by
    rw [readValue?_append hbefore]
    refine h.isRead _ after ?_ ?_
    · simp only [List.length_append]
      omega
    · rw [← List.append_nil after]
      exact endsNumeral_append hafter nofun
  have hend : skipSpace after = [] := by
    rw [← List.append_nil after]
    exact skipSpace_append hafter []
  rw [parse?, String.toList_ofList]
  simp only [hread, Option.bind_eq_bind, Option.bind_some, hend, List.isEmpty_nil, if_true]
  rfl

end Json
end LuaView
