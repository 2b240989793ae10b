import LuaView.Json.Writer
import LuaView.Proofs.Json.Grammar
import LuaView.Proofs.Number.Rereading

/-!
# What is written is JSON

In every layout that has nothing but blanks between the parts of a value, the writer writes a
spelling of the value it is given.  So the reader reads the value back, and the blanks, which differ
from layout to layout, do not matter to it.

Strings, arrays and objects are spelled as they come.  A decimal is kept as its numeral, so the
numeral has to denote it.
-/

namespace LuaView

/-! ## Strings -/

namespace CharClass

/-- The digits of base sixteen have the values that they are written for. -/
theorem digitValue_digitChar :
    ∀ digit < 16, digitValue digit.digitChar = digit := by
  decide

theorem isHexDigit_digitChar :
    ∀ digit < 16, isHexDigit digit.digitChar = true := by
  decide

end CharClass

namespace Json

open CharClass (digitsValue isHexDigit isHexDigit_digitChar digitValue_digitChar)

/-- A control character that has no short escape is spelled by the number of it. -/
theorem isUnit_hexDigits
    {c : Char}
    (h : c.toNat < 0x20) :
    IsUnit ['0', '0', hexDigit (c.toNat / 16), hexDigit (c.toNat % 16)] c.toNat := by
  have hfirst : c.toNat / 16 < 16 := by omega
  have hsecond : c.toNat % 16 < 16 := by omega
  refine ⟨rfl, ?_, ?_⟩
  · simp only [List.forall_mem_cons]
    exact ⟨rfl, rfl, isHexDigit_digitChar _ hfirst, isHexDigit_digitChar _ hsecond, nofun⟩
  · have hzero : CharClass.digitValue '0' = 0 := rfl
    simp only [digitsValue, List.foldl_cons, List.foldl_nil, hexDigit, hzero,
      digitValue_digitChar _ hfirst, digitValue_digitChar _ hsecond]
    omega

/-- The escape of a character spells the character. -/
theorem spellsChar_escapeChar (c : Char) :
    SpellsChar c (escapeChar c) := by
  unfold escapeChar
  split
  · rename_i hquote
    exact .short (by rw [hquote]; decide)
  rename_i hquote
  split
  · rename_i hbackslash
    exact .short (by rw [hbackslash]; decide)
  rename_i hbackslash
  split
  · rename_i hbackspace
    exact .short (by rw [hbackspace]; decide)
  split
  · rename_i hfeed
    exact .short (by rw [hfeed]; decide)
  split
  · rename_i hline
    exact .short (by rw [hline]; decide)
  split
  · rename_i hreturn
    exact .short (by rw [hreturn]; decide)
  split
  · rename_i htab
    exact .short (by rw [htab]; decide)
  split
  · rename_i hcontrol
    exact .unit (isUnit_hexDigits hcontrol)
  · rename_i hcontrol
    exact .plain (Nat.le_of_not_lt hcontrol) hquote hbackslash

theorem spellsChars_flatMap_escapeChar (text : List Char) :
    SpellsChars text (text.flatMap escapeChar) := by
  induction text with
  | nil => exact .nil
  | cons c text ih => exact .cons (spellsChar_escapeChar c) ih

/-! ## Numbers -/

/-- Only zero is written with a zero in front. -/
theorem head?_toDigits_ne_zero
    {n : Nat}
    (h : 0 < n) :
    (Nat.toDigits 10 n).head? ≠ some '0' := by
  induction n using Nat.strongRecOn with
  | _ n ih =>
      rw [Nat.toDigits_eq_if (by decide)]
      split
      · rename_i hsmall
        have hchar : ∀ digit < 10, 0 < digit → digit.digitChar ≠ '0' := by decide
        simpa using hchar n hsmall h
      · rename_i hlarge
        rw [List.head?_append, Option.or_of_isSome (List.isSome_head?.mpr Nat.toDigits_ne_nil)]
        exact ih (n / 10) (by omega) (by omega)

theorem areDigits_toDigits (n : Nat) :
    AreDigits (Nat.toDigits 10 n) :=
  ⟨Nat.toDigits_ne_nil, fun _ hc => Nat.isDigit_of_mem_toDigits (by decide) (by decide) hc⟩

/-- Digits without needless zeros, behind a minus or no sign, denote an integer, except that zero
has no minus. -/
theorem number?_of_digits
    {cs digits : List Char}
    {sign : Option Bool}
    (hcut : Numeral.cutSign cs = (sign, digits))
    (hsign : sign ≠ some false)
    (hdigits : AreDigits digits)
    (hzero : digits.head? = some '0' → digits.length = 1)
    (hminus : sign.isSome = true → digitsValue 10 digits ≠ 0) :
    number? cs = some (.integer
      (if sign.isSome then -(digitsValue 10 digits : Int) else digitsValue 10 digits)) := by
  simp only [number?, hcut, Numeral.parts?_of_digits Lexeme.isBase_decimal hdigits.1 hdigits.2]
  simpa [Numeral.Parts.digits, Numeral.Parts.isPlain, hsign, hdigits.1] using ⟨hzero, hminus⟩

theorem toDigits_eq_of_head?
    {n : Nat}
    (h : (Nat.toDigits 10 n).head? = some '0') :
    Nat.toDigits 10 n = ['0'] := by
  rw [Nat.eq_zero_of_not_pos fun hpos => head?_toDigits_ne_zero hpos h]
  rfl

/-- An integer is written as a numeral. -/
theorem isNumeral_repr (value : Int) :
    IsNumeral value.repr.toList := by
  rw [Number.toList_repr, ← List.append_nil (_ ++ _), ← List.append_nil (_ ++ _)]
  refine .intro ?_ (areDigits_toDigits _) toDigits_eq_of_head? (.inl rfl) (.inl rfl)
  split
  · exact .inr rfl
  · exact .inl rfl

/-- The numeral of an integer is read as the integer. -/
theorem number?_repr (value : Int) :
    number? value.repr.toList = some (.integer value) := by
  have hdigits := areDigits_toDigits value.natAbs
  have hvalue := Numeral.digitsValue_toDigits_ten value.natAbs
  have hzero : (Nat.toDigits 10 value.natAbs).head? = some '0' →
      (Nat.toDigits 10 value.natAbs).length = 1 :=
    fun h => congrArg List.length (toDigits_eq_of_head? h)
  rw [Number.toList_repr]
  split
  · have hcut : Numeral.cutSign ('-' :: Nat.toDigits 10 value.natAbs) =
        (some true, Nat.toDigits 10 value.natAbs) := rfl
    rw [List.singleton_append, number?_of_digits hcut nofun hdigits hzero (by omega), hvalue]
    exact congrArg (some ∘ integer) (by rw [Option.isSome_some, if_pos rfl]; omega)
  · have hcut := Numeral.cutSign_of_digits hdigits.2
    rw [List.nil_append, number?_of_digits hcut nofun hdigits hzero nofun, hvalue]
    exact congrArg (some ∘ integer) (by rw [Option.isSome_none, if_neg nofun]; omega)

mutual

/-- Every decimal inside the value is a numeral that denotes it. -/
def HasNumerals : Json → Prop
  | .decimal text => IsNumeral text.toList ∧ number? text.toList = some (.decimal text)
  | .array items => AllHaveNumerals items
  | .object members => MembersHaveNumerals members
  | _ => True

def AllHaveNumerals : List Json → Prop
  | [] => True
  | item :: items => item.HasNumerals ∧ AllHaveNumerals items

def MembersHaveNumerals : List (String × Json) → Prop
  | [] => True
  | (_, value) :: members => value.HasNumerals ∧ MembersHaveNumerals members

end

/-! ## Values -/

/-- There is nothing but blanks between the parts of a value. -/
structure Layout.IsBlank (layout : Layout) : Prop where
  lineBreak : ∀ depth, AreSpaces (layout.lineBreak depth)
  colon : ∃ after, AreSpaces after ∧ layout.colon = ':' :: after

theorem areSpaces_nil : AreSpaces [] :=
  nofun

theorem Layout.isBlank_indented (width : Nat) : (Layout.indented width).IsBlank := by
  refine ⟨fun depth c hc => ?_, [' '], ?_, rfl⟩
  · rcases List.mem_cons.mp hc with rfl | hc
    · exact .inr (.inl rfl)
    · exact .inl (List.eq_of_mem_replicate hc)
  · intro c hc
    exact .inl (List.mem_singleton.mp hc)

/-- What is written is a spelling of the node in front of what follows it. -/
def Puts (node : Node) (write : List Char → List Char) : Prop :=
  ∃ cs, Spells node cs ∧ ∀ rest, write rest = cs ++ rest

mutual

theorem puts_writeOnto
    {layout : Layout}
    (hlayout : layout.IsBlank) :
    ∀ (depth : Nat) (json : Json), json.HasNumerals →
      Puts (.value json) (writeOnto layout depth json)
  | _, .null, _ => ⟨_, .null, fun _ => rfl⟩
  | _, .bool true, _ => ⟨_, .true, fun _ => rfl⟩
  | _, .bool false, _ => ⟨_, .false, fun _ => rfl⟩
  | _, .integer value, _ =>
      ⟨_, .number (isNumeral_repr value) (number?_repr value), fun _ => rfl⟩
  | _, .decimal _, h => ⟨_, .number h.1 h.2, fun _ => rfl⟩
  | _, .string text, _ => by
      refine ⟨_, .string (spellsChars_flatMap_escapeChar text.toList), fun rest => ?_⟩
      rw [writeOnto, quoteOnto, List.cons_append, List.append_assoc]
      rfl
  | _, .array [], _ => ⟨_, .emptyArray areSpaces_nil, fun _ => rfl⟩
  | depth, .array (item :: items), h => by
      obtain ⟨cs, hcs, hwrite⟩ := puts_items hlayout (depth + 1) items h.2
        (puts_writeOnto hlayout (depth + 1) item h.1) (hlayout.lineBreak depth)
      refine ⟨_, .array hcs, fun rest => ?_⟩
      rw [writeOnto, List.cons_append, List.append_assoc]
      exact congrArg (List.cons '[') (hwrite (']' :: rest))
  | _, .object [], _ => ⟨_, .emptyObject areSpaces_nil, fun _ => rfl⟩
  | depth, .object ((name, value) :: members), h => by
      obtain ⟨cs, hcs, hwrite⟩ := puts_members hlayout (depth + 1) members h.2 name
        (puts_writeOnto hlayout (depth + 1) value h.1) (hlayout.lineBreak depth)
      refine ⟨_, .object hcs, fun rest => ?_⟩
      rw [writeOnto, List.cons_append, List.append_assoc]
      exact congrArg (List.cons '\x7b') (hwrite ('\x7d' :: rest))

/-- The items of an array, the first of which is written by the given function. -/
theorem puts_items
    {layout : Layout}
    (hlayout : layout.IsBlank) :
    ∀ (depth : Nat) (items : List Json), AllHaveNumerals items →
      ∀ {item : Json} {write : List Char → List Char}, Puts (.value item) write →
        ∀ {after : List Char}, AreSpaces after →
          Puts (.items (item :: items)) fun rest =>
            layout.lineBreak depth ++ write (writeItemsOnto layout depth items (after ++ rest))
  | depth, [], _, _, _, ⟨cs, hcs, hwrite⟩, after, hafter => by
      refine ⟨_, .lastItem (hlayout.lineBreak depth) hcs hafter, fun rest => ?_⟩
      simp only [writeItemsOnto, hwrite, List.append_assoc]
  | depth, next :: items, h, _, _, ⟨cs, hcs, hwrite⟩, after, hafter => by
      obtain ⟨more, hmore, hitems⟩ := puts_items hlayout depth items h.2
        (puts_writeOnto hlayout depth next h.1) hafter
      refine ⟨_, .nextItem (hlayout.lineBreak depth) hcs areSpaces_nil hmore, fun rest => ?_⟩
      simp only [writeItemsOnto, hwrite, hitems, List.append_assoc, List.nil_append,
        List.cons_append]

/-- The members of an object, the first of which has the given name and is written by the given
function. -/
theorem puts_members
    {layout : Layout}
    (hlayout : layout.IsBlank) :
    ∀ (depth : Nat) (members : List (String × Json)), MembersHaveNumerals members →
      ∀ (name : String) {value : Json} {write : List Char → List Char}, Puts (.value value) write →
        ∀ {after : List Char}, AreSpaces after →
          Puts (.members ((name, value) :: members)) fun rest =>
            layout.lineBreak depth ++ quoteOnto name (layout.colon ++
              write (writeMembersOnto layout depth members (after ++ rest)))
  | depth, [], _, name, _, _, ⟨cs, hcs, hwrite⟩, after, hafter => by
      obtain ⟨blank, hblank, hcolon⟩ := hlayout.colon
      refine ⟨_, .lastMember (hlayout.lineBreak depth) (spellsChars_flatMap_escapeChar name.toList)
        areSpaces_nil hblank hcs hafter, fun rest => ?_⟩
      simp only [writeMembersOnto, quoteOnto, hwrite, hcolon, List.append_assoc, List.nil_append,
        List.cons_append]
  | depth, (next, value) :: members, h, name, _, _, ⟨cs, hcs, hwrite⟩, after, hafter => by
      obtain ⟨blank, hblank, hcolon⟩ := hlayout.colon
      obtain ⟨more, hmore, hmembers⟩ := puts_members hlayout depth members h.2 next
        (puts_writeOnto hlayout depth value h.1) hafter
      refine ⟨_, .nextMember (hlayout.lineBreak depth) (spellsChars_flatMap_escapeChar name.toList)
        areSpaces_nil hblank hcs areSpaces_nil hmore, fun rest => ?_⟩
      simp only [writeMembersOnto, quoteOnto, hwrite, hcolon, ← hmembers, List.append_assoc,
        List.nil_append, List.cons_append]

end

/-- A value is spelled in every layout. -/
theorem spells_write
    {layout : Layout}
    (hlayout : layout.IsBlank)
    {json : Json}
    (h : json.HasNumerals) :
    Spells (.value json) (json.write layout) := by
  obtain ⟨cs, hcs, hwrite⟩ := puts_writeOnto hlayout 0 json h
  rw [write, hwrite, List.append_nil]
  exact hcs

/-- A value is read back in every layout. -/
theorem parse?_write
    {layout : Layout}
    (hlayout : layout.IsBlank)
    {json : Json}
    (h : json.HasNumerals) :
    parse? (String.ofList (json.write layout)) = some json := by
  simpa using parse?_of_spells areSpaces_nil (spells_write hlayout h) areSpaces_nil

end Json
end LuaView
