import LuaView.Proofs.Markup.WellFormed

/-!
# Markup can be cut into signs

A sign is a tag or a single character of a text.  What is written for the signs is a prefix code: if
two sequences of signs are written in the same way, they are the same.  The class of a tag must not
hold a quote, and no class of an element does.
-/

namespace LuaView
namespace Html

/-- A tag, or a character of a text. -/
inductive Sign where
  | opening (tag : Tag) (classes : String)
  | closing (tag : Tag)
  | char (c : Char)

/-- The signs that a piece of markup consists of. -/
def Piece.signs : Piece → List Sign
  | .opening tag classes => [.opening tag classes]
  | .closing tag => [.closing tag]
  | .text cs => cs.map .char

/-- The signs of a sequence of pieces. -/
def signs (pieces : List Piece) : List Sign :=
  pieces.flatMap Piece.signs

@[simp] theorem signs_nil : signs [] = [] := rfl

@[simp] theorem signs_cons
    (piece : Piece)
    (pieces : List Piece) :
    signs (piece :: pieces) = piece.signs ++ signs pieces := rfl

/-- The signs of pieces, one behind the other. -/
@[simp] theorem signs_append
    (pieces pieces' : List Piece) :
    signs (pieces ++ pieces') = signs pieces ++ signs pieces' := by
  simp [signs]

namespace Sign

def write : Sign → List Char
  | .opening tag classes => (Piece.opening tag classes).write
  | .closing tag => (Piece.closing tag).write
  | .char c => escapeChar c

/-- The class of a tag ends at the quote behind it. -/
def Valid : Sign → Prop
  | .opening _ classes => ∀ c ∈ classes.toList, isSpecial c = false
  | _ => True

end Sign

/-- A document is written sign by sign. -/
theorem write_eq_signs (pieces : List Piece) :
    write pieces = (signs pieces).flatMap Sign.write := by
  induction pieces with
  | nil => rfl
  | cons piece pieces ih =>
      rw [write_cons, signs_cons, List.flatMap_append, ih]
      cases piece with
      | opening tag classes => simp [Piece.signs, Sign.write]
      | closing tag => simp [Piece.signs, Sign.write]
      | text cs => simp [Piece.signs, Sign.write, Piece.write, escape, List.flatMap_map]

/-! ## A prefix code -/

/-- No name of a tag begins another one, so the tag can be read off the text. -/
theorem eq_of_tagName
    {tag tag' : Tag}
    {rest rest' : List Char}
    (h : tag.name.toList ++ rest = tag'.name.toList ++ rest') :
    tag = tag' ∧ rest = rest' := by
  cases tag <;> cases tag' <;> simp_all [Tag.name]

/-- Characters up to the first one that is special. -/
theorem eq_of_special
    {cs cs' rest rest' : List Char}
    (hcs : ∀ c ∈ cs, isSpecial c = false)
    (hcs' : ∀ c ∈ cs', isSpecial c = false)
    (h : cs ++ '"' :: rest = cs' ++ '"' :: rest') :
    cs = cs' ∧ rest = rest' := by
  induction cs generalizing cs' with
  | nil =>
      cases cs' with
      | nil => exact ⟨rfl, (List.cons.inj h).2⟩
      | cons c cs' =>
          obtain ⟨rfl, -⟩ := List.cons.inj h
          exact absurd (hcs' _ List.mem_cons_self) (by decide)
  | cons c cs ih =>
      obtain ⟨hc, hcs⟩ := List.forall_mem_cons.mp hcs
      cases cs' with
      | nil =>
          obtain ⟨rfl, -⟩ := List.cons.inj h
          exact absurd hc (by decide)
      | cons c' cs' =>
          obtain ⟨rfl, hrest⟩ := List.cons.inj h
          obtain ⟨rfl, rfl⟩ := ih hcs (List.forall_mem_cons.mp hcs').2 hrest
          exact ⟨rfl, rfl⟩

/-- No escape of a character begins that of another one. -/
theorem eq_of_escapeChar
    {c c' : Char}
    {rest rest' : List Char}
    (h : escapeChar c ++ rest = escapeChar c' ++ rest') :
    c = c' ∧ rest = rest' := by
  have hunescaped := congrArg unescape h
  rw [unescape_escapeChar, unescape_escapeChar] at hunescaped
  obtain ⟨rfl, -⟩ := List.cons.inj hunescaped
  exact ⟨rfl, List.append_cancel_left h⟩

/-- A character of a text does not start like a tag. -/
theorem escapeChar_ne_tag
    {c : Char}
    {rest rest' : List Char} :
    escapeChar c ++ rest ≠ '<' :: rest' := by
  intro h
  rcases special_cases c with hc | ⟨name, hname⟩
  · rw [escapeChar_of_not_special hc] at h
    exact (plain_of_not_special hc).1 (List.cons.inj h).1
  · rw [escapeChar_of_reference hname] at h
    exact absurd (List.cons.inj h).1 (by decide)

/-- The name of an element does not start like the end of a closing tag. -/
theorem tagName_ne_slash
    {tag : Tag}
    {rest rest' : List Char} :
    tag.name.toList ++ rest ≠ '/' :: rest' := by
  cases tag <;> simp [Tag.name]

theorem opening_write
    (tag : Tag)
    (classes : String)
    (rest : List Char) :
    (Sign.opening tag classes).write ++ rest =
      '<' :: (tag.name.toList ++
        (" class=\"".toList ++ (classes.toList ++ '"' :: '>' :: rest))) := by
  simp [Sign.write, Piece.write]

theorem closing_write
    (tag : Tag)
    (rest : List Char) :
    (Sign.closing tag).write ++ rest = '<' :: '/' :: (tag.name.toList ++ '>' :: rest) := by
  simp [Sign.write, Piece.write]

/-- The first sign of a text can be told from the text. -/
theorem Sign.eq_of_write
    {sign sign' : Sign}
    (hvalid : sign.Valid)
    (hvalid' : sign'.Valid)
    {rest rest' : List Char}
    (h : sign.write ++ rest = sign'.write ++ rest') :
    sign = sign' ∧ rest = rest' := by
  cases sign with
  | opening tag classes =>
      rw [opening_write] at h
      cases sign' with
      | opening tag' classes' =>
          rw [opening_write] at h
          obtain ⟨rfl, hclasses⟩ := eq_of_tagName (List.cons.inj h).2
          obtain ⟨hclasses, hrest⟩ :=
            eq_of_special hvalid hvalid' (List.append_cancel_left hclasses)
          obtain rfl := String.toList_inj.mp hclasses
          exact ⟨rfl, (List.cons.inj hrest).2⟩
      | closing tag' =>
          rw [closing_write] at h
          exact absurd (List.cons.inj h).2 tagName_ne_slash
      | char c' => exact absurd h.symm escapeChar_ne_tag
  | closing tag =>
      rw [closing_write] at h
      cases sign' with
      | opening tag' classes' =>
          rw [opening_write] at h
          exact absurd (List.cons.inj h).2.symm tagName_ne_slash
      | closing tag' =>
          rw [closing_write] at h
          obtain ⟨rfl, hrest⟩ := eq_of_tagName (List.cons.inj (List.cons.inj h).2).2
          exact ⟨rfl, (List.cons.inj hrest).2⟩
      | char c' => exact absurd h.symm escapeChar_ne_tag
  | char c =>
      cases sign' with
      | opening tag' classes' =>
          rw [opening_write] at h
          exact absurd h escapeChar_ne_tag
      | closing tag' =>
          rw [closing_write] at h
          exact absurd h escapeChar_ne_tag
      | char c' =>
          obtain ⟨rfl, hrest⟩ := eq_of_escapeChar h
          exact ⟨rfl, hrest⟩

/-- Every sign is written with at least one character. -/
theorem Sign.write_ne_nil (sign : Sign) : sign.write ≠ [] := by
  cases sign with
  | opening tag classes => exact List.cons_ne_nil _ _
  | closing tag => exact List.cons_ne_nil _ _
  | char c =>
      rcases special_cases c with hc | ⟨name, hname⟩
      · rw [write, escapeChar_of_not_special hc]
        exact List.cons_ne_nil _ _
      · rw [write, escapeChar_of_reference hname]
        exact List.cons_ne_nil _ _

/-- A text can be cut into signs in one way only. -/
theorem eq_of_flatMap_write
    {ss ss' : List Sign}
    (hvalid : ∀ sign ∈ ss, sign.Valid)
    (hvalid' : ∀ sign ∈ ss', sign.Valid)
    (h : ss.flatMap Sign.write = ss'.flatMap Sign.write) :
    ss = ss' := by
  induction ss generalizing ss' with
  | nil =>
      cases ss' with
      | nil => rfl
      | cons sign' ss' =>
          have hnil := List.append_eq_nil_iff.mp h.symm
          exact absurd hnil.1 sign'.write_ne_nil
  | cons sign ss ih =>
      obtain ⟨hsign, hss⟩ := List.forall_mem_cons.mp hvalid
      cases ss' with
      | nil =>
          have hnil := List.append_eq_nil_iff.mp h
          exact absurd hnil.1 sign.write_ne_nil
      | cons sign' ss' =>
          obtain ⟨hsign', hss'⟩ := List.forall_mem_cons.mp hvalid'
          obtain ⟨rfl, hrest⟩ := Sign.eq_of_write hsign hsign' h
          rw [ih hss hss' hrest]

/-! ## The signs of elements are valid -/

/-- All signs of the pieces are valid. -/
def Valid (pieces : List Piece) : Prop :=
  ∀ sign ∈ signs pieces, sign.Valid

namespace Valid

variable {pieces pieces' : List Piece}

theorem nil : Valid [] := nofun

/-- Two valid documents, one behind the other. -/
theorem append
    (h : Valid pieces)
    (h' : Valid pieces') :
    Valid (pieces ++ pieces') := by
  rw [Valid, signs_append, List.forall_mem_append]
  exact ⟨h, h'⟩

theorem text
    {cs : List Char}
    (h : Valid pieces) :
    Valid (.text cs :: pieces) := by
  refine List.forall_mem_append.mpr ⟨fun sign hsign => ?_, h⟩
  obtain ⟨c, -, rfl⟩ := List.mem_map.mp hsign
  trivial

theorem closing
    {tag : Tag}
    (h : Valid pieces) :
    Valid (.closing tag :: pieces) :=
  List.forall_mem_cons.mpr ⟨trivial, h⟩

/-- An opening tag is valid if its classes hold no special character. -/
theorem opening
    {tag : Tag}
    {classes : String}
    (hclasses : ∀ c ∈ classes.toList, isSpecial c = false)
    (h : Valid pieces) :
    Valid (.opening tag classes :: pieces) :=
  List.forall_mem_cons.mpr ⟨hclasses, h⟩

end Valid

mutual

/-- An element in a line is valid. -/
theorem valid_inline : ∀ element : Element, Valid (inline element)
  | .text _ => .text .nil
  | .leaf _ emphasis => .opening (not_special_emphasis emphasis) (.text (.closing .nil))
  | .container role layout children =>
      .opening (not_special_inlineClasses role layout)
        ((valid_run (Element.isCompact role children) none children).append (.closing .nil))

/-- A run of elements is valid. -/
theorem valid_run (compact : Bool) (previous : Option Element) :
    ∀ children : List Element, Valid (run compact previous children)
  | [] => .nil
  | child :: rest =>
      .text ((valid_inline child).append (valid_run compact (some child) rest))

end

theorem valid_line
    {width depth : Nat}
    {pieces : List Piece}
    (h : Valid pieces) :
    Valid (indentation width depth :: pieces ++ [lineBreak]) :=
  .text (h.append (.text .nil))

theorem valid_box
    (layout : Layout)
    (hbox : isBox layout = true)
    {width depth : Nat}
    {role : Role}
    {children : List Element}
    (h : Valid (blocks width (depth + 1) children)) :
    Valid (block width depth (.container role layout children)) := by
  have hbetween : Valid (between width depth children) := by
    cases children with
    | nil => exact .nil
    | cons child children => exact .text (h.append (.text .nil))
  rw [block_box hbox]
  exact valid_line (.opening (not_special_className role) (hbetween.append (.closing .nil)))

mutual

/-- An element with lines of its own is valid. -/
theorem valid_block (width depth : Nat) : ∀ element : Element, Valid (block width depth element)
  | .text run => valid_line (valid_inline (.text run))
  | .leaf word emphasis => valid_line (valid_inline (.leaf word emphasis))
  | .container role .inline children => valid_line (valid_inline (.container role .inline children))
  | .container role .cell children => by
      rw [block_cell]
      exact valid_line (.opening (not_special_className role)
        ((valid_run (Element.isCompact role children) none children).append (.closing .nil)))
  | .container _ .block children =>
      valid_box .block rfl (valid_blocks width (depth + 1) children)
  | .container _ .table children =>
      valid_box .table rfl (valid_blocks width (depth + 1) children)
  | .container _ .row children =>
      valid_box .row rfl (valid_blocks width (depth + 1) children)

theorem valid_blocks (width depth : Nat) :
    ∀ children : List Element, Valid (blocks width depth children)
  | [] => .nil
  | child :: rest => (valid_block width depth child).append (valid_blocks width depth rest)

end

/-- Elements on lines of their own have the same signs if they have the same markup. -/
theorem signs_eq_of_write
    {width depth : Nat}
    {element element' : Element}
    (h : write (block width depth element) = write (block width depth element')) :
    signs (block width depth element) = signs (block width depth element') := by
  rw [write_eq_signs, write_eq_signs] at h
  exact eq_of_flatMap_write (valid_block width depth element) (valid_block width depth element') h

end Html
end LuaView
