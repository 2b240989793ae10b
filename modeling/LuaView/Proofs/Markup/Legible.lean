import LuaView.Proofs.Markup.Signs

/-!
# Legible elements can be read back from their markup

An element is legible if its texts are not empty and have no blanks, if texts side by side are
separated by a space, and if a label holds more than texts.  The last condition is needed because
the class of a label is also that of a word in it.

A legible element is determined by its markup, with whatever follows: blanks in front of a child are
skipped, a text ends where a blank or a tag begins, and a tag says what kind of element it belongs
to.
-/

namespace LuaView
namespace Element

def isText : Element → Bool
  | .text _ => true
  | _ => false

/-- Texts side by side are separated by a space. -/
def textsApart (compact : Bool) : List Element → Bool
  | left :: right :: rest =>
      (!(left.isText && right.isText) || (!compact && spaceBetween left right)) &&
        textsApart compact (right :: rest)
  | _ => true

mutual

/-- The element can be read back from its markup. -/
def Legible : Element → Prop
  | .text run => run.toList ≠ [] ∧ ∀ c ∈ run.toList, isBlank c = false
  | .leaf _ _ => True
  | .container role _ children =>
      textsApart (isCompact role children) children = true ∧
        (role = .label → ∃ child ∈ children, child.isText = false) ∧ AllLegible children

def AllLegible : List Element → Prop
  | [] => True
  | child :: rest => child.Legible ∧ AllLegible rest

end

end Element

namespace Html

open Element (Legible AllLegible textsApart isText)

/-! ## Classes and tags -/

theorem find?_className (role : Role) :
    Role.all.find? (fun other => other.className == role.className) = some role := by
  cases role <;> rfl

/-- No two roles have the same class. -/
theorem className_inj
    {role role' : Role}
    (h : role.className = role'.className) :
    role = role' := by
  have hrole := find?_className role'
  rw [← h, find?_className role] at hrole
  exact Option.some.inj hrole

/-- The class of a layout, behind the space that separates it from the role. -/
def layoutClass : Layout → String
  | .inline => ""
  | layout => " layout-" ++ layout.key

theorem toList_inlineClasses
    (role : Role)
    (layout : Layout) :
    (inlineClasses role layout).toList = role.className.toList ++ (layoutClass layout).toList := by
  cases layout <;> simp [inlineClasses, layoutClass]

/-- The class of a role ends at the first space. -/
theorem takeWhile_inlineClasses
    (role : Role)
    (layout : Layout) :
    (inlineClasses role layout).toList.takeWhile (· != ' ') = role.className.toList := by
  have hrole : ∀ c ∈ role.className.toList, (c != ' ') = true :=
    List.all_eq_true.mp (by cases role <;> decide)
  have hlayout : (layoutClass layout).toList.takeWhile (· != ' ') = [] := by
    cases layout <;> decide
  rw [toList_inlineClasses, List.takeWhile_append_of_pos hrole, hlayout, List.append_nil]

/-- The classes of an element in a line show its role and its layout. -/
theorem inlineClasses_inj
    {role role' : Role}
    {layout layout' : Layout}
    (h : inlineClasses role layout = inlineClasses role' layout') :
    role = role' ∧ layout = layout' := by
  have hrole : role.className.toList = role'.className.toList := by
    rw [← takeWhile_inlineClasses role layout, h, takeWhile_inlineClasses]
  obtain rfl := className_inj (String.toList_inj.mp hrole)
  have hlayout := congrArg String.toList h
  rw [toList_inlineClasses, toList_inlineClasses] at hlayout
  have hclass := List.append_cancel_left hlayout
  refine ⟨rfl, ?_⟩
  cases layout <;> cases layout' <;> first | rfl | exact absurd hclass (by decide)

/-- A word has the class of a container only if that is a label. -/
theorem eq_label_of_key
    {emphasis : Emphasis}
    {role : Role}
    {layout : Layout}
    (h : emphasis.key = inlineClasses role layout) :
    role = .label := by
  have hkey : emphasis.key.toList.takeWhile (· != ' ') = emphasis.key.toList := by
    cases emphasis <;> decide
  have hclass : role.className = emphasis.key := by
    rw [← String.toList_inj, ← takeWhile_inlineClasses role layout, ← h, hkey]
  have hrole := find?_className role
  rw [hclass] at hrole
  cases emphasis with
  | label => exact (Option.some.inj hrole).symm
  | _ => cases hrole

/-- No two emphases have the same class. -/
theorem emphasis_inj
    {emphasis emphasis' : Emphasis}
    (h : emphasis.key = emphasis'.key) :
    emphasis = emphasis' := by
  cases emphasis <;> cases emphasis' <;> first | rfl | exact absurd h (by decide)

theorem ofLayout_inj
    {layout layout' : Layout}
    (h : Tag.ofLayout layout = Tag.ofLayout layout') :
    layout = layout' := by
  cases layout <;> cases layout' <;> first | rfl | cases h

/-! ## Signs at the front -/

/-- What an element can start with: a tag, or a character that is not blank. -/
def Sign.Fronts : Sign → Prop
  | .opening _ _ => True
  | .closing _ => False
  | .char c => isBlank c = false

/-- A text ends in front of the signs. -/
def Breaks (rest : List Sign) : Prop :=
  ∀ c, rest.head? = some (.char c) → isBlank c = true

/-- The signs start with a closing tag. -/
def Closes (rest : List Sign) : Prop :=
  ∃ tag more, rest = .closing tag :: more

theorem Closes.breaks
    {rest : List Sign}
    (h : Closes rest) :
    Breaks rest := by
  obtain ⟨tag, more, rfl⟩ := h
  nofun

def Sign.isTag : Sign → Bool
  | .char _ => false
  | _ => true

/-- Characters up to the first tag. -/
theorem eq_of_chars
    {cs cs' : List Char}
    {sign sign' : Sign}
    {rest rest' : List Sign}
    (hsign : sign.isTag = true)
    (hsign' : sign'.isTag = true)
    (h : cs.map .char ++ sign :: rest = cs'.map .char ++ sign' :: rest') :
    cs = cs' ∧ sign = sign' ∧ rest = rest' := by
  induction cs generalizing cs' with
  | nil =>
      cases cs' with
      | nil =>
          obtain ⟨rfl, rfl⟩ := List.cons.inj h
          exact ⟨rfl, rfl, rfl⟩
      | cons c cs' =>
          obtain rfl := (List.cons.inj h).1
          cases hsign
  | cons c cs ih =>
      cases cs' with
      | nil =>
          obtain rfl := (List.cons.inj h).1
          cases hsign'
      | cons c' cs' =>
          obtain ⟨hc, hcs⟩ := List.cons.inj h
          obtain ⟨rfl, hrest⟩ := ih hcs
          obtain rfl := Sign.char.inj hc
          exact ⟨rfl, hrest⟩

/-- Characters up to the first blank or tag. -/
theorem eq_of_text
    {cs cs' : List Char}
    {rest rest' : List Sign}
    (hcs : ∀ c ∈ cs, isBlank c = false)
    (hcs' : ∀ c ∈ cs', isBlank c = false)
    (hrest : Breaks rest)
    (hrest' : Breaks rest')
    (h : cs.map .char ++ rest = cs'.map .char ++ rest') :
    cs = cs' ∧ rest = rest' := by
  induction cs generalizing cs' with
  | nil =>
      cases cs' with
      | nil => exact ⟨rfl, h⟩
      | cons c cs' =>
          obtain rfl : rest = _ := h
          have hblank := hrest c rfl
          rw [hcs' c List.mem_cons_self] at hblank
          cases hblank
  | cons c cs ih =>
      obtain ⟨hc, hcs⟩ := List.forall_mem_cons.mp hcs
      cases cs' with
      | nil =>
          obtain rfl : _ = rest' := h
          have hblank := hrest' c rfl
          rw [hc] at hblank
          cases hblank
      | cons c' cs' =>
          obtain ⟨hchar, hmore⟩ := List.cons.inj h
          obtain rfl := Sign.char.inj hchar
          obtain ⟨rfl, rfl⟩ := ih hcs (List.forall_mem_cons.mp hcs').2 hmore
          exact ⟨rfl, rfl⟩

/-- Spaces in front of signs that are no spaces. -/
theorem eq_of_spaces
    {count count' : Nat}
    {first first' : Sign}
    {rest rest' : List Sign}
    (hfirst : first ≠ .char ' ')
    (hfirst' : first' ≠ .char ' ')
    (h : List.replicate count (.char ' ') ++ first :: rest =
      List.replicate count' (.char ' ') ++ first' :: rest') :
    first = first' ∧ rest = rest' := by
  induction count generalizing count' with
  | zero =>
      cases count' with
      | zero => exact List.cons.inj h
      | succ count' => exact absurd (List.cons.inj h).1 hfirst
  | succ count ih =>
      cases count' with
      | zero => exact absurd (List.cons.inj h).1.symm hfirst'
      | succ count' => exact ih (List.cons.inj h).2

theorem Sign.Fronts.ne_space
    {sign : Sign}
    (h : sign.Fronts) :
    sign ≠ .char ' ' := by
  rintro rfl
  exact absurd (show isBlank ' ' = false from h) (by decide)

/-- A legible element in a line starts with a tag of its own or with a visible character. -/
theorem front_inline
    {element : Element}
    (h : element.Legible) :
    ∃ first more, signs (inline element) = first :: more ∧ first.Fronts ∧
      (element.isText = false → ∃ classes, first = .opening .span classes) ∧
      (∀ tag classes, first = .opening tag classes → tag = .span) := by
  cases element with
  | text run =>
      obtain ⟨hrun, hblank⟩ : run.toList ≠ [] ∧ _ := h
      obtain ⟨c, cs, hcs⟩ := List.exists_cons_of_ne_nil hrun
      refine ⟨.char c, cs.map .char, ?_, ?_, nofun, nofun⟩
      · simp [inline, Piece.signs, hcs]
      · exact hblank c (hcs ▸ List.mem_cons_self)
  | leaf word emphasis =>
      refine ⟨.opening .span emphasis.key, _, rfl, trivial, fun _ => ⟨_, rfl⟩, ?_⟩
      rintro tag classes ⟨⟩
      rfl
  | container role layout children =>
      refine ⟨.opening .span (inlineClasses role layout), _, rfl, trivial, fun _ => ⟨_, rfl⟩, ?_⟩
      rintro tag classes ⟨⟩
      rfl

/-! ## Elements in a line -/

theorem leadingSpace_cases
    (compact : Bool)
    (previous : Option Element)
    (child : Element) :
    Element.leadingSpace compact previous child = [] ∨
      Element.leadingSpace compact previous child = [' '] := by
  unfold Element.leadingSpace
  split
  · exact .inr rfl
  · exact .inl rfl

/-- A run begins with the space in front of its first element. -/
theorem signs_run_cons
    (compact : Bool)
    (previous : Option Element)
    (child : Element)
    (children : List Element) :
    signs (run compact previous (child :: children)) =
      (Element.leadingSpace compact previous child).map .char ++
        (signs (inline child) ++ signs (run compact (some child) children)) := by
  simp [run, Piece.signs]

/-- A line with more than texts in it has a tag behind its first texts. -/
theorem signs_run_of_not_text
    {children : List Element}
    (h : ∃ child ∈ children, child.isText = false)
    (compact : Bool)
    (previous : Option Element) :
    ∃ (cs : List Char) (tag : Tag) (classes : String) (more : List Sign),
      signs (run compact previous children) = cs.map .char ++ .opening tag classes :: more := by
  induction children generalizing previous with
  | nil =>
      obtain ⟨child, hchild, -⟩ := h
      cases hchild
  | cons child children ih =>
      rw [signs_run_cons]
      cases child with
      | text run =>
          obtain ⟨child, hchild, htext⟩ := h
          have hmem : child ∈ children := by
            rcases List.mem_cons.mp hchild with rfl | hmem
            · cases htext
            · exact hmem
          obtain ⟨cs, tag, classes, more, hrun⟩ := ih ⟨child, hmem, htext⟩ (some (.text run))
          refine ⟨Element.leadingSpace compact previous (.text run) ++ (run.toList ++ cs), tag,
            classes, more, ?_⟩
          simp [hrun, inline, Piece.signs]
      | leaf word emphasis => exact ⟨_, .span, emphasis.key, _, rfl⟩
      | container role layout children => exact ⟨_, .span, inlineClasses role layout, _, rfl⟩

/-- The first child of a line does not start with the space in front of it. -/
theorem eq_of_leadingSpace
    {compact compact' : Bool}
    {previous previous' : Option Element}
    {child child' : Element}
    (hchild : child.Legible)
    (hchild' : child'.Legible)
    {rest rest' : List Sign}
    (h : (Element.leadingSpace compact previous child).map .char ++
        (signs (inline child) ++ rest) =
      (Element.leadingSpace compact' previous' child').map .char ++
        (signs (inline child') ++ rest')) :
    signs (inline child) ++ rest = signs (inline child') ++ rest' := by
  obtain ⟨first, more, hsigns, hfirst, -⟩ := front_inline hchild
  obtain ⟨first', more', hsigns', hfirst', -⟩ := front_inline hchild'
  rw [hsigns, hsigns'] at h ⊢
  have hspaces : ∀ compact previous child,
      ∃ count, (Element.leadingSpace compact previous child).map Sign.char =
        List.replicate count (.char ' ') := by
    intro compact previous child
    rcases leadingSpace_cases compact previous child with hspace | hspace
    · exact ⟨0, by rw [hspace]; rfl⟩
    · exact ⟨1, by rw [hspace]; rfl⟩
  obtain ⟨count, hcount⟩ := hspaces compact previous child
  obtain ⟨count', hcount'⟩ := hspaces compact' previous' child'
  rw [hcount, hcount'] at h
  obtain ⟨rfl, hrest⟩ := eq_of_spaces hfirst.ne_space hfirst'.ne_space h
  exact congrArg (List.cons first) hrest

/-- A text in a line ends where the next child begins. -/
theorem breaks_run
    {compact : Bool}
    {child : Element}
    {children : List Element}
    {rest : List Sign}
    (htext : child.isText = true)
    (hapart : textsApart compact (child :: children) = true)
    (hlegible : AllLegible children)
    (hrest : Closes rest) :
    Breaks (signs (run compact (some child) children) ++ rest) := by
  cases children with
  | nil => exact hrest.breaks
  | cons next children =>
      rw [signs_run_cons]
      rcases leadingSpace_cases compact (some child) next with hspace | hspace
      · -- without a space, the next child is no text
        have hnext : next.isText = false := by
          cases hnext : next.isText with
          | false => rfl
          | true =>
              simp only [textsApart, htext, hnext, Bool.and_true, Bool.not_true, Bool.false_or,
                Bool.and_eq_true] at hapart
              simp [Element.leadingSpace, hapart.1] at hspace
        obtain ⟨first, more, hsigns, -, hopening, -⟩ := front_inline hlegible.1
        obtain ⟨classes, rfl⟩ := hopening hnext
        rw [hspace, hsigns]
        nofun
      · rw [hspace]
        rintro c ⟨⟩
        decide

theorem textsApart_tail
    {compact : Bool}
    {child : Element}
    {children : List Element}
    (h : textsApart compact (child :: children) = true) :
    textsApart compact children = true := by
  cases children with
  | nil => rfl
  | cons next children => exact (Bool.and_eq_true_iff.mp h).2

/-- A line with a child in it does not start with a closing tag. -/
theorem run_ne_closing
    {compact : Bool}
    {previous : Option Element}
    {child : Element}
    {children : List Element}
    {rest rest' : List Sign}
    (h : child.Legible)
    (hrest' : Closes rest') :
    signs (run compact previous (child :: children)) ++ rest ≠ signs [] ++ rest' := by
  obtain ⟨first, more, hsigns, hfirst, -⟩ := front_inline h
  obtain ⟨tag, more', rfl⟩ := hrest'
  intro hclosing
  rw [signs_run_cons, hsigns] at hclosing
  rcases leadingSpace_cases compact previous child with hspace | hspace
  · rw [hspace] at hclosing
    obtain rfl := (List.cons.inj hclosing).1
    exact hfirst
  · rw [hspace] at hclosing
    cases (List.cons.inj hclosing).1

theorem signs_leaf
    (word : String)
    (emphasis : Emphasis)
    (rest : List Sign) :
    signs (inline (.leaf word emphasis)) ++ rest =
      .opening .span emphasis.key :: (word.toList.map .char ++ .closing .span :: rest) := by
  simp [inline, Piece.signs]

theorem signs_container
    (role : Role)
    (layout : Layout)
    (children : List Element)
    (rest : List Sign) :
    signs (inline (.container role layout children)) ++ rest =
      .opening .span (inlineClasses role layout) ::
        (signs (run (Element.isCompact role children) none children) ++
          .closing .span :: rest) := by
  simp [inline, Piece.signs]

/-- A text does not start with a tag. -/
theorem text_ne_opening
    {run : String}
    (h : (Element.text run).Legible)
    {rest rest' : List Sign}
    {tag : Tag}
    {classes : String} :
    signs (inline (.text run)) ++ rest ≠ .opening tag classes :: rest' := by
  obtain ⟨c, cs, hcs⟩ := List.exists_cons_of_ne_nil h.1
  simp [inline, Piece.signs, hcs]

/-- A word is not a label, which has a tag in front of its closing one. -/
theorem leaf_ne_container
    {role : Role}
    {layout : Layout}
    {children : List Element}
    (h : (Element.container role layout children).Legible)
    {word : String}
    {emphasis : Emphasis}
    {rest rest' : List Sign} :
    signs (inline (.leaf word emphasis)) ++ rest ≠
      signs (inline (.container role layout children)) ++ rest' := by
  intro hsigns
  rw [signs_leaf, signs_container] at hsigns
  obtain ⟨hopening, hinner⟩ := List.cons.inj hsigns
  have hlabel := eq_label_of_key (Sign.opening.inj hopening).2
  obtain ⟨cs, tag, classes, more, hrun⟩ :=
    signs_run_of_not_text (h.2.1 hlabel) (Element.isCompact role children) none
  rw [hrun, List.append_assoc, List.cons_append] at hinner
  obtain ⟨-, hsign, -⟩ := eq_of_chars rfl rfl hinner
  cases hsign

mutual

/-- An element in a line is determined by its signs, whatever stands behind it. -/
theorem inline_unique : ∀ (element element' : Element) (rest rest' : List Sign),
    element.Legible → element'.Legible →
    (element.isText = true → Breaks rest) → (element'.isText = true → Breaks rest') →
    signs (inline element) ++ rest = signs (inline element') ++ rest' →
      element = element' ∧ rest = rest'
  | .text run, element', rest, rest', hlegible, hlegible', hrest, hrest', h => by
      cases element' with
      | text run' =>
          simp only [inline, signs_cons, signs_nil, Piece.signs, List.append_nil] at h
          obtain ⟨hrun, rfl⟩ := eq_of_text hlegible.2 hlegible'.2 (hrest rfl) (hrest' rfl) h
          rw [String.toList_inj.mp hrun]
          exact ⟨rfl, rfl⟩
      | leaf word' emphasis' =>
          rw [signs_leaf] at h
          exact absurd h (text_ne_opening hlegible)
      | container role' layout' children' =>
          rw [signs_container] at h
          exact absurd h (text_ne_opening hlegible)
  | .leaf word emphasis, element', rest, rest', _, hlegible', _, _, h => by
      cases element' with
      | text run' =>
          rw [signs_leaf] at h
          exact absurd h.symm (text_ne_opening hlegible')
      | leaf word' emphasis' =>
          rw [signs_leaf, signs_leaf] at h
          obtain ⟨hopening, hinner⟩ := List.cons.inj h
          obtain rfl := emphasis_inj (Sign.opening.inj hopening).2
          obtain ⟨hword, -, rfl⟩ := eq_of_chars rfl rfl hinner
          rw [String.toList_inj.mp hword]
          exact ⟨rfl, rfl⟩
      | container role' layout' children' => exact absurd h (leaf_ne_container hlegible')
  | .container role layout children, element', rest, rest', hlegible, hlegible', _, _, h => by
      cases element' with
      | text run' =>
          rw [signs_container] at h
          exact absurd h.symm (text_ne_opening hlegible')
      | leaf word' emphasis' => exact absurd h.symm (leaf_ne_container hlegible)
      | container role' layout' children' =>
          rw [signs_container, signs_container] at h
          obtain ⟨hopening, hinner⟩ := List.cons.inj h
          obtain ⟨rfl, rfl⟩ := inlineClasses_inj (Sign.opening.inj hopening).2
          obtain ⟨rfl, hrest⟩ := run_unique children children' _ _ none none _ _ hlegible.2.2
            hlegible'.2.2 hlegible.1 hlegible'.1 ⟨_, _, rfl⟩ ⟨_, _, rfl⟩ hinner
          exact ⟨rfl, (List.cons.inj hrest).2⟩

/-- The children in a line are determined by their signs, whatever stands behind the closing tag. -/
theorem run_unique : ∀ (children children' : List Element) (compact compact' : Bool)
    (previous previous' : Option Element) (rest rest' : List Sign),
    AllLegible children → AllLegible children' →
    textsApart compact children = true → textsApart compact' children' = true →
    Closes rest → Closes rest' →
    signs (run compact previous children) ++ rest =
      signs (run compact' previous' children') ++ rest' →
      children = children' ∧ rest = rest'
  | [], [], _, _, _, _, _, _, _, _, _, _, _, _, h => ⟨rfl, h⟩
  | [], child' :: children', _, _, _, _, rest, rest', _, hlegible', _, _, hrest, _, h =>
      absurd h.symm (run_ne_closing hlegible'.1 hrest)
  | child :: children, [], _, _, _, _, rest, rest', hlegible, _, _, _, _, hrest', h =>
      absurd h (run_ne_closing hlegible.1 hrest')
  | child :: children, child' :: children', compact, compact', previous, previous', rest, rest',
      hlegible, hlegible', hapart, hapart', hrest, hrest', h => by
      rw [signs_run_cons, signs_run_cons, List.append_assoc, List.append_assoc, List.append_assoc,
        List.append_assoc] at h
      have hchild := eq_of_leadingSpace hlegible.1 hlegible'.1 h
      obtain ⟨rfl, hmore⟩ := inline_unique child child' _ _ hlegible.1 hlegible'.1
        (fun htext => breaks_run htext hapart hlegible.2 hrest)
        (fun htext => breaks_run htext hapart' hlegible'.2 hrest') hchild
      obtain ⟨rfl, rfl⟩ := run_unique children children' compact compact' (some child) (some child)
        rest rest' hlegible.2 hlegible'.2 (textsApart_tail hapart) (textsApart_tail hapart') hrest
        hrest' hmore
      exact ⟨rfl, rfl⟩

end

/-! ## Elements on lines of their own -/

/-- The indentation of a level, as signs. -/
def spaces (width depth : Nat) : List Sign :=
  List.replicate (depth * width) (.char ' ')

/-- The element has a single line and no tag besides those that it has in any line. -/
def Lined : Element → Prop
  | .text _ | .leaf _ _ | .container _ .inline _ => True
  | _ => False

/-- A line is indented and ends with a line break. -/
theorem signs_line
    {element : Element}
    (h : Lined element)
    (width depth : Nat)
    (rest : List Sign) :
    signs (block width depth element) ++ rest =
      spaces width depth ++ (signs (inline element) ++ .char '\n' :: rest) := by
  have hblock : block width depth element =
      indentation width depth :: inline element ++ [lineBreak] := by
    unfold Lined at h
    split at h
    · rfl
    · rfl
    · rfl
    · exact h.elim
  rw [hblock]
  simp [spaces, indentation, lineBreak, Piece.signs]

theorem signs_cell
    (width depth : Nat)
    (role : Role)
    (children : List Element)
    (rest : List Sign) :
    signs (block width depth (.container role .cell children)) ++ rest =
      spaces width depth ++ (.opening .td role.className ::
        (signs (run (Element.isCompact role children) none children) ++
          .closing .td :: .char '\n' :: rest)) := by
  rw [block_cell]
  simp [spaces, indentation, lineBreak, Piece.signs]

theorem signs_box
    {layout : Layout}
    (hbox : isBox layout = true)
    (width depth : Nat)
    (role : Role)
    (children : List Element)
    (rest : List Sign) :
    signs (block width depth (.container role layout children)) ++ rest =
      spaces width depth ++ (.opening (Tag.ofLayout layout) role.className ::
        (signs (between width depth children) ++
          .closing (Tag.ofLayout layout) :: .char '\n' :: rest)) := by
  rw [block_box hbox]
  simp [spaces, indentation, lineBreak, Piece.signs]

theorem signs_between
    (width depth : Nat)
    (child : Element)
    (children : List Element)
    (rest : List Sign) :
    signs (between width depth (child :: children)) ++ rest =
      .char '\n' :: (signs (blocks width (depth + 1) (child :: children)) ++
        (spaces width depth ++ rest)) := by
  simp [between, spaces, indentation, lineBreak, Piece.signs]

theorem block_cases (element : Element) :
    Lined element ∨ (∃ role children, element = .container role .cell children) ∨
      ∃ role layout children, isBox layout = true ∧
        element = .container role layout children := by
  cases element with
  | text run => exact .inl trivial
  | leaf word emphasis => exact .inl trivial
  | container role layout children =>
      cases layout with
      | inline => exact .inl trivial
      | cell => exact .inr (.inl ⟨role, children, rfl⟩)
      | block => exact .inr (.inr ⟨role, .block, children, rfl, rfl⟩)
      | table => exact .inr (.inr ⟨role, .table, children, rfl, rfl⟩)
      | row => exact .inr (.inr ⟨role, .row, children, rfl, rfl⟩)

/-- Behind its indentation, an element starts with a tag or with a visible character. -/
theorem front_block
    {element : Element}
    (h : element.Legible)
    (width depth : Nat) :
    ∃ first more, signs (block width depth element) = spaces width depth ++ first :: more ∧
      first.Fronts := by
  rw [← List.append_nil (signs _)]
  rcases block_cases element with hlined | ⟨role, children, rfl⟩ |
    ⟨role, layout, children, hbox, rfl⟩
  · obtain ⟨first, more, hsigns, hfirst, -⟩ := front_inline h
    rw [signs_line hlined, hsigns]
    exact ⟨first, _, rfl, hfirst⟩
  · rw [signs_cell]
    exact ⟨_, _, rfl, trivial⟩
  · rw [signs_box hbox]
    exact ⟨_, _, rfl, trivial⟩

/-- The only tag that a line starts with is that of a span. -/
theorem line_ne_opening
    {element : Element}
    (h : element.Legible)
    {rest rest' : List Sign}
    {tag : Tag}
    {classes : String}
    (htag : tag ≠ .span) :
    signs (inline element) ++ rest ≠ .opening tag classes :: rest' := by
  obtain ⟨first, more, hsigns, -, -, hspan⟩ := front_inline h
  intro hopening
  rw [hsigns] at hopening
  exact htag (hspan tag classes (List.cons.inj hopening).1)

theorem ofLayout_of_isBox
    {layout : Layout}
    (h : isBox layout = true) :
    Tag.ofLayout layout ≠ .span ∧ Tag.ofLayout layout ≠ .td := by
  cases layout with
  | inline => cases h
  | cell => cases h
  | _ => exact ⟨nofun, nofun⟩

/-- An element in a line and another one with the same signs. -/
theorem line_unique
    (element : Element)
    {element' : Element}
    (hlined : Lined element)
    (hlegible : element.Legible)
    (hlegible' : element'.Legible)
    {width depth : Nat}
    {rest rest' : List Sign}
    (h : signs (block width depth element) ++ rest = signs (block width depth element') ++ rest') :
    element = element' ∧ rest = rest' := by
  have hbreak : ∀ rest, Breaks (.char '\n' :: rest) := by
    rintro rest c ⟨⟩
    decide
  rw [signs_line hlined] at h
  rcases block_cases element' with hlined' | ⟨role', children', rfl⟩ |
    ⟨role', layout', children', hbox', rfl⟩
  · rw [signs_line hlined'] at h
    obtain ⟨rfl, hrest⟩ := inline_unique element element' _ _ hlegible hlegible'
      (fun _ => hbreak _) (fun _ => hbreak _) (List.append_cancel_left h)
    exact ⟨rfl, (List.cons.inj hrest).2⟩
  · rw [signs_cell] at h
    exact absurd (List.append_cancel_left h) (line_ne_opening hlegible nofun)
  · rw [signs_box hbox'] at h
    exact absurd (List.append_cancel_left h) (line_ne_opening hlegible (ofLayout_of_isBox hbox').1)

/-- A cell and another element with the same signs. -/
theorem cell_unique
    {role : Role}
    {children : List Element}
    {element' : Element}
    (hlegible : (Element.container role .cell children).Legible)
    (hlegible' : element'.Legible)
    {width depth : Nat}
    {rest rest' : List Sign}
    (h : signs (block width depth (.container role .cell children)) ++ rest =
      signs (block width depth element') ++ rest') :
    .container role .cell children = element' ∧ rest = rest' := by
  rcases block_cases element' with hlined' | ⟨role', children', rfl⟩ |
    ⟨role', layout', children', hbox', rfl⟩
  · obtain ⟨helement, hrest⟩ := line_unique element' hlined' hlegible' hlegible h.symm
    exact ⟨helement.symm, hrest.symm⟩
  · rw [signs_cell, signs_cell] at h
    obtain ⟨hopening, hinner⟩ := List.cons.inj (List.append_cancel_left h)
    obtain rfl := className_inj (Sign.opening.inj hopening).2
    obtain ⟨rfl, hrest⟩ := run_unique children children' _ _ none none _ _ hlegible.2.2
      hlegible'.2.2 hlegible.1 hlegible'.1 ⟨_, _, rfl⟩ ⟨_, _, rfl⟩ hinner
    exact ⟨rfl, (List.cons.inj (List.cons.inj hrest).2).2⟩
  · rw [signs_cell, signs_box hbox'] at h
    obtain ⟨hopening, -⟩ := List.cons.inj (List.append_cancel_left h)
    exact absurd (Sign.opening.inj hopening).1.symm (ofLayout_of_isBox hbox').2

/-- The children are determined by their signs, whatever stands behind the closing tag. -/
def Separable (width depth : Nat) (children : List Element) : Prop :=
  ∀ children' tag tag' rest rest', AllLegible children' →
    signs (blocks width (depth + 1) children) ++ (spaces width depth ++ .closing tag :: rest) =
      signs (blocks width (depth + 1) children') ++ (spaces width depth ++ .closing tag' :: rest') →
    children = children' ∧ rest = rest'

/-- A block, table or row and another element with the same signs. -/
theorem box_unique
    (layout : Layout)
    (hbox : isBox layout = true)
    {role : Role}
    {children : List Element}
    {element' : Element}
    (hlegible : (Element.container role layout children).Legible)
    (hlegible' : element'.Legible)
    {width depth : Nat}
    (hchildren : Separable width depth children)
    {rest rest' : List Sign}
    (h : signs (block width depth (.container role layout children)) ++ rest =
      signs (block width depth element') ++ rest') :
    .container role layout children = element' ∧ rest = rest' := by
  rcases block_cases element' with hlined' | ⟨role', children', rfl⟩ |
    ⟨role', layout', children', hbox', rfl⟩
  · obtain ⟨helement, hrest⟩ := line_unique element' hlined' hlegible' hlegible h.symm
    exact ⟨helement.symm, hrest.symm⟩
  · obtain ⟨helement, hrest⟩ := cell_unique hlegible' hlegible h.symm
    exact ⟨helement.symm, hrest.symm⟩
  · rw [signs_box hbox, signs_box hbox'] at h
    obtain ⟨hopening, hinner⟩ := List.cons.inj (List.append_cancel_left h)
    obtain rfl := ofLayout_inj (Sign.opening.inj hopening).1
    obtain rfl := className_inj (Sign.opening.inj hopening).2
    cases children with
    | nil =>
        cases children' with
        | nil => exact ⟨rfl, (List.cons.inj (List.cons.inj hinner).2).2⟩
        | cons child' children' =>
            rw [signs_between] at hinner
            cases (List.cons.inj hinner).1
    | cons child children =>
        rw [signs_between] at hinner
        cases children' with
        | nil => cases (List.cons.inj hinner).1
        | cons child' children' =>
            rw [signs_between] at hinner
            obtain ⟨hequal, hrest⟩ :=
              hchildren _ _ _ _ _ hlegible'.2.2 (List.cons.inj hinner).2
            rw [hequal]
            exact ⟨rfl, (List.cons.inj hrest).2⟩

/-- The closing tag of a container is not indented like a child of it. -/
theorem blocks_ne_closing
    {child : Element}
    (h : child.Legible)
    {width depth : Nat}
    {children : List Element}
    {tag : Tag}
    {rest rest' : List Sign} :
    signs (blocks width (depth + 1) (child :: children)) ++ rest ≠
      spaces width depth ++ .closing tag :: rest' := by
  obtain ⟨first, more, hsigns, hfirst⟩ := front_block h width (depth + 1)
  intro hclosing
  rw [blocks, signs_append, hsigns, List.append_assoc, List.append_assoc] at hclosing
  have hspace : Sign.closing tag ≠ .char ' ' := nofun
  obtain ⟨rfl, -⟩ := eq_of_spaces hfirst.ne_space hspace hclosing
  exact hfirst

mutual

/-- An element on lines of its own is determined by its signs, whatever stands behind them. -/
theorem block_unique (width : Nat) : ∀ (element element' : Element) (depth : Nat)
    (rest rest' : List Sign), element.Legible → element'.Legible →
    signs (block width depth element) ++ rest = signs (block width depth element') ++ rest' →
      element = element' ∧ rest = rest'
  | .text run, _, _, _, _, hlegible, hlegible', h =>
      line_unique (.text run) trivial hlegible hlegible' h
  | .leaf word emphasis, _, _, _, _, hlegible, hlegible', h =>
      line_unique (.leaf word emphasis) trivial hlegible hlegible' h
  | .container role .inline children, _, _, _, _, hlegible, hlegible', h =>
      line_unique (.container role .inline children) trivial hlegible hlegible' h
  | .container _ .cell _, _, _, _, _, hlegible, hlegible', h => cell_unique hlegible hlegible' h
  | .container _ .block children, _, depth, _, _, hlegible, hlegible', h =>
      box_unique .block rfl hlegible hlegible' (blocks_unique width children depth hlegible.2.2) h
  | .container _ .table children, _, depth, _, _, hlegible, hlegible', h =>
      box_unique .table rfl hlegible hlegible' (blocks_unique width children depth hlegible.2.2) h
  | .container _ .row children, _, depth, _, _, hlegible, hlegible', h =>
      box_unique .row rfl hlegible hlegible' (blocks_unique width children depth hlegible.2.2) h

/-- Lines can be read off their signs in one way only. -/
theorem blocks_unique (width : Nat) : ∀ (children : List Element) (depth : Nat),
    AllLegible children → Separable width depth children
  | [], depth, _, children', tag, tag', rest, rest', hlegible', h => by
      cases children' with
      | nil => exact ⟨rfl, (List.cons.inj (List.append_cancel_left h)).2⟩
      | cons child' children' => exact absurd h.symm (blocks_ne_closing hlegible'.1)
  | child :: children, depth, hlegible, children', tag, tag', rest, rest', hlegible', h => by
      cases children' with
      | nil => exact absurd h (blocks_ne_closing hlegible.1)
      | cons child' children' =>
          rw [blocks, blocks, signs_append, signs_append, List.append_assoc,
            List.append_assoc] at h
          obtain ⟨rfl, hmore⟩ :=
            block_unique width child child' (depth + 1) _ _ hlegible.1 hlegible'.1 h
          obtain ⟨rfl, rfl⟩ := blocks_unique width children depth hlegible.2 children' tag tag'
            rest rest' hlegible'.2 hmore
          exact ⟨rfl, rfl⟩

end

end Html
end LuaView
