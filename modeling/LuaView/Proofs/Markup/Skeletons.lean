import LuaView.Markup.PlainWriter
import LuaView.Markup.Render
import LuaView.Proofs.Markup.Writing
import LuaView.Proofs.Markup.WellFormed

/-!
# Layout only moves blank space

The skeleton of an element is made without knowing the width of a level, and the writer that knows
the width from the start writes the same text.  What could make a difference is the block in the
middle of a line, whose front is trimmed: the skeleton drops marks and blank characters there, the
writer whatever these have become.

Without its marks and its blank characters a skeleton is the words of the element in reading order,
together with the signs that the text adds to them: parentheses around an operation inside another
one, and the braces and commas of a table.
-/

namespace LuaView

open Html (visible)
open Plain (Skeleton Piece)
open Plain.Skeleton (ofText ofChars)

/-! ## Words and added signs -/

namespace Plain

/-- What a text without blank space consists of: words of the element, and signs added to them. -/
inductive Item where
  | word (run : String)
  | sign (c : Char)
deriving DecidableEq, Repr

namespace Item

def chars : Item → List Char
  | .word run => run.toList
  | .sign c => [c]

def word? : Item → Option String
  | .word run => some run
  | .sign _ => none

/-- Items in parentheses if they have to be grouped. -/
def group (grouped : Bool) (items : List Item) : List Item :=
  if grouped then .sign '(' :: items ++ [.sign ')'] else items

@[simp] theorem filterMap_word?_group (grouped : Bool) (items : List Item) :
    (group grouped items).filterMap word? = items.filterMap word? := by
  cases grouped with
  | false => rfl
  | true => simp [group, List.filterMap_cons, word?]

end Item
end Plain

open Plain (Item)

namespace Element

mutual

/-- The words of an element in reading order.  Operations that are children of an operation are in
parentheses, unless they are lines or rows; a table is in braces, with a comma behind each row. -/
def items : Element → List Item
  | .text run => [.word run]
  | .leaf word _ => [.word word]
  | .container _ .block children => itemsOfAll false children
  | .container _ .table rows => .sign '\x7b' :: itemsOfRows rows ++ [.sign '\x7d']
  | .container role _ children => itemsOfAll role.isOperator children

def itemsOfAll (operation : Bool) : List Element → List Item
  | [] => []
  | child :: rest =>
      Item.group (operation && child.isOperator) child.items ++ itemsOfAll operation rest

def itemsOfRows : List Element → List Item
  | [] => []
  | row :: rows => row.items ++ .sign ',' :: itemsOfRows rows

end

mutual

/-- The words among the items of an element are its words. -/
theorem words_items : ∀ element : Element, element.items.filterMap Item.word? = element.tokens
  | .text _ => rfl
  | .leaf _ _ => rfl
  | .container _ .block children => words_itemsOfAll false children
  | .container _ .table rows => by
      simpa [items, List.filterMap_cons, Item.word?, tokens] using words_itemsOfRows rows
  | .container role .inline children => words_itemsOfAll role.isOperator children
  | .container role .row children => words_itemsOfAll role.isOperator children
  | .container role .cell children => words_itemsOfAll role.isOperator children

/-- The words among the items of elements are their words, grouped or not. -/
theorem words_itemsOfAll (operation : Bool) : ∀ children : List Element,
    (itemsOfAll operation children).filterMap Item.word? = tokensOfAll children
  | [] => rfl
  | child :: rest => by
      rw [itemsOfAll, List.filterMap_append, Item.filterMap_word?_group, words_items child,
        words_itemsOfAll operation rest, tokensOfAll]

/-- The words among the items of rows are the words of the rows. -/
theorem words_itemsOfRows : ∀ rows : List Element,
    (itemsOfRows rows).filterMap Item.word? = tokensOfAll rows
  | [] => rfl
  | row :: rows => by
      rw [itemsOfRows, List.filterMap_append, words_items row, List.filterMap_cons_none rfl,
        words_itemsOfRows rows, tokensOfAll]

end

end Element

/-! ## Skeletons -/

namespace Plain

/-- The character of a piece that is no mark. -/
def Piece.char? : Piece → Option Char
  | .char c => some c
  | .indent _ => none

namespace Skeleton

/-- The characters of a skeleton without its marks. -/
def chars (skeleton : Skeleton) : List Char :=
  skeleton.filterMap Piece.char?

@[simp] theorem chars_append (first second : Skeleton) :
    (first ++ second).chars = first.chars ++ second.chars :=
  List.filterMap_append

@[simp] theorem chars_ofChars (cs : List Char) : (ofChars cs).chars = cs := by
  induction cs with
  | nil => rfl
  | cons c cs ih => exact congrArg (c :: ·) ih

@[simp] theorem write_char (width : Nat) (c : Char) (skeleton : Skeleton) :
    write width (.char c :: skeleton) = c :: write width skeleton :=
  rfl

/-- Written out, the space at the front of a skeleton is blank characters. -/
theorem write_trimStart (width : Nat) (skeleton : Skeleton) :
    skeleton.trimStart.write width = (skeleton.write width).dropWhile isBlank := by
  induction skeleton with
  | nil => rfl
  | cons piece rest ih =>
      cases piece with
      | char c =>
          cases hblank : isBlank c with
          | true => simpa [trimStart, isSpace, hblank] using ih
          | false => simp [trimStart, isSpace, hblank]
      | indent level =>
          have hspaces : ∀ c ∈ List.replicate (level * width) ' ', isBlank c = true := by
            intro c hc
            obtain rfl := List.eq_of_mem_replicate hc
            decide
          rw [trimStart, List.dropWhile_cons_of_pos rfl, write_indent,
            List.dropWhile_append_of_pos hspaces]
          exact ih

/-- Lines are written one by one, with line breaks between them. -/
theorem write_joinLines (width : Nat) (lines : List Skeleton) :
    (joinLines lines).write width = ['\n'].intercalate (lines.map (write width)) := by
  unfold joinLines
  induction lines with
  | nil => rfl
  | cons line lines ih =>
      cases lines with
      | nil => simp
      | cons next lines =>
          simp only [List.map_cons, List.intercalate_cons_cons, write_append] at ih ⊢
          rw [ih]
          rfl

/-- A group is written as the group of what is written. -/
theorem write_group (width : Nat) (grouped : Bool) (skeleton : Skeleton) :
    (group grouped skeleton).write width = Writer.group grouped (skeleton.write width) := by
  cases grouped with
  | false => rfl
  | true => simp [group, Writer.group, write, writePiece]

end Skeleton

/-! ## The writer and the skeleton -/

/-- The children of the element have lines of their own. -/
def isBlock : Element → Bool
  | .container _ .block _ => true
  | _ => false

/-- A child that is no block takes one line of the skeleton. -/
theorem childLines_line
    {child : Element}
    (hline : isBlock child = false)
    (parent : Role)
    (depth : Nat)
    (rest : List Element) :
    childLines parent depth (child :: rest) =
      (.indent (childDepth parent depth child.role?) ::
          inline (childDepth parent depth child.role?) child) ::
        childLines parent depth rest := by
  cases child with
  | container role layout children => cases layout <;> first | rfl | cases hline
  | _ => rfl

/-- A child that is no block takes one line of the text. -/
theorem Writer.childLines_line
    {child : Element}
    (hline : isBlock child = false)
    (width : Nat)
    (parent : Role)
    (depth : Nat)
    (rest : List Element) :
    Writer.childLines width parent depth (child :: rest) =
      (indentation width (childDepth parent depth child.role?) ++
          Writer.inline width (childDepth parent depth child.role?) child) ::
        Writer.childLines width parent depth rest := by
  cases child with
  | container role layout children => cases layout <;> first | rfl | cases hline
  | _ => rfl

/-- The line of a child is written as the writer does it if the child is. -/
theorem write_line
    {child : Element}
    (hline : isBlock child = false)
    {width : Nat}
    (hinline : ∀ depth, (inline depth child).write width = Writer.inline width depth child)
    {parent : Role}
    {depth : Nat}
    {rest : List Element}
    (hrest : (childLines parent depth rest).map (Skeleton.write width) =
      Writer.childLines width parent depth rest) :
    (childLines parent depth (child :: rest)).map (Skeleton.write width) =
      Writer.childLines width parent depth (child :: rest) := by
  rw [childLines_line hline, Writer.childLines_line hline, List.map_cons, Skeleton.write_indent,
    hinline, hrest, Writer.indentation]

mutual

/-- The skeleton of an element in a line is written as the writer does it. -/
theorem write_inline (width depth : Nat) : ∀ element : Element,
    (inline depth element).write width = Writer.inline width depth element
  | .text run => Skeleton.write_ofChars width run.toList
  | .leaf word _ => Skeleton.write_ofChars width word.toList
  | .container role .block children => by
      rw [inline, Skeleton.write_trimStart, Skeleton.write_joinLines,
        write_childLines width role depth children]
      rfl
  | .container _ .table [] => rfl
  | .container _ .table (row :: rows) => by
      have hrows := write_tableRows width (depth + 1) (row :: rows)
      simp only [inline, Writer.inline, List.cons_append, Skeleton.write_char,
        Skeleton.write_append, hrows, Skeleton.write_indent, List.append_assoc]
      rfl
  | .container role .inline children =>
      write_run width depth role (Element.isCompact role children) none children
  | .container role .row children =>
      write_run width depth role (Element.isCompact role children) none children
  | .container role .cell children =>
      write_run width depth role (Element.isCompact role children) none children

/-- The skeleton of a run is written as the writer does it. -/
theorem write_run (width depth : Nat) (role : Role) (compact : Bool)
    (previous : Option Element) : ∀ children : List Element,
    (run depth role compact previous children).write width =
      Writer.run width depth role compact previous children
  | [] => rfl
  | child :: rest => by
      rw [run, Skeleton.write_append, Skeleton.write_append, Skeleton.write_ofChars,
        Skeleton.write_group, write_inline width depth child,
        write_run width depth role compact (some child) rest]
      rfl

/-- The skeleton of the rows of a table is written as the writer does it. -/
theorem write_tableRows (width depth : Nat) : ∀ rows : List Element,
    (tableRows depth rows).write width = Writer.tableRows width depth rows
  | [] => rfl
  | row :: rows => by
      simp only [tableRows, Writer.tableRows, List.cons_append, Skeleton.write_char,
        Skeleton.write_indent, Skeleton.write_append, write_inline width depth row,
        write_tableRows width depth rows, List.append_assoc, Writer.indentation]

/-- The lines of the children of a block are written as the writer does it. -/
theorem write_childLines (width : Nat) (parent : Role) (depth : Nat) : ∀ children : List Element,
    (childLines parent depth children).map (Skeleton.write width) =
      Writer.childLines width parent depth children
  | [] => rfl
  | child :: rest => by
      have hrest := write_childLines width parent depth rest
      have hinline := fun depth => write_inline width depth child
      cases child with
      | container role layout children =>
          cases layout with
          | block =>
              rw [childLines, Writer.childLines, List.map_append, hrest,
                write_childLines width role _ children]
          | _ => exact write_line rfl hinline hrest
      | _ => exact write_line rfl hinline hrest

end

/-- The lines below a whole program are not indented. -/
theorem childDepth_chunk (depth : Nat) (child : Option Role) :
    childDepth .chunk depth child = depth := by
  simp [childDepth]

/-- An element alone has the lines that it has below a whole program. -/
theorem lines_eq_childLines (element : Element) :
    lines element = childLines .chunk 0 [element] := by
  cases element with
  | container role layout children =>
      cases layout with
      | block => rw [childLines, childDepth_chunk]; exact (List.append_nil _).symm
      | _ => rw [childLines_line rfl, childDepth_chunk]; rfl
  | _ => rw [childLines_line rfl, childDepth_chunk]; rfl

/-- The lines of a whole element are those of a program with it as its only child. -/
theorem Writer.lines_eq_childLines (width : Nat) (element : Element) :
    Writer.lines width element = Writer.childLines width .chunk 0 [element] := by
  cases element with
  | container role layout children =>
      cases layout with
      | block => rw [Writer.childLines, childDepth_chunk]; exact (List.append_nil _).symm
      | _ => rw [Writer.childLines_line rfl, childDepth_chunk]; rfl
  | _ => rw [Writer.childLines_line rfl, childDepth_chunk]; rfl

/-- The writer that knows the width writes the skeleton out. -/
theorem write_skeleton (width : Nat) (element : Element) :
    (skeleton element).write width = Writer.text width element := by
  rw [skeleton, Skeleton.write_joinLines, lines_eq_childLines, write_childLines,
    ← Writer.lines_eq_childLines, Writer.text]

/-! ## What a skeleton shows -/

/-- A mark or a blank in front does not change what is visible. -/
theorem visible_space
    {piece : Piece}
    (hspace : Skeleton.isSpace piece = true)
    (skeleton : Skeleton) :
    visible (Skeleton.chars (piece :: skeleton)) = visible skeleton.chars := by
  cases piece with
  | char c =>
      have hblank : isBlank c = true := hspace
      simp [Skeleton.chars, Piece.char?, visible, hblank]
  | indent level => rfl

/-- The skeleton has the visible characters of the items. -/
def Reads (skeleton : Skeleton) (items : List Item) : Prop :=
  visible skeleton.chars = visible (items.flatMap Item.chars)

namespace Reads

variable {skeleton skeleton' : Skeleton}
variable {items items' : List Item}

theorem nil : Reads [] [] :=
  rfl

/-- Two skeletons, one behind the other. -/
theorem append
    (h : Reads skeleton items)
    (h' : Reads skeleton' items') :
    Reads (skeleton ++ skeleton') (items ++ items') := by
  unfold Reads visible at *
  rw [Skeleton.chars_append, List.filter_append, h, h', List.flatMap_append, List.filter_append]

theorem word (run : String) : Reads (ofText run) [.word run] := by
  simp [Reads, ofText, Item.chars]

theorem sign (c : Char) : Reads [.char c] [.sign c] :=
  rfl

theorem space
    {piece : Piece}
    (hspace : Skeleton.isSpace piece = true)
    (h : Reads skeleton items) :
    Reads (piece :: skeleton) items :=
  (visible_space hspace skeleton).trans h

theorem indent
    (level : Nat)
    (h : Reads skeleton items) :
    Reads (.indent level :: skeleton) items :=
  h.space rfl

theorem lineBreak
    (h : Reads skeleton items) :
    Reads (.char '\n' :: skeleton) items :=
  h.space (by decide)

/-- Only space is trimmed. -/
theorem trimStart
    (h : Reads skeleton items) :
    Reads skeleton.trimStart items := by
  induction skeleton with
  | nil => exact h
  | cons piece rest ih =>
      cases hspace : Skeleton.isSpace piece with
      | true =>
          rw [Skeleton.trimStart, List.dropWhile_cons_of_pos hspace]
          exact ih ((visible_space hspace rest).symm.trans h)
      | false =>
          rw [Skeleton.trimStart, List.dropWhile_cons_of_neg (by simp [hspace])]
          exact h

/-- The line breaks between lines are not seen. -/
theorem joinLines
    {lines : List Skeleton}
    (h : Reads lines.flatten items) :
    Reads (Skeleton.joinLines lines) items := by
  have hbehind : visible (behind lines).chars = visible (Skeleton.chars lines.flatten) := by
    clear h
    induction lines with
    | nil => rfl
    | cons line lines ih =>
        rw [behind_cons, visible_space (by decide), List.flatten_cons, Skeleton.chars_append,
          Skeleton.chars_append]
        simp only [visible, List.filter_append] at ih ⊢
        rw [ih]
  cases lines with
  | nil => exact h
  | cons line lines =>
      rw [joinLines_cons]
      exact ((visible_space (by decide) (line ++ behind lines)).symm.trans hbehind).trans h

/-- A group adds its parentheses to the items. -/
theorem group
    (grouped : Bool)
    (h : Reads skeleton items) :
    Reads (Skeleton.group grouped skeleton) (Item.group grouped items) := by
  cases grouped with
  | false => exact h
  | true => exact ((sign '(').append h).append (sign ')')

theorem leadingSpace
    (compact : Bool)
    (previous : Option Element)
    (child : Element) :
    Reads (ofChars (Element.leadingSpace compact previous child)) [] := by
  unfold Element.leadingSpace
  split
  · exact space (by decide) nil
  · exact nil

end Reads

/-- The line of a child reads as the child. -/
theorem Reads.line
    {child : Element}
    (hline : isBlock child = false)
    (hinline : ∀ depth, Reads (inline depth child) child.items)
    {parent : Role}
    {depth : Nat}
    {rest : List Element}
    (hrest : Reads (childLines parent depth rest).flatten (Element.itemsOfAll false rest)) :
    Reads (childLines parent depth (child :: rest)).flatten
      (Element.itemsOfAll false (child :: rest)) := by
  rw [childLines_line hline, List.flatten_cons]
  exact ((hinline _).indent _).append hrest

mutual

/-- The skeleton of an element in a line reads as its items. -/
theorem reads_inline (depth : Nat) : ∀ element : Element,
    Reads (inline depth element) element.items
  | .text run => .word run
  | .leaf word _ => .word word
  | .container role .block children =>
      (reads_childLines role depth children).joinLines.trimStart
  | .container _ .table [] => rfl
  | .container _ .table (row :: rows) =>
      ((Reads.sign '\x7b').append (reads_tableRows (depth + 1) (row :: rows))).append
        ((Reads.sign '\x7d').indent depth).lineBreak
  | .container role .inline children =>
      reads_run depth role (Element.isCompact role children) none children
  | .container role .row children =>
      reads_run depth role (Element.isCompact role children) none children
  | .container role .cell children =>
      reads_run depth role (Element.isCompact role children) none children

/-- The skeleton of a run reads as the items of its children. -/
theorem reads_run (depth : Nat) (role : Role) (compact : Bool) (previous : Option Element) :
    ∀ children : List Element,
      Reads (run depth role compact previous children)
        (Element.itemsOfAll role.isOperator children)
  | [] => .nil
  | child :: rest =>
      ((Reads.leadingSpace compact previous child).append
        (.group _ (reads_inline depth child))).append
        (reads_run depth role compact (some child) rest)

/-- The skeleton of rows reads as their items, with a comma behind each row. -/
theorem reads_tableRows (depth : Nat) : ∀ rows : List Element,
    Reads (tableRows depth rows) (Element.itemsOfRows rows)
  | [] => .nil
  | row :: rows =>
      (((reads_inline depth row).append
        ((Reads.sign ',').append (reads_tableRows depth rows))).indent depth).lineBreak

/-- The lines of the children of a block read as their items. -/
theorem reads_childLines (parent : Role) (depth : Nat) : ∀ children : List Element,
    Reads (childLines parent depth children).flatten (Element.itemsOfAll false children)
  | [] => .nil
  | child :: rest => by
      have hrest := reads_childLines parent depth rest
      have hinline := fun depth => reads_inline depth child
      cases child with
      | container role layout children =>
          cases layout with
          | block =>
              rw [childLines, List.flatten_append]
              exact (reads_childLines role _ children).append hrest
          | _ => exact .line rfl hinline hrest
      | _ => exact .line rfl hinline hrest

end

/-- The skeleton of an element reads as its items. -/
theorem reads_skeleton (element : Element) : Reads (skeleton element) element.items := by
  have hlines := reads_childLines .chunk 0 [element]
  rw [← lines_eq_childLines] at hlines
  have hitems : Element.itemsOfAll false [element] = element.items :=
    List.append_nil element.items
  rw [hitems] at hlines
  exact hlines.joinLines

end Plain

/-- The text of an element, which the writer that knows the width writes, is for all widths one
skeleton with that many spaces per level.  Without marks and blank characters the skeleton is the
words of the element in reading order, with the signs that the text adds. -/
theorem render_text_moves_blanks (element : Element) :
    ∃ skeleton : Skeleton,
      (∀ settings : Settings,
        element.render .text settings =
          String.ofList (Plain.Writer.text settings.indent element)) ∧
      (∀ width, Plain.Writer.text width element = skeleton.write width) ∧
      visible skeleton.chars = visible (element.items.flatMap Item.chars) ∧
      element.items.filterMap Item.word? = element.tokens :=
  ⟨Plain.skeleton element,
    fun settings => congrArg String.ofList (Plain.write_skeleton settings.indent element),
    fun width => (Plain.write_skeleton width element).symm,
    Plain.reads_skeleton element, element.words_items⟩

end LuaView
