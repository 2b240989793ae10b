import LuaView.Proofs.Markup.WellFormed
import LuaView.Proofs.Markup.Writing
import LuaView.Proofs.Visual.Containers

/-!
# Markup and plain text agree in a line

An element that is set in a line has the same characters in both formats, spaces included: the text
of its markup is its plain text.  Plain text goes its own way in two places, which are left out
here: it puts an operation that stands directly in another one in parentheses, and it breaks blocks
and tables into lines.
-/

namespace LuaView

/-- The container is set in a line, and if it is an operation, no other stands directly in it. -/
def Element.IsLine (role : Role) (layout : Layout) (children : List Element) : Prop :=
  (layout = .inline ∨ layout = .row ∨ layout = .cell) ∧
    (role.isOperator = true → ∀ child ∈ children, child.isOperator = false)

namespace Html

open Plain.Skeleton (write_append write_ofChars)

/-- In an operation without operations and in any other container nothing is grouped. -/
theorem group_of_isLine
    {role : Role}
    {child : Element}
    (h : role.isOperator = true → child.isOperator = false)
    (skeleton : Plain.Skeleton) :
    Plain.Skeleton.group (role.isOperator && child.isOperator) skeleton = skeleton := by
  cases hrole : role.isOperator with
  | false => rfl
  | true => rw [h hrole]; rfl

variable (width depth : Nat)

mutual

/-- The text of the markup of a line is the plain text of the line. -/
theorem markup_inline : ∀ element : Element, element.Every Element.IsLine →
    Markup true (write (inline element)) ((Plain.inline depth element).write width)
  | .text run, _ => by
      have hrun : Markup true _ run.toList := .ofText run.toList
      simpa [inline, Piece.write, Plain.inline, Plain.Skeleton.ofText] using hrun
  | .leaf word emphasis, _ => by
      have hword : Markup true _ word.toList :=
        .tagged (fun _ => rfl) (not_special_emphasis emphasis) (.ofText word.toList)
      simpa [inline, Piece.write, Plain.inline, Plain.Skeleton.ofText] using hword
  | .container role layout children, ⟨⟨hlayout, hgroup⟩, hchildren⟩ => by
      have hrun := markup_run role (Element.isCompact role children) none children hgroup hchildren
      have hspan : Markup true _ _ :=
        .tagged (fun _ => rfl) (not_special_inlineClasses role layout) hrun
      rcases hlayout with rfl | rfl | rfl <;> simpa [inline, Plain.inline] using hspan

theorem markup_run (role : Role) (compact : Bool) (previous : Option Element) :
    ∀ children : List Element,
      (role.isOperator = true → ∀ child ∈ children, child.isOperator = false) →
      Element.EveryOfAll Element.IsLine children →
      Markup true (write (run compact previous children))
        ((Plain.run depth role compact previous children).write width)
  | [], _, _ => .nil
  | child :: rest, hgroup, ⟨hchild, hrest⟩ => by
      have hspace : Markup true _ (Element.leadingSpace compact previous child) := .ofText _
      have hplain := group_of_isLine (fun hrole => hgroup hrole child List.mem_cons_self)
        (Plain.inline depth child)
      have hbehind := markup_run role compact (some child) rest
        (fun hrole other hother => hgroup hrole other (List.mem_cons_of_mem child hother)) hrest
      have hall := (hspace.append (markup_inline child hchild)).append hbehind
      simpa [run, Plain.run, Piece.write, hplain] using hall

end

/-- A tag at the end of a text stays when line breaks are trimmed. -/
theorem trimBreaks_closing (cs : List Char) (tag : Tag) :
    trimBreaks (cs ++ (Piece.closing tag).write ++ ['\n']) = cs ++ (Piece.closing tag).write := by
  simp [trimBreaks, Piece.write]

/-- The fragment of a line is its markup alone. -/
theorem fragment_inline (role : Role) (children : List Element) :
    fragment width (Element.inline role children) =
      write (inline (Element.inline role children)) := by
  have hinline : inline (Element.inline role children) =
    (.opening .span (inlineClasses role .inline) ::
      run (Element.isCompact role children) none children) ++ [.closing .span] := rfl
  have hblock : block width 0 (Element.inline role children) =
    indentation width 0 :: inline (Element.inline role children) ++ [lineBreak] := rfl
  have hbreak : lineBreak.write = ['\n'] := by decide
  have hindentation : (indentation width 0).write = [] := by
    rw [indentation, Nat.zero_mul]
    rfl
  have hwrite := trimBreaks_closing (write (.opening .span (inlineClasses role .inline) ::
    run (Element.isCompact role children) none children)) .span
  rw [fragment, hblock, hinline]
  simpa [hbreak, hindentation] using hwrite

/-- The plain text of a line is not indented. -/
theorem write_skeleton_inline (role : Role) (children : List Element) :
    (Plain.skeleton (Element.inline role children)).write width =
      (Plain.inline 0 (Element.inline role children)).write width := by
  have hskeleton : Plain.skeleton (Element.inline role children) =
    .indent 0 :: Plain.inline 0 (Element.inline role children) :=
    (Plain.joinLines_cons _ []).trans (List.append_nil _)
  rw [hskeleton, Plain.Skeleton.write_indent, Nat.zero_mul]
  rfl

end Html

open Html (removeTags unescape)

/-- Without its tags, and with its references resolved, the markup of an element that is set in a
line is the plain text of the element, whatever the settings of the two. -/
theorem render_html_agrees_text
    {role : Role}
    {children : List Element}
    (hline : (Element.inline role children).Every Element.IsLine)
    (settings settings' : Settings) :
    ∃ fragment : String,
      (Element.inline role children).render .html { settings with standalone := false } =
          fragment ∧
        (Element.inline role children).render .html { settings with standalone := true } =
          Html.documentHead ++ fragment ++ Html.documentFoot ∧
        String.ofList (unescape (removeTags false fragment.toList)) =
          (Element.inline role children).render .text settings' := by
  have hmarkup := Html.markup_inline settings'.indent 0 _ hline
  refine ⟨String.ofList (Html.fragment settings.indent (Element.inline role children)),
    rfl, rfl, congrArg String.ofList ?_⟩
  rw [String.toList_ofList, Html.fragment_inline, hmarkup.unescape_removeTags,
    Html.write_skeleton_inline]

/-- A call with a quoted argument, which has to be escaped, beside an operation and a cell. -/
def escapedCall : List Element :=
  [.leaf "f" .name, .text "(",
    .inline .arguments
      [.leaf "'<&amp;>'" .string, .text ",",
        .inline .unaryOp [.leaf "-" .operator, .leaf "x" .name], .text ",",
        .container .field .row [.container .fieldValue .cell [.leaf "\ny\n" .name]]],
    .text ")"]

theorem render_html_agrees_text_escapedCall :
    (Element.inline .call escapedCall).Every Element.IsLine ∧
      ∃ fragment : String,
        (Element.inline .call escapedCall).render .html {} = fragment ∧
          (Element.inline .call escapedCall).render .html { standalone := true } =
            Html.documentHead ++ fragment ++ Html.documentFoot ∧
          String.ofList (unescape (removeTags false fragment.toList)) =
            (Element.inline .call escapedCall).render .text { indent := 2, limit := 1 } := by
  have hline : (Element.inline .call escapedCall).Every Element.IsLine := by
    simp [escapedCall, Element.inline, Element.Every, Element.EveryOfAll, Element.IsLine,
      Role.isOperator, Element.isOperator, Element.role?]
  exact ⟨hline, render_html_agrees_text hline {} { indent := 2, limit := 1 }⟩

end LuaView
