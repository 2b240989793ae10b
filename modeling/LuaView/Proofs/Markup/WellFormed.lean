import LuaView.Markup.Render

/-!
# Markup is well formed and shows the whole element

`Markup phrasing cs text` says that the characters `cs` are markup: elements with a class, properly
nested, and text between them in which the five special characters are written as references.  Where
`phrasing` is set, all elements are spans; this is so below a span and below a cell.  The text is
what is left if the tags are removed and the references are resolved.

The output for every element is markup whose text consists of the tokens of the element, up to blank
space.  Nothing is asked of the element: its runs and words may hold any characters.
-/

namespace LuaView
namespace Html

/-- The references that stand for special characters. -/
def references : List (String × Char) :=
  [("amp", '&'), ("lt", '<'), ("gt", '>'), ("quot", '"'), ("#39", '\'')]

/-- A character that must not stand in a text or in a class as it is. -/
def isSpecial (c : Char) : Bool :=
  ['&', '<', '>', '"', '\''].contains c

/-- The names of the elements that markup consists of. -/
def elementNames : List String :=
  ["div", "table", "tr", "td", "span"]

/-- The characters are markup that shows the text. -/
inductive Markup : Bool → List Char → List Char → Prop
  | nil
      {phrasing : Bool} :
      Markup phrasing [] []
  | char
      {phrasing : Bool} {c : Char} {cs text : List Char}
      (hc : isSpecial c = false)
      (hrest : Markup phrasing cs text) :
      Markup phrasing (c :: cs) (c :: text)
  | reference
      {phrasing : Bool} {name : String} {c : Char} {cs text : List Char}
      (hname : (name, c) ∈ references)
      (hrest : Markup phrasing cs text) :
      Markup phrasing ('&' :: (name.toList ++ ';' :: cs)) (c :: text)
  | element
      {phrasing : Bool} {name : String} {classes inner cs text text' : List Char}
      (hname : name ∈ elementNames)
      (hspan : phrasing = true → name = "span")
      (hclasses : ∀ c ∈ classes, isSpecial c = false)
      (hinner : Markup (phrasing || name == "span" || name == "td") inner text)
      (hrest : Markup phrasing cs text') :
      Markup phrasing
        ('<' :: (name.toList ++ " class=\"".toList ++ classes ++ '"' :: '>' ::
          (inner ++ '<' :: '/' :: (name.toList ++ '>' :: cs))))
        (text ++ text')

/-- The characters outside of tags, if the first of them is inside of one or not. -/
def removeTags (inside : Bool) : List Char → List Char
  | [] => []
  | '<' :: cs => removeTags true cs
  | '>' :: cs => removeTags false cs
  | c :: cs => if inside then removeTags inside cs else c :: removeTags inside cs

/-- A text whose references are replaced by what they stand for. -/
def unescape : List Char → List Char
  | '&' :: 'a' :: 'm' :: 'p' :: ';' :: cs => '&' :: unescape cs
  | '&' :: 'l' :: 't' :: ';' :: cs => '<' :: unescape cs
  | '&' :: 'g' :: 't' :: ';' :: cs => '>' :: unescape cs
  | '&' :: 'q' :: 'u' :: 'o' :: 't' :: ';' :: cs => '"' :: unescape cs
  | '&' :: '#' :: '3' :: '9' :: ';' :: cs => '\'' :: unescape cs
  | c :: cs => c :: unescape cs
  | [] => []

/-- The characters of a text that are not blank. -/
def visible (text : List Char) : List Char :=
  text.filter fun c => !isBlank c

/-! ## The text of markup -/

/-- A character that is not special stands for itself. -/
theorem escapeChar_of_not_special
    {c : Char}
    (h : isSpecial c = false) :
    escapeChar c = [c] := by
  unfold escapeChar
  split <;> first | rfl | exact absurd h (by decide)

/-- A special character is written as its reference. -/
theorem escapeChar_of_reference
    {name : String}
    {c : Char}
    (h : (name, c) ∈ references) :
    escapeChar c = '&' :: (name.toList ++ [';']) := by
  simp only [references, List.mem_cons, List.not_mem_nil, or_false, Prod.mk.injEq] at h
  obtain ⟨rfl, rfl⟩ | ⟨rfl, rfl⟩ | ⟨rfl, rfl⟩ | ⟨rfl, rfl⟩ | ⟨rfl, rfl⟩ := h <;> decide

/-- A character is written as it is or by a reference to it. -/
theorem special_cases (c : Char) :
    isSpecial c = false ∨ ∃ name, (name, c) ∈ references := by
  cases h : isSpecial c with
  | false => exact .inl rfl
  | true =>
      simp only [isSpecial, List.contains_eq_mem, List.mem_cons, List.not_mem_nil, or_false,
        decide_eq_true_eq] at h
      obtain rfl | rfl | rfl | rfl | rfl := h
      · exact .inr ⟨"amp", by decide⟩
      · exact .inr ⟨"lt", by decide⟩
      · exact .inr ⟨"gt", by decide⟩
      · exact .inr ⟨"quot", by decide⟩
      · exact .inr ⟨"#39", by decide⟩

/-- The reference of a character stands for the character. -/
theorem unescape_escapeChar
    (c : Char)
    (cs : List Char) :
    unescape (escapeChar c ++ cs) = c :: unescape cs := by
  rcases special_cases c with hc | ⟨name, hname⟩
  · rw [escapeChar_of_not_special hc, List.singleton_append, unescape]
    all_goals
      rintro _ rfl
      exact absurd hc (by decide)
  · simp only [references, List.mem_cons, List.not_mem_nil, or_false, Prod.mk.injEq] at hname
    obtain ⟨-, rfl⟩ | ⟨-, rfl⟩ | ⟨-, rfl⟩ | ⟨-, rfl⟩ | ⟨-, rfl⟩ := hname <;>
      simp [escapeChar, unescape]

/-- The escape of a text stands for the text. -/
theorem unescape_escape (text : List Char) : unescape (escape text) = text := by
  induction text with
  | nil => rfl
  | cons c text ih => rw [escape, List.flatMap_cons, ← escape, unescape_escapeChar, ih]

theorem plain_of_not_special
    {c : Char}
    (h : isSpecial c = false) :
    c ≠ '<' ∧ c ≠ '>' := by
  constructor <;> rintro rfl <;> exact absurd h (by decide)

/-- Names of elements hold no angle brackets. -/
theorem elementName_plain
    {name : String}
    (h : name ∈ elementNames) :
    ∀ c ∈ name.toList, c ≠ '<' ∧ c ≠ '>' := by
  have hnames : ∀ name ∈ elementNames, ∀ c ∈ name.toList, c ≠ '<' ∧ c ≠ '>' := by
    simp [elementNames]
  exact hnames name h

theorem removeTags_char
    {c : Char}
    (hopen : c ≠ '<')
    (hclose : c ≠ '>')
    (cs : List Char) :
    removeTags false (c :: cs) = c :: removeTags false cs := by
  rw [removeTags]
  · rfl
  · exact hopen
  · exact hclose

/-- A line break at the end of a text stands behind a front that does not end with one. -/
theorem trailing_of_append
    {front rest cs : List Char}
    {last : Char}
    (hlast : last ≠ '\n')
    (h : cs ++ ['\n'] = (front ++ [last]) ++ rest) :
    ∃ shorter, rest = shorter ++ ['\n'] ∧ cs = (front ++ [last]) ++ shorter := by
  rcases List.append_eq_append_iff.mp h with ⟨more, hfront, hmore⟩ | ⟨more, hcs, hrest⟩
  · cases more with
    | nil => exact ⟨[], hmore.symm, by simpa using hfront.symm⟩
    | cons c more =>
        obtain ⟨rfl, hnil⟩ := List.cons.inj hmore
        obtain ⟨rfl, rfl⟩ := List.append_eq_nil_iff.mp hnil.symm
        have hends := (List.append_inj' hfront rfl).2
        exact absurd (List.cons.inj hends).1 hlast
  · exact ⟨more, hrest, hcs⟩

/-- The rest of a tag is removed. -/
theorem removeTags_tag
    {cs : List Char}
    (h : ∀ c ∈ cs, c ≠ '<' ∧ c ≠ '>')
    (rest : List Char) :
    removeTags true (cs ++ '>' :: rest) = removeTags false rest := by
  induction cs with
  | nil => rfl
  | cons c cs ih =>
      obtain ⟨⟨hopen, hclose⟩, hcs⟩ := List.forall_mem_cons.mp h
      rw [List.cons_append, removeTags, if_pos rfl, ih hcs]
      · exact hopen
      · exact hclose

/-- An escaped text stays where tags are removed. -/
theorem removeTags_escape (text rest : List Char) :
    removeTags false (escape text ++ rest) = escape text ++ removeTags false rest := by
  have hplain : ∀ c ∈ escape text, c ≠ '<' ∧ c ≠ '>' := by
    intro c hc
    obtain ⟨d, -, hd⟩ := List.mem_flatMap.mp hc
    rcases special_cases d with hplain | ⟨name, hname⟩
    · rw [escapeChar_of_not_special hplain] at hd
      obtain rfl := List.mem_singleton.mp hd
      exact plain_of_not_special hplain
    · rw [escapeChar_of_reference hname] at hd
      have hnames : ∀ reference ∈ references,
          ∀ c ∈ '&' :: (reference.1.toList ++ [';']), c ≠ '<' ∧ c ≠ '>' := by
        simp [references, or_imp, forall_and]
      exact hnames _ hname c hd
  generalize escape text = cs at hplain
  induction cs with
  | nil => rfl
  | cons c cs ih =>
      obtain ⟨⟨hopen, hclose⟩, hcs⟩ := List.forall_mem_cons.mp hplain
      rw [List.cons_append, removeTags_char hopen hclose, ih hcs]
      rfl

namespace Markup

variable {phrasing : Bool} {cs cs' text text' : List Char}

/-- Well-formed markup without its tags is its escaped text. -/
theorem removeTags_append
    (h : Markup phrasing cs text)
    (rest : List Char) :
    removeTags false (cs ++ rest) = escape text ++ removeTags false rest := by
  induction h generalizing rest with
  | nil => rfl
  | @char _ c cs text hc _ ih =>
      have htext : escape (c :: text) = [c] ++ escape text := by
        rw [escape, List.flatMap_cons, escapeChar_of_not_special hc, escape]
      obtain ⟨hopen, hclose⟩ := plain_of_not_special hc
      rw [htext, List.cons_append, removeTags_char hopen hclose, ih]
      rfl
  | @reference _ name c cs text hname _ ih =>
      have hone : '&' :: (name.toList ++ ';' :: cs) = escape [c] ++ cs := by
        simp [escape, escapeChar_of_reference hname]
      have htext : escape (c :: text) = escape [c] ++ escape text := by simp [escape]
      rw [hone, htext, List.append_assoc, removeTags_escape, ih, List.append_assoc]
  | @element phrasing name classes inner cs text text' hname _ hclasses _ _ ihinner ihrest =>
      have hopening : ∀ c ∈ name.toList ++ " class=\"".toList ++ classes ++ ['"'],
          c ≠ '<' ∧ c ≠ '>' := by
        have hfixed : ∀ c ∈ " class=\"".toList ++ ['"'], c ≠ '<' ∧ c ≠ '>' := by simp
        intro c hc
        simp only [List.mem_append] at hc hfixed
        rcases hc with ((hc | hc) | hc) | hc
        · exact elementName_plain hname c hc
        · exact hfixed c (.inl hc)
        · exact plain_of_not_special (hclasses c hc)
        · exact hfixed c (.inr hc)
      have hclosing : ∀ c ∈ '/' :: name.toList, c ≠ '<' ∧ c ≠ '>' :=
        List.forall_mem_cons.mpr ⟨by decide, elementName_plain hname⟩
      have htext : escape (text ++ text') = escape text ++ escape text' := by simp [escape]
      calc
        _ = removeTags true ((name.toList ++ " class=\"".toList ++ classes ++ ['"']) ++ '>' ::
              (inner ++ '<' :: (('/' :: name.toList) ++ '>' :: (cs ++ rest)))) := by
          simp [removeTags]
        _ = escape text ++ removeTags true (('/' :: name.toList) ++ '>' :: (cs ++ rest)) := by
          rw [removeTags_tag hopening, ihinner]
          rfl
        _ = escape (text ++ text') ++ removeTags false rest := by
          rw [removeTags_tag hclosing, ihrest, htext, List.append_assoc]

/-- The text of markup is what is left without its tags and references. -/
theorem unescape_removeTags
    (h : Markup phrasing cs text) :
    unescape (removeTags false cs) = text := by
  have hremoved := h.removeTags_append []
  rw [List.append_nil, removeTags, List.append_nil] at hremoved
  rw [hremoved, unescape_escape]

/-- Markup may follow markup. -/
theorem append
    (h : Markup phrasing cs text)
    (h' : Markup phrasing cs' text') :
    Markup phrasing (cs ++ cs') (text ++ text') := by
  induction h with
  | nil => exact h'
  | char hc _ ih => exact .char hc (ih h')
  | reference hname _ ih =>
      rw [List.cons_append, List.append_assoc, List.cons_append]
      exact .reference hname (ih h')
  | element hname hspan hclasses hinner _ _ ih =>
      have helement := Markup.element hname hspan hclasses hinner (ih h')
      simpa using helement

/-- An escaped text is markup. -/
theorem ofText (text : List Char) : Markup phrasing (escape text) text := by
  induction text with
  | nil => exact .nil
  | cons c text ih =>
      rw [escape, List.flatMap_cons, ← escape]
      rcases special_cases c with hc | ⟨name, hname⟩
      · rw [escapeChar_of_not_special hc]
        exact .char hc ih
      · rw [escapeChar_of_reference hname, List.cons_append, List.append_assoc]
        exact .reference hname ih

/-- What may stand in a span may stand anywhere. -/
theorem of_phrasing
    (h : Markup phrasing cs text) :
    Markup false cs text := by
  induction h with
  | nil => exact .nil
  | char hc _ ih => exact .char hc ih
  | reference hname _ ih => exact .reference hname ih
  | @element phrasing name _ _ _ _ _ hname hspan hclasses hinner _ _ ih =>
      refine .element hname nofun hclasses ?_ ih
      cases phrasing with
      | false => exact hinner
      | true =>
          obtain rfl := hspan rfl
          exact hinner

/-- A line break at the end of markup is part of its text. -/
theorem of_trailing
    (h : Markup phrasing (cs ++ ['\n']) text) :
    ∃ shorter, text = shorter ++ ['\n'] ∧ Markup phrasing cs shorter := by
  generalize hwhole : cs ++ ['\n'] = whole at h
  induction h generalizing cs with
  | nil => simp at hwhole
  | @char _ c rest text hc hrest ih =>
      cases cs with
      | nil =>
          obtain ⟨rfl, rfl⟩ : '\n' = c ∧ [] = rest := by simpa using hwhole
          cases hrest
          exact ⟨[], rfl, .nil⟩
      | cons d cs =>
          obtain ⟨rfl, hrest'⟩ := List.cons.inj hwhole
          obtain ⟨shorter, rfl, hshorter⟩ := ih hrest'
          exact ⟨d :: shorter, rfl, .char hc hshorter⟩
  | @reference _ name c rest text hname _ ih =>
      have hsplit : cs ++ ['\n'] = ('&' :: name.toList ++ [';']) ++ rest := by simpa using hwhole
      obtain ⟨fewer, hrest, rfl⟩ := trailing_of_append (by decide) hsplit
      obtain ⟨shorter, rfl, hshorter⟩ := ih hrest.symm
      refine ⟨c :: shorter, rfl, ?_⟩
      simpa using Markup.reference hname hshorter
  | @element _ name classes inner rest text text' hname hspan hclasses hinner _ _ ih =>
      have hsplit : cs ++ ['\n'] = ('<' :: (name.toList ++ " class=\"".toList ++ classes ++
          '"' :: '>' :: (inner ++ '<' :: '/' :: name.toList)) ++ ['>']) ++ rest := by
        simpa using hwhole
      obtain ⟨fewer, hrest, rfl⟩ := trailing_of_append (by decide) hsplit
      obtain ⟨shorter, rfl, hshorter⟩ := ih hrest.symm
      refine ⟨text ++ shorter, (List.append_assoc _ _ _).symm, ?_⟩
      simpa using Markup.element hname hspan hclasses hinner hshorter

end Markup

/-! ## The output for an element -/

@[simp] theorem write_nil : write [] = [] := rfl

@[simp] theorem write_cons
    (piece : Piece)
    (pieces : List Piece) :
    write (piece :: pieces) = piece.write ++ write pieces := rfl

@[simp] theorem write_append
    (pieces pieces' : List Piece) :
    write (pieces ++ pieces') = write pieces ++ write pieces' := by
  simp [write]

theorem not_special_of_any
    {cs : List Char}
    (h : cs.any isSpecial = false) :
    ∀ c ∈ cs, isSpecial c = false :=
  fun c hc => Bool.eq_false_iff.mpr (List.any_eq_false.mp h c hc)

/-- The class of a role holds no special character. -/
theorem not_special_className (role : Role) :
    ∀ c ∈ role.className.toList, isSpecial c = false :=
  not_special_of_any (by cases role <;> decide)

theorem not_special_emphasis (emphasis : Emphasis) :
    ∀ c ∈ emphasis.key.toList, isSpecial c = false :=
  not_special_of_any (by cases emphasis <;> decide)

theorem not_special_inlineClasses
    (role : Role)
    (layout : Layout) :
    ∀ c ∈ (inlineClasses role layout).toList, isSpecial c = false := by
  have hrole := not_special_className role
  have hlayout : ∀ c ∈ (" layout-" ++ layout.key).toList, isSpecial c = false :=
    not_special_of_any (by cases layout <;> decide)
  intro c hc
  cases layout with
  | inline => exact hrole c hc
  | _ =>
      rw [inlineClasses, String.append_assoc, String.toList_append, List.mem_append] at hc
      · exact hc.elim (hrole c) (hlayout c)
      · nofun

/-- Markup between the tags of an element shows the same text. -/
theorem Markup.tagged
    {phrasing : Bool}
    {cs text : List Char}
    {tag : Tag}
    {classes : String}
    (hspan : phrasing = true → tag = .span)
    (hclasses : ∀ c ∈ classes.toList, isSpecial c = false)
    (h : Markup (phrasing || tag == .span || tag == .td) cs text) :
    Markup phrasing ((Piece.opening tag classes).write ++ (cs ++ (Piece.closing tag).write))
      text := by
  have hname : tag.name ∈ elementNames := by cases tag <;> decide
  have hphrasing : (phrasing || tag == .span || tag == .td) =
      (phrasing || tag.name == "span" || tag.name == "td") := by
    cases tag <;> rfl
  rw [hphrasing] at h
  have helement := Markup.element hname (fun h => by rw [hspan h]; rfl) hclasses h .nil
  simpa [Piece.write] using helement

/-- The characters are markup that shows the words, up to blank space. -/
def Shows (phrasing : Bool) (cs : List Char) (words : List String) : Prop :=
  ∃ text, Markup phrasing cs text ∧ visible text = visible (words.flatMap String.toList)

namespace Shows

variable {phrasing : Bool} {cs cs' : List Char} {words words' : List String}

theorem append
    (h : Shows phrasing cs words)
    (h' : Shows phrasing cs' words') :
    Shows phrasing (cs ++ cs') (words ++ words') := by
  obtain ⟨text, hmarkup, htext⟩ := h
  obtain ⟨text', hmarkup', htext'⟩ := h'
  refine ⟨text ++ text', hmarkup.append hmarkup', ?_⟩
  simp only [visible, List.filter_append, List.flatMap_append] at htext htext' ⊢
  rw [htext, htext']

theorem of_run (run : String) : Shows phrasing (escape run.toList) [run] :=
  ⟨run.toList, .ofText run.toList, by simp⟩

theorem of_blank
    {blanks : List Char}
    (h : ∀ c ∈ blanks, isBlank c = true) :
    Shows phrasing (escape blanks) [] := by
  refine ⟨blanks, .ofText blanks, ?_⟩
  simpa [visible] using h

/-- What is allowed in a line is allowed between lines. -/
theorem of_phrasing
    (h : Shows true cs words) :
    Shows false cs words := by
  obtain ⟨text, hmarkup, htext⟩ := h
  exact ⟨text, hmarkup.of_phrasing, htext⟩

/-- Markup between the tags of an element. -/
theorem tagged
    {tag : Tag}
    {classes : String}
    (hspan : phrasing = true → tag = .span)
    (hclasses : ∀ c ∈ classes.toList, isSpecial c = false)
    (h : Shows (phrasing || tag == .span || tag == .td) cs words) :
    Shows phrasing ((Piece.opening tag classes).write ++ (cs ++ (Piece.closing tag).write))
      words := by
  obtain ⟨text, hmarkup, htext⟩ := h
  exact ⟨text, hmarkup.tagged hspan hclasses, htext⟩

/-- A span holds phrasing content and may stand anywhere. -/
theorem span
    {classes : String}
    (hclasses : ∀ c ∈ classes.toList, isSpecial c = false)
    (h : Shows true cs words) :
    Shows phrasing ((Piece.opening .span classes).write ++ (cs ++ (Piece.closing .span).write))
      words := by
  refine tagged (fun _ => rfl) hclasses ?_
  cases phrasing <;> exact h

/-- A cell holds phrasing content. -/
theorem cell
    {classes : String}
    (hclasses : ∀ c ∈ classes.toList, isSpecial c = false)
    (h : Shows true cs words) :
    Shows false ((Piece.opening .td classes).write ++ (cs ++ (Piece.closing .td).write)) words :=
  tagged nofun hclasses h

/-- The other elements hold any markup. -/
theorem box
    {tag : Tag}
    {classes : String}
    (htag : (tag == .span || tag == .td) = false)
    (hclasses : ∀ c ∈ classes.toList, isSpecial c = false)
    (h : Shows false cs words) :
    Shows false ((Piece.opening tag classes).write ++ (cs ++ (Piece.closing tag).write)) words := by
  refine tagged nofun hclasses ?_
  rw [Bool.false_or, htag]
  exact h

/-- Line breaks at both ends do not matter for what is shown. -/
theorem trimBreaks
    (h : Shows phrasing cs words) :
    Shows phrasing (trimBreaks cs) words := by
  generalize hreversed : cs.reverse = reversed
  induction reversed generalizing cs with
  | nil =>
      obtain rfl := List.reverse_eq_nil_iff.mp hreversed
      exact h
  | cons c rest ih =>
      obtain rfl : cs = rest.reverse ++ [c] := by
        rw [← List.reverse_cons, ← hreversed, List.reverse_reverse]
      rcases Decidable.em (c = '\n') with rfl | hc
      · obtain ⟨text, hmarkup, htext⟩ := h
        obtain ⟨shorter, rfl, hshorter⟩ := hmarkup.of_trailing
        have hvisible : visible shorter = visible (words.flatMap String.toList) := by
          rw [← htext]
          simp [visible, show isBlank '\n' = true from by decide]
        have htrimmed := ih ⟨shorter, hshorter, hvisible⟩ (List.reverse_reverse rest)
        simpa [Html.trimBreaks] using htrimmed
      · simpa [Html.trimBreaks, hc] using h

end Shows

/-- Indentation shows nothing. -/
theorem shows_indentation
    (phrasing : Bool)
    (width depth : Nat) :
    Shows phrasing (indentation width depth).write [] := by
  refine .of_blank fun c hc => ?_
  obtain rfl := List.eq_of_mem_replicate hc
  decide

theorem shows_lineBreak (phrasing : Bool) : Shows phrasing lineBreak.write [] :=
  .of_blank (List.forall_mem_singleton.mpr (by decide))

theorem shows_leadingSpace
    (compact : Bool)
    (previous : Option Element)
    (child : Element) :
    Shows true (escape (Element.leadingSpace compact previous child)) [] := by
  refine .of_blank ?_
  unfold Element.leadingSpace
  split
  · exact List.forall_mem_singleton.mpr (by decide)
  · nofun

mutual

/-- An element in a line shows its words in their order. -/
theorem shows_inline : ∀ element : Element,
    Shows true (write (inline element)) element.tokens
  | .text run => by
      simpa [inline, Piece.write, Element.tokens] using Shows.of_run run
  | .leaf word emphasis => by
      have hword : Shows true _ [word] :=
        .span (not_special_emphasis emphasis) (.of_run word)
      simpa [inline, Piece.write, Element.tokens] using hword
  | .container role layout children => by
      have hspan : Shows true _ (Element.tokensOfAll children) :=
        .span (not_special_inlineClasses role layout)
          (shows_run (Element.isCompact role children) none children)
      simpa [inline, Element.tokens] using hspan

/-- A run shows the words of its elements. -/
theorem shows_run (compact : Bool) (previous : Option Element) : ∀ children : List Element,
    Shows true (write (run compact previous children)) (Element.tokensOfAll children)
  | [] => ⟨[], .nil, rfl⟩
  | child :: rest => by
      have hchild := (shows_leadingSpace compact previous child).append (shows_inline child)
      have hall := hchild.append (shows_run compact (some child) rest)
      simpa [run, Piece.write, Element.tokensOfAll] using hall

end

/-- Lines with an element in between. -/
theorem shows_line
    {width depth : Nat}
    {pieces : List Piece}
    {words : List String}
    (h : Shows false (write pieces) words) :
    Shows false (write (indentation width depth :: pieces ++ [lineBreak])) words := by
  have hline := ((shows_indentation false width depth).append h).append (shows_lineBreak false)
  simpa using hline

/-- The children of the container have lines of their own. -/
def isBox : Layout → Bool
  | .block | .table | .row => true
  | .inline | .cell => false

/-- The lines between the tags of a container, and what the closing tag is indented with. -/
def between (width depth : Nat) (children : List Element) : List Piece :=
  if children.isEmpty then []
  else lineBreak :: blocks width (depth + 1) children ++ [indentation width depth]

/-- Blocks, tables and rows hold lines of their own. -/
theorem block_box
    {layout : Layout}
    (hbox : isBox layout = true)
    (width depth : Nat)
    (role : Role)
    (children : List Element) :
    block width depth (.container role layout children) =
      indentation width depth :: (.opening (Tag.ofLayout layout) role.className ::
        (between width depth children ++ [.closing (Tag.ofLayout layout)])) ++ [lineBreak] := by
  cases layout with
  | inline => cases hbox
  | cell => cases hbox
  | _ => cases children <;> simp [block, between]

theorem block_cell
    (width depth : Nat)
    (role : Role)
    (children : List Element) :
    block width depth (.container role .cell children) =
      indentation width depth :: (.opening .td role.className ::
        (run (Element.isCompact role children) none children ++ [.closing .td])) ++
        [lineBreak] := by
  simp [block]

/-- A container with lines of its own shows the words of its children. -/
theorem shows_box
    {width depth : Nat}
    {role : Role}
    {layout : Layout}
    {children : List Element}
    (hbox : isBox layout = true)
    (h : Shows false (write (blocks width (depth + 1) children)) (Element.tokensOfAll children)) :
    Shows false (write (block width depth (.container role layout children)))
      (Element.tokensOfAll children) := by
  have hbetween : Shows false (write (between width depth children))
      (Element.tokensOfAll children) := by
    cases children with
    | nil => exact ⟨[], .nil, rfl⟩
    | cons child children =>
        have hlines :=
          ((shows_lineBreak false).append h).append (shows_indentation false width depth)
        simpa [between] using hlines
  have htag : (Tag.ofLayout layout == .span || Tag.ofLayout layout == .td) = false := by
    cases layout with
    | inline => cases hbox
    | cell => cases hbox
    | _ => rfl
  have htagged := hbetween.box htag (not_special_className role)
  rw [block_box hbox]
  exact shows_line (by simpa using htagged)

mutual

/-- An element with lines of its own shows its words in their order. -/
theorem shows_block (width depth : Nat) : ∀ element : Element,
    Shows false (write (block width depth element)) element.tokens
  | .text run => shows_line (shows_inline (.text run)).of_phrasing
  | .leaf word emphasis => shows_line (shows_inline (.leaf word emphasis)).of_phrasing
  | .container role .cell children => by
      have hcell := (shows_run (Element.isCompact role children) none children).cell
        (not_special_className role)
      rw [block_cell, Element.tokens]
      exact shows_line (by simpa using hcell)
  | .container role .inline children =>
      shows_line (shows_inline (.container role .inline children)).of_phrasing
  | .container _ .block children =>
      shows_box rfl (shows_blocks width (depth + 1) children)
  | .container _ .table children =>
      shows_box rfl (shows_blocks width (depth + 1) children)
  | .container _ .row children =>
      shows_box rfl (shows_blocks width (depth + 1) children)

/-- A sequence of lines shows the words of its elements. -/
theorem shows_blocks (width depth : Nat) : ∀ children : List Element,
    Shows false (write (blocks width depth children)) (Element.tokensOfAll children)
  | [] => ⟨[], .nil, rfl⟩
  | child :: rest => by
      have hall := (shows_block width depth child).append (shows_blocks width depth rest)
      simpa [blocks, Element.tokensOfAll] using hall

end

end Html

open Html (Markup removeTags unescape visible)

/-- The output for an element is well-formed markup, whose text has the visible characters of the
tokens of the element; a whole document has a fixed text before it and another one behind it. -/
theorem render_html_shows_tokens
    (element : Element)
    (settings : Settings) :
    ∃ fragment : String,
      element.render .html { settings with standalone := false } = fragment ∧
        (∃ text, Markup false fragment.toList text) ∧
        visible (unescape (removeTags false fragment.toList)) =
          visible (element.tokens.flatMap String.toList) ∧
        element.render .html { settings with standalone := true } =
          Html.documentHead ++ fragment ++ Html.documentFoot := by
  obtain ⟨text, hmarkup, htext⟩ := (Html.shows_block settings.indent 0 element).trimBreaks
  refine ⟨String.ofList (Html.fragment settings.indent element), rfl, ?_, ?_, rfl⟩
  · rw [String.toList_ofList]
    exact ⟨text, hmarkup⟩
  · rw [String.toList_ofList, Html.fragment, hmarkup.unescape_removeTags, htext]

end LuaView
