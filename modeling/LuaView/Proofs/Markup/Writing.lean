import LuaView.Proofs.Lexing.Spelling
import LuaView.Proofs.Markup.Layout

/-!
# What a layout spells out

A layout spells out marks in front of any text that starts with one of certain characters, whatever
the width of a level.  Layouts are put together from the back: each rule puts a mark or a blank in
front of a layout, or one layout in front of another, and asks that the characters which become
neighbours may be neighbours.
-/

namespace LuaView

open Plain (Skeleton Piece)
open Plain.Skeleton (ofText ofChars)

namespace Plain.Skeleton

@[simp] theorem write_indent (width level : Nat) (skeleton : Skeleton) :
    write width (.indent level :: skeleton) =
      List.replicate (level * width) ' ' ++ write width skeleton :=
  rfl

@[simp] theorem write_append (width : Nat) (first second : Skeleton) :
    write width (first ++ second) = write width first ++ write width second := by
  simp [write]

@[simp] theorem write_ofChars (width : Nat) (cs : List Char) :
    write width (ofChars cs) = cs := by
  induction cs with
  | nil => rfl
  | cons c cs ih => exact congrArg (c :: ·) ih

end Plain.Skeleton

/-- The layout, in front of a text that starts with a character in `follow` if it is not empty,
spells out the marks. -/
def Writes
    (plain : Bool)
    (skeleton : Skeleton)
    (marks : List Mark)
    (follow : Char → Bool) : Prop :=
  ∀ (width : Nat) (rest : List Char) (more : List Mark),
    (∀ c ∈ rest.head?, follow c = true) → Spelled plain rest more →
      Spelled plain (skeleton.write width ++ rest) (marks ++ more)

/-- The layout starts with a character in `allowed`. -/
def Opens (skeleton : Skeleton) (allowed : Char → Bool) : Prop :=
  ∃ c tail, skeleton = .char c :: tail ∧ allowed c = true

namespace Opens

theorem char
    {c : Char}
    {allowed : Char → Bool}
    (hc : allowed c = true)
    (tail : Skeleton) :
    Opens (.char c :: tail) allowed :=
  ⟨c, tail, rfl, hc⟩

/-- What stands behind a layout does not change how it starts. -/
theorem append
    {skeleton : Skeleton}
    {allowed : Char → Bool}
    (h : Opens skeleton allowed)
    (rest : Skeleton) :
    Opens (skeleton ++ rest) allowed := by
  obtain ⟨c, tail, rfl, hc⟩ := h
  exact ⟨c, tail ++ rest, rfl, hc⟩

/-- A layout may start in more ways than asked for. -/
theorem mono
    {skeleton : Skeleton}
    {allowed wider : Char → Bool}
    (h : Opens skeleton allowed)
    (himp : ∀ c, allowed c = true → wider c = true) :
    Opens skeleton wider := by
  obtain ⟨c, tail, rfl, hc⟩ := h
  exact ⟨c, tail, rfl, himp c hc⟩

/-- The text of a layout starts as the layout does. -/
theorem head
    {skeleton : Skeleton}
    {allowed : Char → Bool}
    (h : Opens skeleton allowed)
    (width : Nat)
    (rest : List Char) :
    ∀ c ∈ (skeleton.write width ++ rest).head?, allowed c = true := by
  obtain ⟨c, tail, rfl, hc⟩ := h
  intro d hd
  obtain rfl : c = d := Option.some.inj hd
  exact hc

end Opens

/-- The character is not part of a word. -/
def endsWord (c : Char) : Bool :=
  !CharClass.isWord c

/-- The character ends a line. -/
def endsLine (c : Char) : Bool :=
  c == '\n'

/-- What ends a line ends a word. -/
theorem endsWord_of_endsLine
    {c : Char}
    (h : endsLine c = true) :
    endsWord c = true := by
  obtain rfl : c = '\n' := by simpa [endsLine] using h
  decide

namespace Writes

variable {plain : Bool}
variable {skeleton rest : Skeleton}
variable {marks more : List Mark}
variable {follow narrower : Char → Bool}

theorem nil : Writes plain [] [] follow :=
  fun _ _ _ _ hspelled => hspelled

/-- Less may follow than is allowed. -/
theorem mono
    (h : Writes plain skeleton marks follow)
    (himp : ∀ c, narrower c = true → follow c = true) :
    Writes plain skeleton marks narrower :=
  fun width text others htext hspelled =>
    h width text others (fun c hc => himp c (htext c hc)) hspelled

/-- One layout may stand behind another one if it starts with what may follow there. -/
theorem append
    (h : Writes plain skeleton marks follow)
    (hrest : Writes plain rest more narrower)
    (hopens : Opens rest follow) :
    Writes plain (skeleton ++ rest) (marks ++ more) narrower := by
  intro width text others htext hspelled
  rw [Skeleton.write_append, List.append_assoc, List.append_assoc]
  exact h width _ _ (hopens.head width text) (hrest width text others htext hspelled)

/-- Blanks in front spell nothing. -/
theorem blank
    {c : Char}
    (hc : isBlank c = true)
    (h : Writes plain skeleton marks follow) :
    Writes plain (.char c :: skeleton) marks follow :=
  fun width text others htext hspelled => .blank hc (h width text others htext hspelled)

theorem space
    (h : Writes plain skeleton marks follow) :
    Writes plain (.char ' ' :: skeleton) marks follow :=
  h.blank (by decide)

/-- Indentation spells nothing, whatever its width. -/
theorem indent
    (level : Nat)
    (h : Writes plain skeleton marks follow) :
    Writes plain (.indent level :: skeleton) marks follow := by
  intro width text others htext hspelled
  rw [Skeleton.write_indent, List.append_assoc]
  refine Spelled.blanks (fun c hc => ?_) (h width text others htext hspelled)
  obtain rfl := List.eq_of_mem_replicate hc
  decide

/-- A mark in front of a layout that starts with what may stand behind the mark. -/
theorem cons
    (mark : Mark)
    (hmark : mark.Admitted plain)
    (h : Writes plain skeleton marks follow)
    (hopens : Opens skeleton (mark.admits plain)) :
    Writes plain (ofChars mark.spelling ++ skeleton) (mark :: marks) follow := by
  intro width text others htext hspelled
  rw [Skeleton.write_append, Skeleton.write_ofChars, List.append_assoc]
  exact .mark hmark (hopens.head width text) (h width text others htext hspelled)

/-- A mark that anything may stand behind. -/
theorem cons_free
    (mark : Mark)
    (hmark : mark.Admitted plain)
    (hfree : ∀ c, mark.admits plain c = true)
    (h : Writes plain skeleton marks follow) :
    Writes plain (ofChars mark.spelling ++ skeleton) (mark :: marks) follow := by
  intro width text others htext hspelled
  rw [Skeleton.write_append, Skeleton.write_ofChars, List.append_assoc]
  exact .mark hmark (fun c _ => hfree c) (h width text others htext hspelled)

/-- A mark on its own. -/
theorem single
    (mark : Mark)
    (hmark : mark.Admitted plain) :
    Writes plain (ofChars mark.spelling) [mark] (mark.admits plain) := by
  intro width text others htext hspelled
  rw [Skeleton.write_ofChars]
  exact .mark hmark htext hspelled

end Writes

namespace Mark

/-- Every keyword can be written in a plain text. -/
theorem admitted_word (plain : Bool) (keyword : Keyword) :
    (word keyword).Admitted plain :=
  .of_valid rfl nofun

/-- Every sign can be written in a plain text. -/
theorem admitted_sign (plain : Bool) (symbol : Symbol) :
    (sign symbol).Admitted plain :=
  .of_valid rfl nofun

/-- Behind a word anything may stand that ends a word. -/
theorem admits_word
    {mark : Mark}
    (hkind : mark.kind = .name ∨ ∃ keyword, mark.kind = .keyword keyword)
    (plain : Bool)
    {c : Char}
    (hc : endsWord c = true) :
    mark.admits plain c = true := by
  refine admits_of_allows ?_ plain
  rcases hkind with hkind | ⟨keyword, hkind⟩
  · simpa [allows, hkind, endsWord] using hc
  · simpa [allows, hkind, endsWord] using hc

end Mark

namespace Writes

variable {plain : Bool}
variable {skeleton rest : Skeleton}
variable {marks more : List Mark}
variable {follow : Char → Bool}

/-- A keyword in front, which the layout behind it has to end. -/
theorem word
    (keyword : Keyword)
    (h : Writes plain skeleton marks follow)
    (hopens : Opens skeleton endsWord) :
    Writes plain (ofText keyword.text ++ skeleton) (.word keyword :: marks) follow :=
  cons (.word keyword) (Mark.admitted_word plain keyword) h
    (hopens.mono fun _ => Mark.admits_word (.inr ⟨keyword, rfl⟩) plain)

theorem last_word (keyword : Keyword) :
    Writes plain (ofText keyword.text) [.word keyword] endsWord :=
  (single (.word keyword) (Mark.admitted_word plain keyword)).mono fun _ =>
    Mark.admits_word (.inr ⟨keyword, rfl⟩) plain

/-- A name in front, which the layout behind it has to end. -/
theorem name
    {id : Name}
    (hid : (Mark.name id).Valid)
    (h : Writes plain skeleton marks follow)
    (hopens : Opens skeleton endsWord) :
    Writes plain (ofText id ++ skeleton) (.name id :: marks) follow :=
  cons (.name id) (.of_valid hid nofun) h
    (hopens.mono fun _ => Mark.admits_word (.inl rfl) plain)

theorem last_name
    {id : Name}
    (hid : (Mark.name id).Valid) :
    Writes plain (ofText id) [.name id] endsWord :=
  (single (.name id) (.of_valid hid nofun)).mono fun _ =>
    Mark.admits_word (.inl rfl) plain

/-- A sign of one character. -/
theorem sign
    {symbol : Symbol}
    {c : Char}
    (htext : symbol.text.toList = [c])
    (h : Writes plain skeleton marks follow)
    (hopens : Opens skeleton (Mark.signAllows symbol)) :
    Writes plain (.char c :: skeleton) (.sign symbol :: marks) follow := by
  have hcons := cons (.sign symbol) (Mark.admitted_sign plain symbol) h
    (hopens.mono fun d hd => @Mark.admits_of_allows (.sign symbol) d hd plain)
  have hspelling : (Mark.sign symbol).spelling = [c] := htext
  rw [hspelling] at hcons
  exact hcons

/-- A sign of one character that anything may stand behind. -/
theorem sign_free
    {symbol : Symbol}
    {c : Char}
    (htext : symbol.text.toList = [c])
    (hfree : ∀ d, Mark.signAllows symbol d = true)
    (h : Writes plain skeleton marks follow) :
    Writes plain (.char c :: skeleton) (.sign symbol :: marks) follow := by
  have hcons := cons_free (.sign symbol) (Mark.admitted_sign plain symbol)
    (fun d => @Mark.admits_of_allows (.sign symbol) d (hfree d) plain) h
  have hspelling : (Mark.sign symbol).spelling = [c] := htext
  rw [hspelling] at hcons
  exact hcons

theorem lparen
    (h : Writes plain skeleton marks follow) :
    Writes plain (.char '(' :: skeleton) (.sign .lparen :: marks) follow :=
  sign_free (by decide) (fun _ => rfl) h

theorem rparen
    (h : Writes plain skeleton marks follow) :
    Writes plain (.char ')' :: skeleton) (.sign .rparen :: marks) follow :=
  sign_free (by decide) (fun _ => rfl) h

theorem rbracket
    (h : Writes plain skeleton marks follow) :
    Writes plain (.char ']' :: skeleton) (.sign .rbracket :: marks) follow :=
  sign_free (by decide) (fun _ => rfl) h

theorem comma
    (h : Writes plain skeleton marks follow) :
    Writes plain (.char ',' :: skeleton) (.sign .comma :: marks) follow :=
  sign_free (by decide) (fun _ => rfl) h

/-- An equality sign with a space on each side. -/
theorem equals
    (h : Writes plain skeleton marks follow) :
    Writes plain (.char ' ' :: .char '=' :: .char ' ' :: skeleton) (.sign .eq :: marks) follow :=
  (sign (by decide) h.space (.char (by decide) _)).space

end Writes
end LuaView
