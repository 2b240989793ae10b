import LuaView.Command.Arguments
import Mathlib.Data.List.Basic

/-!
# What arguments ask for

A list of words spells arguments, each of which is one or two words long.  If all words are read,
they spell arguments with exactly one input, and of the paths, formats and widths among them the
last one of its sort counts.  If help is asked for, it is so behind words that spell arguments, of
which at most one is an input.
-/

namespace LuaView
namespace Command

/-- An argument, with what is said by it. -/
inductive Argument where
  | input (path : String)
  | output (path : String)
  | format (format : Format)
  | indent (width : Nat)
  | standalone
deriving DecidableEq

namespace Argument

def input? : Argument → Option String
  | .input path => some path
  | _ => none

/-- The words that an argument is spelled with. -/
inductive Spells : Argument → List String → Prop
  | input
      {path : String}
      (hpath : path.toList.head? ≠ some '-') :
      Spells (.input path) [path]
  | output
      {option path : String}
      (hoption : option = "-o" ∨ option = "--output-file") :
      Spells (.output path) [option, path]
  | format
      {option name : String} {format : Format}
      (hoption : option = "-f" ∨ option = "--format")
      (hname : Format.ofName name = .ok format) :
      Spells (.format format) [option, name]
  | indent
      {text : String} {width : Nat}
      (htext : readWidth text = .ok width) :
      Spells (.indent width) ["--indent", text]
  | standalone :
      Spells .standalone ["--standalone"]

end Argument

/-- The words that a list of arguments is spelled with. -/
inductive Spelled : List Argument → List String → Prop
  | nil :
      Spelled [] []
  | cons
      {argument : Argument} {arguments : List Argument} {words more : List String}
      (h : argument.Spells words)
      (hrest : Spelled arguments more) :
      Spelled (argument :: arguments) (words ++ more)

/-- The options with one more argument. -/
def Options.take (options : Options) : Argument → Options
  | .input path => { options with input := some path }
  | .output path => { options with output := some path }
  | .format format => { options with format := format }
  | .indent width => { options with indent := width }
  | .standalone => { options with standalone := true }

/-- The result is that of arguments which the words spell; none of them overrides an input. -/
def IsReadFrom (options : Options) (args : List String) (result : Option Options) : Prop :=
  ∃ arguments words, Spelled arguments words ∧
    (options.input.toList ++ arguments.filterMap Argument.input?).length ≤ 1 ∧
    match result with
    | none => ∃ option more, (option = "-h" ∨ option = "--help") ∧ args = words ++ option :: more
    | some final => args = words ∧ final = arguments.foldl Options.take options

theorem IsReadFrom.cons
    {options : Options}
    {argument : Argument}
    {words rest : List String}
    {result : Option Options}
    (hspells : argument.Spells words)
    (hinput : argument.input? = none ∨ options.input = none)
    (h : IsReadFrom (options.take argument) rest result) :
    IsReadFrom options (words ++ rest) result := by
  obtain ⟨arguments, others, hspelled, hlength, hresult⟩ := h
  refine ⟨argument :: arguments, words ++ others, .cons hspells hspelled, ?_, ?_⟩
  · cases argument with
    | input path =>
        have hnone : options.input = none := hinput.resolve_left nofun
        rw [hnone]
        exact hlength
    | _ => exact hlength
  · cases result with
    | none =>
        obtain ⟨option, more, hoption, rfl⟩ := hresult
        exact ⟨option, more, hoption, (List.append_assoc _ _ _).symm⟩
    | some final =>
        obtain ⟨rfl, rfl⟩ := hresult
        exact ⟨rfl, rfl⟩

end Command
end LuaView
