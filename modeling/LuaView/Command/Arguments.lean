import LuaView.Command.Disk
import LuaView.Markup.Render

/-!
# Arguments of the command line

The arguments are read from left to right.  A request for help ends the reading at once, and so
does the first argument that is wrong, so of several faults the first one counts.  Only then it is
checked that there is an input, and after that whether the indentation is within its bounds.
-/

namespace LuaView
namespace Command

/-- The text of `--help`. -/
def usage : String :=
  "A tool for converting Lua code into visual representations for enhanced program comprehension.

Usage: vlua <filename> [options]

Arguments:
  <filename>               Path to the input Lua file

Options:
  -o, --output-file PATH   Write the result to PATH instead of the console
  -f, --format FORMAT      Output format: html, text or json (default: html)
      --standalone         Wrap HTML output in a complete document
      --indent N           Spaces per indentation level (default: 4)
  -h, --help               Print this help"

/-- Why a text is not a width. -/
inductive WidthFault where
  | empty
  | invalidDigit
  | tooLarge
deriving DecidableEq, Repr

def WidthFault.message : WidthFault → String
  | .empty => "cannot parse integer from empty string"
  | .invalidDigit => "invalid digit found in string"
  | .tooLarge => "number too large to fit in target type"

/-- Why the program ends without a result. -/
inductive Failure where
  | missingPath (option : String)
  | missingFormat (option : String)
  | missingWidth (option : String)
  | invalidWidth (text : String) (fault : WidthFault)
  | unknownOption (option : String)
  | secondInput
  | missingInput
  | format (error : RenderError)
  | settings (refusal : Settings.Refusal)
  | reading (path : String) (fault : FileFault)
  | rendering (path : String) (error : ParseError)
  | writing (path : String) (fault : FileFault)
deriving DecidableEq, Repr

/-- A failure with its causes, from the outermost to the innermost. -/
def Failure.message : Failure → String
  | .missingPath option => "Missing path after " ++ option
  | .missingFormat option => "Missing format name after " ++ option
  | .missingWidth option => "Missing width after " ++ option
  | .invalidWidth text fault => "Invalid indent width '" ++ text ++ "': " ++ fault.message
  | .unknownOption option => "Unknown option '" ++ option ++ "'"
  | .secondInput => "Only one input file is supported"
  | .missingInput => "Missing input filename\n\n" ++ usage
  | .format error => error.message
  | .settings refusal => refusal.message
  | .reading path fault => "Reading " ++ path ++ ": " ++ fault.message
  | .rendering path error =>
      "Rendering " ++ path ++ ": " ++ (RenderError.parse error).message ++ ": " ++ error.message
  | .writing path fault => "Writing " ++ path ++ ": " ++ fault.message

/-- Digits behind those that are already read; the number has to fit 64 bits. -/
def moreDigits (value : Nat) : List Char → Except WidthFault Nat
  | [] => .ok value
  | c :: cs =>
      if c.isDigit then
        let value := 10 * value + CharClass.digitValue c
        if value < 2 ^ 64 then moreDigits value cs else .error .tooLarge
      else .error .invalidDigit

/-- A number that may have a plus sign. -/
def readWidth (text : String) : Except WidthFault Nat :=
  match text.toList with
  | [] => .error .empty
  | '+' :: c :: cs => moreDigits 0 (c :: cs)
  | cs => moreDigits 0 cs

/-- What the arguments say. -/
structure Options where
  input : Option String := none
  output : Option String := none
  format : Format := .html
  standalone : Bool := false
  indent : Nat := 4

/-- What the options add up to; nothing if help is asked for. -/
def readOptions (options : Options) : List String → Except Failure (Option Options)
  | [] => .ok (some options)
  | arg :: rest =>
      if arg = "-h" ∨ arg = "--help" then .ok none
      else if arg = "-o" ∨ arg = "--output-file" then
        match rest with
        | [] => .error (.missingPath arg)
        | path :: rest => readOptions { options with output := some path } rest
      else if arg = "-f" ∨ arg = "--format" then
        match rest with
        | [] => .error (.missingFormat arg)
        | name :: rest =>
            match Format.ofName name with
            | .error error => .error (.format error)
            | .ok format => readOptions { options with format := format } rest
      else if arg = "--standalone" then readOptions { options with standalone := true } rest
      else if arg = "--indent" then
        match rest with
        | [] => .error (.missingWidth arg)
        | text :: rest =>
            match readWidth text with
            | .error fault => .error (.invalidWidth text fault)
            | .ok width => readOptions { options with indent := width } rest
      else if arg.toList.head? = some '-' then .error (.unknownOption arg)
      else if options.input.isSome then .error .secondInput
      else readOptions { options with input := some arg } rest

/-- What there is to do: a file to read, where to write it, and how. -/
structure Job where
  input : String
  output : Option String
  format : Format
  settings : Settings

/-- The job that the arguments describe; nothing if help is asked for. -/
def readArguments (args : List String) : Except Failure (Option Job) :=
  match readOptions {} args with
  | .error failure => .error failure
  | .ok none => .ok none
  | .ok (some options) =>
      match options.input with
      | none => .error .missingInput
      | some input =>
          match Settings.check options.indent maxLimit options.standalone with
          | .error refusal => .error (.settings refusal)
          | .ok settings => .ok (some ⟨input, options.output, options.format, settings⟩)

end Command
end LuaView
