import LuaView.Grammar.Session
import LuaView.Json.Writer
import LuaView.Markup.Html
import LuaView.Markup.Plain
import LuaView.Settings
import LuaView.Visual.Json
import LuaView.Visual.Program

/-!
# Rendering

The formats that a program can be shown in, and the way from a source to its output: the source is
parsed, the program becomes a visual tree, and the tree is written in the chosen format.
-/

namespace LuaView

/-- Output formats. -/
inductive Format where
  | html
  | text
  | json
deriving DecidableEq, Repr

/-- Why nothing is rendered. -/
inductive RenderError where
  | parse (error : ParseError)
  | unknownFormat (name : String)
deriving DecidableEq, Repr

def RenderError.message : RenderError → String
  | .parse error => "parse error: " ++ error.message
  | .unknownFormat name =>
      "unknown output format '" ++ name ++ "', expected html, text or json"

namespace Format

def name : Format → String
  | .html => "html"
  | .text => "text"
  | .json => "json"

/-- The format of a name; the case of its letters does not matter. -/
def ofName (name : String) : Except RenderError Format :=
  match String.ofList (name.toList.map Char.toLower) with
  | "html" => .ok .html
  | "text" => .ok .text
  | "txt" => .ok .text
  | "json" => .ok .json
  | _ => .error (.unknownFormat name)

end Format

/-- An element in a format. -/
def Element.render (element : Element) (format : Format) (settings : Settings) : String :=
  match format with
  | .html => element.toHtml settings.indent settings.standalone
  | .text => element.toPlain settings.indent
  | .json => element.toJson.indented settings.indent

/-- A program in a format. -/
def Chunk.render (chunk : Chunk) (format : Format) (settings : Settings) : String :=
  chunk.toElement.render format settings

/-- The program that a source holds in a format. -/
def renderSource (source : String) (format : Format) (settings : Settings) :
    Except RenderError String := do
  let chunk ← (parse source settings.limit).mapError .parse
  return chunk.render format settings

end LuaView
