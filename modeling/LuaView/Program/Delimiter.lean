import LuaView.Text.LongBracket

/-!
# Delimiters of string literals

A string literal is kept as it is written: its delimiter, and the text between the delimiters with
no escape resolved.  `Delimiter.quote` puts the delimiters back.
-/

namespace LuaView

/-- How a string literal is delimited. -/
inductive Delimiter where
  | single
  | double
  | long
deriving DecidableEq, Repr

namespace Delimiter

/-- A text between delimiters.  Long brackets get the least level that the text leaves open. -/
def quote (delimiter : Delimiter) (text : String) : String :=
  match delimiter with
  | .single => "'" ++ text ++ "'"
  | .double => "\"" ++ text ++ "\""
  | .long => String.ofList (LongBracket.quote text.toList)

end Delimiter
end LuaView
