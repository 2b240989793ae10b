import LuaView.Source.Position

/-!
# Errors

Why a source is not a program, and where.  The message of an error ends with the line and the
column of its first character, both counted from one.
-/

namespace LuaView
namespace ParseError

/-- What is wrong with a source. -/
inductive Cause where
  /-- A token stands where something else is expected. -/
  | unexpectedToken (found : String) (expected : String)
  /-- The source ends where something else is expected. -/
  | unexpectedEnd (expected : String)
  /-- A character starts no token. -/
  | unexpectedCharacter (c : Char)
  /-- A numeral denotes no number. -/
  | malformedNumber (text : String)
  /-- A string literal has no closing delimiter. -/
  | unclosedString
  /-- A long comment has no closing bracket. -/
  | unclosedComment
  /-- An expression on the left of `=` is no variable. -/
  | notAssignable
  /-- Blocks or expressions are nested deeper than allowed. -/
  | tooDeep (limit : Nat)
deriving DecidableEq, Repr

def Cause.message : Cause → String
  | .unexpectedToken found expected =>
      "unexpected token '" ++ found ++ "', expected " ++ expected
  | .unexpectedEnd expected => "unexpected end of file, expected " ++ expected
  | .unexpectedCharacter c => "unexpected character '" ++ String.singleton c ++ "'"
  | .malformedNumber text => "malformed number '" ++ text ++ "'"
  | .unclosedString => "unterminated string literal"
  | .unclosedComment => "unterminated long comment"
  | .notAssignable => "cannot assign to this expression"
  | .tooDeep limit => "nesting exceeds the limit of " ++ limit.repr ++ " levels"

end ParseError

/-- A cause and the stretch of the source it concerns. -/
structure ParseError where
  cause : ParseError.Cause
  span : Span := {}
deriving DecidableEq, Repr

namespace ParseError

/-- The line of the error, counted from one. -/
def line (error : ParseError) : Nat :=
  error.span.start.line + 1

/-- The column of the error, counted from one. -/
def column (error : ParseError) : Nat :=
  error.span.start.column + 1

def message (error : ParseError) : String :=
  error.cause.message ++ " at line " ++ error.line.repr ++ ", column " ++ error.column.repr

end ParseError
end LuaView
