/-!
# Settings

What the output of a program depends on besides the program: the number of spaces per level of
indentation, the number of levels that a program may nest, and whether a markup document stands on
its own.  Settings are within their bounds by construction.
-/

namespace LuaView

/-- The greatest number of spaces per level. -/
def maxIndent : Nat := 16

/-- The greatest number of levels that a program may nest. -/
def maxLimit : Nat := 1000

/-- Valid settings. -/
structure Settings where
  indent : Nat := 4
  limit : Nat := maxLimit
  standalone : Bool := false
  indent_le : indent ≤ maxIndent := by decide
  limit_pos : 1 ≤ limit := by decide
  limit_le : limit ≤ maxLimit := by decide

namespace Settings

/-- Why settings are refused. -/
inductive Refusal where
  | indent (width : Nat)
  | limit (levels : Nat)
deriving DecidableEq, Repr

def Refusal.message : Refusal → String
  | .indent width =>
      "indent width " ++ width.repr ++ " exceeds the maximum of " ++ maxIndent.repr
  | .limit levels =>
      "nesting depth " ++ levels.repr ++ " is outside 1..=" ++ maxLimit.repr

/-- Settings with the given values; the indentation is checked first. -/
def check (indent limit : Nat) (standalone : Bool) : Except Refusal Settings :=
  if hindent : indent ≤ maxIndent then
    if hlimit : 1 ≤ limit ∧ limit ≤ maxLimit then
      .ok ⟨indent, limit, standalone, hindent, hlimit.1, hlimit.2⟩
    else .error (.limit limit)
  else .error (.indent indent)

end Settings
end LuaView
