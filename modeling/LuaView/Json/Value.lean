/-!
# JSON values

Numbers are kept apart by how they are written: `integer` for a numeral without fraction and
exponent, `decimal` for any other, whose text is all that is kept of it.  An object keeps its
members in the order they are written in, and the first of several members with one name counts.
-/

namespace LuaView

/-- A JSON value. -/
inductive Json where
  | null
  | bool (value : Bool)
  | integer (value : Int)
  | decimal (text : String)
  | string (text : String)
  | array (items : List Json)
  | object (members : List (String × Json))

namespace Json

/-- The first member of a name. -/
def member? (name : String) : List (String × Json) → Option Json
  | [] => none
  | (key, value) :: rest => if key = name then some value else member? name rest

/-- The member of a name, for an object. -/
def get? (name : String) : Json → Option Json
  | .object members => member? name members
  | _ => none

def bool? : Json → Option Bool
  | .bool value => some value
  | _ => none

def int? : Json → Option Int
  | .integer value => some value
  | _ => none

/-- An integer that is not negative. -/
def nat? : Json → Option Nat
  | .integer (.ofNat value) => some value
  | _ => none

def string? : Json → Option String
  | .string text => some text
  | _ => none

def array? : Json → Option (List Json)
  | .array items => some items
  | _ => none

/-- An array whose items all decode. -/
def list? {α : Type} (decode : Json → Option α) (json : Json) : Option (List α) := do
  let items ← json.array?
  items.mapM decode

end Json
end LuaView
