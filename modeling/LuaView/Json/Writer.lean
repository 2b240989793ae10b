import LuaView.Json.Value

/-!
# Writing JSON

One writer serves two layouts: `compact`, which writes no blank at all, and `indented`, which
puts each item and each member on a line of its own, indented by its depth.  An empty array and an
empty object are closed on the spot in both.

In a string the quote, the backslash and the characters below U+0020 are escaped, five of them
with a letter and the others with four hexadecimal digits.  All other characters stand for
themselves.

Each function of the writer is given what follows the part that it writes, and puts the part in
front of it.
-/

namespace LuaView
namespace Json

/-- Where blanks go between the parts of a value. -/
structure Layout where
  /-- What separates two lines, the second of which is at a depth. -/
  lineBreak : Nat → List Char
  /-- What separates the name of a member from its value. -/
  colon : List Char

/-- No blanks. -/
def Layout.compact : Layout where
  lineBreak _ := []
  colon := [':']

/-- A line for each item, indented by the given width for each level. -/
def Layout.indented (width : Nat) : Layout where
  lineBreak depth := '\n' :: List.replicate (depth * width) ' '
  colon := [':', ' ']

/-- A digit of base sixteen. -/
def hexDigit (n : Nat) : Char :=
  Nat.digitChar n

/-- A character as it is written in a string. -/
def escapeChar (c : Char) : List Char :=
  if c = '"' then ['\\', '"']
  else if c = '\\' then ['\\', '\\']
  else if c = '\x08' then ['\\', 'b']
  else if c = '\x0c' then ['\\', 'f']
  else if c = '\n' then ['\\', 'n']
  else if c = '\r' then ['\\', 'r']
  else if c = '\t' then ['\\', 't']
  else if c.toNat < 0x20 then
    ['\\', 'u', '0', '0', hexDigit (c.toNat / 16), hexDigit (c.toNat % 16)]
  else [c]

/-- A string between quotes, and what follows it. -/
def quoteOnto (text : String) (rest : List Char) : List Char :=
  '"' :: (text.toList.flatMap escapeChar ++ '"' :: rest)

mutual

/-- A value whose first character is on a line of the given depth, and what follows it. -/
def writeOnto (layout : Layout) (depth : Nat) : Json → List Char → List Char
  | .null, rest => 'n' :: 'u' :: 'l' :: 'l' :: rest
  | .bool true, rest => 't' :: 'r' :: 'u' :: 'e' :: rest
  | .bool false, rest => 'f' :: 'a' :: 'l' :: 's' :: 'e' :: rest
  | .integer value, rest => value.repr.toList ++ rest
  | .decimal text, rest => text.toList ++ rest
  | .string text, rest => quoteOnto text rest
  | .array [], rest => '[' :: ']' :: rest
  | .array (item :: items), rest =>
      '[' :: (layout.lineBreak (depth + 1) ++
        writeOnto layout (depth + 1) item
          (writeItemsOnto layout (depth + 1) items (layout.lineBreak depth ++ ']' :: rest)))
  | .object [], rest => '\x7b' :: '\x7d' :: rest
  | .object ((name, value) :: members), rest =>
      '\x7b' :: (layout.lineBreak (depth + 1) ++
        quoteOnto name (layout.colon ++
          writeOnto layout (depth + 1) value
            (writeMembersOnto layout (depth + 1) members
              (layout.lineBreak depth ++ '\x7d' :: rest))))

/-- The items after the first one, each behind a comma, and what follows them. -/
def writeItemsOnto (layout : Layout) (depth : Nat) : List Json → List Char → List Char
  | [], rest => rest
  | item :: items, rest =>
      ',' :: (layout.lineBreak depth ++
        writeOnto layout depth item (writeItemsOnto layout depth items rest))

/-- The members after the first one, each behind a comma, and what follows them. -/
def writeMembersOnto (layout : Layout) (depth : Nat) :
    List (String × Json) → List Char → List Char
  | [], rest => rest
  | (name, value) :: members, rest =>
      ',' :: (layout.lineBreak depth ++
        quoteOnto name (layout.colon ++
          writeOnto layout depth value (writeMembersOnto layout depth members rest)))

end

/-- The characters of a value. -/
def write (layout : Layout) (json : Json) : List Char :=
  json.writeOnto layout 0 []

/-- The text of a value without blanks. -/
def compact (json : Json) : String :=
  String.ofList (json.write Layout.compact)

/-- The text of a value over several lines. -/
def indented (width : Nat) (json : Json) : String :=
  String.ofList (json.write (Layout.indented width))

end Json
end LuaView
