import LuaView.Json.Value
import LuaView.Number.Numeral

/-!
# Reading JSON

`Json.parse?` reads a text that holds one value and nothing else but blanks around it.  The
readers of single parts take the characters from where the part starts and give back what follows
it.  The nesting of values is bounded by the length of the text, which is where the first argument
of the recursive readers comes from.
-/

namespace LuaView
namespace Json

/-- The blanks that may stand between the parts of a value. -/
def isSpace (c : Char) : Bool :=
  c == ' ' || c == '\n' || c == '\r' || c == '\t'

def skipSpace (cs : List Char) : List Char :=
  cs.dropWhile isSpace

/-- The unit that four hexadecimal digits denote. -/
def unit? (digits : List Char) : Option Nat :=
  if digits.all CharClass.isHexDigit then some (CharClass.digitsValue 16 digits) else none

/-- The character of an escape that is one letter long. -/
def unescape? : Char → Option Char
  | '"' => some '"'
  | '\\' => some '\\'
  | '/' => some '/'
  | 'b' => some '\x08'
  | 'f' => some '\x0c'
  | 'n' => some '\n'
  | 'r' => some '\r'
  | 't' => some '\t'
  | _ => none

/-- The unit is the first half of a pair. -/
def isLeading (unit : Nat) : Bool :=
  0xD800 ≤ unit && unit < 0xDC00

/-- The unit is the second half of a pair. -/
def isTrailing (unit : Nat) : Bool :=
  0xDC00 ≤ unit && unit < 0xE000

/-- The characters of a string up to its closing quote.  Two escaped units that form a pair are
one character, and half a pair is none. -/
def readString? : List Char → Option (List Char × List Char)
  | [] => none
  | '"' :: rest => some ([], rest)
  | '\\' :: 'u' :: a :: b :: c :: d :: rest => do
      let unit ← unit? [a, b, c, d]
      if isLeading unit then
        match rest with
        | '\\' :: 'u' :: a' :: b' :: c' :: d' :: rest' =>
          let second ← unit? [a', b', c', d']
          if isTrailing second then
            let (text, after) ← readString? rest'
            pure (Char.ofNat (0x10000 + (unit - 0xD800) * 0x400 + (second - 0xDC00)) :: text, after)
          else none
        | _ => none
      else if isTrailing unit then none
      else
        let (text, after) ← readString? rest
        pure (Char.ofNat unit :: text, after)
  | '\\' :: letter :: rest => do
      let c ← unescape? letter
      let (text, after) ← readString? rest
      pure (c :: text, after)
  | c :: rest => do
      if c.toNat < 0x20 || c = '\\' then none
      else
        let (text, after) ← readString? rest
        pure (c :: text, after)

/-- The characters that a numeral is made of. -/
def isNumeralChar (c : Char) : Bool :=
  c.isDigit || c == '-' || c == '+' || c == '.' || c == 'e' || c == 'E'

/-- The number that a numeral denotes.  Its sign can only be a minus, a first digit zero has no
other digit behind it, and a point has digits on either side.  A negative zero is no integer. -/
def number? (numeral : List Char) : Option Json := do
  let (sign, unsigned) := Numeral.cutSign numeral
  let parts ← Numeral.parts? Char.isDigit (fun c => c == 'e' || c == 'E') unsigned
  let value : Int := CharClass.digitsValue 10 parts.digits
  if sign = some false || parts.whole.isEmpty || parts.fraction = some [] ||
      (parts.whole.head? = some '0' && parts.whole.length != 1) then none
  else if !parts.isPlain || (sign.isSome && value = 0) then pure (.decimal (String.ofList numeral))
  else pure (.integer (if sign.isSome then -value else value))

/-- The word or numeral at the front of a text. -/
def readPlain? (cs : List Char) : Option (Json × List Char) :=
  match cs with
  | 'n' :: 'u' :: 'l' :: 'l' :: rest => some (.null, rest)
  | 't' :: 'r' :: 'u' :: 'e' :: rest => some (.bool true, rest)
  | 'f' :: 'a' :: 'l' :: 's' :: 'e' :: rest => some (.bool false, rest)
  | _ => do
      let json ← number? (cs.takeWhile isNumeralChar)
      pure (json, cs.dropWhile isNumeralChar)

mutual

/-- The value at the front of a text, and what follows it. -/
def readValue? : Nat → List Char → Option (Json × List Char)
  | 0, _ => none
  | fuel + 1, cs =>
    match skipSpace cs with
    | '"' :: rest => do
        let (text, after) ← readString? rest
        pure (.string (String.ofList text), after)
    | '[' :: rest =>
        match skipSpace rest with
        | ']' :: after => some (.array [], after)
        | _ => do
            let (items, after) ← readItems? fuel rest
            pure (.array items, after)
    | '\x7b' :: rest =>
        match skipSpace rest with
        | '\x7d' :: after => some (.object [], after)
        | _ => do
            let (members, after) ← readMembers? fuel rest
            pure (.object members, after)
    | rest => readPlain? rest

/-- One or more items up to the closing bracket. -/
def readItems? : Nat → List Char → Option (List Json × List Char)
  | 0, _ => none
  | fuel + 1, cs => do
    let (item, after) ← readValue? fuel cs
    match skipSpace after with
    | ',' :: rest =>
        let (items, after) ← readItems? fuel rest
        pure (item :: items, after)
    | ']' :: rest => pure ([item], rest)
    | _ => none

/-- One or more members up to the closing brace. -/
def readMembers? : Nat → List Char → Option (List (String × Json) × List Char)
  | 0, _ => none
  | fuel + 1, cs =>
    match skipSpace cs with
    | '"' :: rest => do
        let (name, after) ← readString? rest
        match skipSpace after with
        | ':' :: rest =>
            let (value, after) ← readValue? fuel rest
            match skipSpace after with
            | ',' :: rest =>
                let (members, after) ← readMembers? fuel rest
                pure ((String.ofList name, value) :: members, after)
            | '\x7d' :: rest => pure ([(String.ofList name, value)], rest)
            | _ => none
        | _ => none
    | _ => none

end

/-- The value that a text holds. -/
def parse? (text : String) : Option Json := do
  let cs := text.toList
  let (json, after) ← readValue? (2 * cs.length + 2) cs
  if (skipSpace after).isEmpty then pure json else none

end Json
end LuaView
