import LuaView.Source.Scanner
import LuaView.Token.Stream

/-!
# Scanning a source

The tokens of a source, read by a scanner that passes one character after the other and cuts the
texts of the tokens out of the source by their offsets.
-/

namespace LuaView
namespace Scan

/-- An error from a position up to where the scanner stands. -/
def errorFrom {α : Type} (start : Position) (cause : ParseError.Cause) :
    Scan (Except ParseError α) := do
  return .error ⟨cause, start, ← position⟩

/-- The token with the given text from a position up to where the scanner stands. -/
def pushText (kind : Kind) (start : Position) (text : List Char) : Scan Token := do
  return ⟨kind, String.ofList text, start, ← position⟩

/-- The token that is spelled from a position up to where the scanner stands. -/
def pushSlice (kind : Kind) (start : Position) : Scan Token := do
  let text ← slice start.byte (← position).byte
  pushText kind start text

def skipShebang : Scan Unit := do
  let first ← peek
  let second ← peekNth 1
  if first = some '#' ∧ second = some '!' then advanceWhile (· != '\n') else return ()

/-! ## Long brackets -/

/-- How many equals signs follow, with the given number of them counted already. -/
def equalsSigns (scanner : Scanner) (level : Nat) : Except Scanner.Crash Nat :=
  match _hchar : scanner.charAt (level + 1) with
  | .error crash => .error crash
  | .ok c =>
      if level < scanner.source.length then
        if c = some '=' then equalsSigns scanner (level + 1) else .ok level
      else .error .stuck
termination_by scanner.source.length - level

/-- The level of the long bracket that opens here. -/
def longBracketLevel : Scan (Option Nat) := do
  if (← peek) = some '[' then
    let level ← equalsSigns (← get) 0
    if (← peekNth (level + 1)) = some '[' then return some level else return none
  else return none

/-- A long bracket of the level is closed here. -/
def atLongBracketClose (level : Nat) : Scan Bool := do
  if (← peek) = some ']' then
    if ← (List.range level).allM fun i => return (← peekNth (i + 1)) = some '=' then
      return (← peekNth (level + 1)) = some ']'
    else return false
  else return false

/-- Pass a line break, if there is one. -/
def skipBreak : Scan Unit := do
  if ← eat '\r' then
    let _ ← eat '\n'
  else
    let _ ← eat '\n'

/-- Pass a character of a content that begins at a position, or the bracket that closes it. -/
def contentRound (level : Nat) (start : Position) : Scan (Round Unit (Option (List Char))) := do
  if ← isEof then return .done none
  else if ← atLongBracketClose level then
    let content ← slice start.byte (← position).byte
    advanceTimes (level + 2)
    return .done (some content)
  else
    let _ ← advance
    return .again ()

/-- Pass a long bracket of the level, and give its content if it is closed. -/
def readLongBracket (level : Nat) : Scan (Option (List Char)) := do
  advanceTimes (level + 2)
  skipBreak
  let start ← position
  loop (fun () => contentRound level start) ()

/-! ## Blanks and comments -/

/-- Pass a comment. -/
def skipComment : Scan (Except ParseError Unit) := do
  let start ← position
  advanceTimes 2
  match ← longBracketLevel with
  | some level =>
      match ← readLongBracket level with
      | some _ => return .ok ()
      | none => errorFrom start .unclosedComment
  | none =>
      advanceWhile (· != '\n')
      return .ok ()

/-- Pass blanks and at most one comment. -/
def skipRound : Scan (Round Unit (Except ParseError Unit)) := do
  advanceWhile isBlank
  let first ← peek
  let second ← peekNth 1
  if first = some '-' ∧ second = some '-' then
    match ← skipComment with
    | .ok () => return .again ()
    | .error error => return .done (.error error)
  else return .done (.ok ())

def skipGap : Scan (Except ParseError Unit) :=
  loop (fun () => skipRound) ()

/-! ## Symbols -/

/-- The symbols of two characters that start with the given one, by their second character. -/
def pairs : Char → List (Char × Symbol)
  | '/' => [('/', .slashSlash)]
  | '~' => [('=', .tildeEq)]
  | '=' => [('=', .eqEq)]
  | ':' => [(':', .colonColon)]
  | '<' => [('<', .ltLt), ('=', .ltEq)]
  | '>' => [('>', .gtGt), ('=', .gtEq)]
  | _ => []

/-- The symbols of one character, but for the point. -/
def single? : Char → Option Symbol
  | '+' => some .plus
  | '-' => some .minus
  | '*' => some .star
  | '%' => some .percent
  | '^' => some .caret
  | '#' => some .hash
  | '&' => some .amp
  | '|' => some .pipe
  | '(' => some .lparen
  | ')' => some .rparen
  | '\x7b' => some .lbrace
  | '\x7d' => some .rbrace
  | '[' => some .lbracket
  | ']' => some .rbracket
  | ';' => some .semicolon
  | ',' => some .comma
  | '/' => some .slash
  | '~' => some .tilde
  | '=' => some .eq
  | ':' => some .colon
  | '<' => some .lt
  | '>' => some .gt
  | _ => none

/-- The first of the symbols whose second character follows. -/
def eatPair : List (Char × Symbol) → Scan (Option Symbol)
  | [] => return none
  | (second, symbol) :: more => do
      if ← eat second then return some symbol else eatPair more

/-- The points behind a first one. -/
def points : Scan Symbol := do
  if ← eat '.' then
    if ← eat '.' then return .ellipsis else return .dotDot
  else return .dot

/-- The symbol whose first character is passed already. -/
def symbol? (first : Char) : Scan (Option Symbol) := do
  if first = '.' then return some (← points)
  else
    match ← eatPair (pairs first) with
    | some symbol => return some symbol
    | none => return single? first

/-! ## Literals and words -/

/-- Pass the character behind a backslash, and the blanks behind the letter that skips them. -/
def escapeRound : Scan (Round Unit Bool) := do
  match ← advance with
  | none => return .done false
  | some escaped =>
      if escaped = 'z' then advanceWhile isBlank
      return .again ()

/-- Pass a character of a quoted string, or an escape, and stop in front of the closing quote. -/
def quotedRound (quote : Char) : Scan (Round Unit Bool) := do
  match ← peek with
  | none => return .done false
  | some c =>
      if c = '\n' ∨ c = '\r' then return .done false
      else if c = quote then return .done true
      else if c = '\\' then
        let _ ← advance
        escapeRound
      else
        let _ ← advance
        return .again ()

/-- A string whose first quote is passed already. -/
def scanString (start : Position) (quote : Char) (delimiter : Delimiter) :
    Scan (Except ParseError Token) := do
  let content ← position
  if ← loop (fun () => quotedRound quote) () then
    let text ← slice content.byte (← position).byte
    let _ ← advance
    return .ok (← pushText (.string delimiter) start text)
  else errorFrom start .unclosedString

/-- Pass a digit, a point, or an exponent mark with its sign. -/
def numeralRound (isMark : Char → Bool) : Scan (Round Unit Unit) := do
  match ← peek with
  | none => return .done ()
  | some c =>
      if isMark c then
        let _ ← advance
        let sign ← peek
        if sign = some '+' ∨ sign = some '-' then
          let _ ← advance
        return .again ()
      else if CharClass.isHexDigit c || c == '.' then
        let _ ← advance
        return .again ()
      else return .done ()

/-- The exponent marks of a numeral whose first character is passed already.  Those of base sixteen
stand behind a letter, which is passed as well. -/
def exponentMarks (first : Char) : Scan (Char → Bool) := do
  let letter ← peek
  if first = '0' ∧ (letter = some 'x' ∨ letter = some 'X') then
    let _ ← advance
    return fun c => c == 'p' || c == 'P'
  else return fun c => c == 'e' || c == 'E'

/-- Pass the characters of a numeral, and all characters of words behind them. -/
def passNumeral (isMark : Char → Bool) : Scan Unit := do
  loop (fun () => numeralRound isMark) ()
  advanceWhile CharClass.isWord

/-- A numeral whose first character is passed already. -/
def scanNumber (start : Position) (first : Char) : Scan (Except ParseError Token) := do
  passNumeral (← exponentMarks first)
  let stop ← position
  let text ← slice start.byte stop.byte
  if (Number.ofNumeral? text).isSome then return .ok (← pushSlice .number start)
  else return .error ⟨.malformedNumber (String.ofList text), start, stop⟩

/-- A word whose first character is passed already. -/
def scanWord (start : Position) : Scan Token := do
  advanceWhile CharClass.isWord
  let text ← slice start.byte (← position).byte
  let kind := match Keyword.ofText? (String.ofList text) with
    | some word => .keyword word
    | none => .name
  pushSlice kind start

/-! ## Tokens -/

/-- The token that starts with a character, which is passed already. -/
def scanFrom (start : Position) (first : Char) : Scan (Except ParseError Token) := do
  let next ← peek
  if first.isDigit ∨ (first = '.' ∧ next.any Char.isDigit) then scanNumber start first
  else if first = '"' then scanString start '"' .double
  else if first = '\'' then scanString start '\'' .single
  else if CharClass.isNameStart first then return .ok (← scanWord start)
  else
    match ← symbol? first with
    | some symbol => return .ok (← pushSlice (.symbol symbol) start)
    | none => errorFrom start (.unexpectedCharacter first)

/-- The next token, if the source does not end here. -/
def scanToken : Scan (Except ParseError (Option Token)) := do
  let start ← position
  match ← longBracketLevel with
  | some level =>
      match ← readLongBracket level with
      | some content => return .ok (some (← pushText (.string .long) start content))
      | none => errorFrom start .unclosedString
  | none =>
      match ← advance with
      | some first => return (← scanFrom start first).map some
      | none => return .ok none

/-- One more token, if there is one. -/
def tokenRound (tokens : List Token) :
    Scan (Round (List Token) (Except ParseError (List Token))) := do
  match ← skipGap with
  | .error error => return .done (.error error)
  | .ok () =>
      if ← isEof then return .done (.ok (tokens ++ [Token.eof (← position)]))
      else
        match ← scanToken with
        | .error error => return .done (.error error)
        | .ok token => return .again (tokens ++ token.toList)

/-- All tokens behind a line that is addressed to the system. -/
def tokens : Scan (Except ParseError (List Token)) := do
  skipShebang
  loop tokenRound []

end Scan

/-- The tokens of a source, or the first error in it, or why the scan breaks down. -/
def scan (source : String) : Except Scanner.Crash (Except ParseError (List Token)) :=
  (Scan.tokens ⟨source.toList, {}⟩).map Prod.fst

end LuaView
