import LuaView.Number.Numeral
import LuaView.Source.ParseError
import LuaView.Text.Blank
import LuaView.Token.Kind

/-!
# Lexemes

How a text is cut into lexemes, without regard to positions.  Between two lexemes there is a gap
of blanks and comments; `Lexeme.gap` is the longest one at the front of a text.  Behind it
`Lexeme.read` finds the next lexeme, or the cause of an error and the characters it concerns.

A comment runs to the end of its line, or is a long bracket behind its two dashes.  A long comment
that is never closed ends the gap in front of it, so it is the lexeme reader that reports it.
-/

namespace LuaView

/-- The characters of a token as they stand in a source, its kind and its text.  A string
literal's text is what stands between its delimiters; any other text is the spelling itself. -/
structure Lexeme where
  kind : Kind
  text : List Char
  spelling : List Char
  spelling_ne_nil : spelling ≠ [] := by simp

namespace Lexeme

/-- The comment at the front of a text, without its two dashes. -/
def comment (cs : List Char) : Option (List Char) :=
  match LongBracket.level? cs with
  | some level => (LongBracket.read? level cs).map LongBracket.spelling
  | none => some (cs.takeWhile (· != '\n'))

/-- The run of blanks or the comment at the front of a text. -/
def filler : List Char → List Char
  | '-' :: '-' :: cs =>
      match comment cs with
      | some body => '-' :: '-' :: body
      | none => []
  | cs => cs.takeWhile isBlank

theorem filler_nil : filler [] = [] := rfl

/-- All blanks and comments at the front of a text. -/
def gap (cs : List Char) : List Char :=
  if filler cs = [] then []
  else filler cs ++ gap (cs.drop (filler cs).length)
termination_by cs.length
decreasing_by
  rename_i h
  have hfiller := List.length_pos_iff.mpr h
  have hcs : 0 < cs.length := List.length_pos_iff.mpr fun hnil => h (by rw [hnil, filler_nil])
  simp only [List.length_drop]
  omega

/-- What the characters before the next one mean for it, inside a quoted string. -/
inductive QuotedMode where
  | plain
  | escaped
  | blanks
deriving DecidableEq

/-- The text of a quoted string up to its closing quote, and whether there is one.  A backslash
takes the next character with it, whatever that is, and `\z` takes all blanks behind it; any other
line break ends the text. -/
def quotedText (quote : Char) : QuotedMode → List Char → List Char × Bool
  | _, [] => ([], false)
  | mode, c :: cs =>
      let more (next : QuotedMode) : List Char × Bool :=
        let (text, closed) := quotedText quote next cs
        (c :: text, closed)
      if mode = .escaped then more (if c = 'z' then .blanks else .plain)
      else if mode = .blanks ∧ isBlank c then more .blanks
      else if c = quote then ([], true)
      else if c = '\n' ∨ c = '\r' then ([], false)
      else if c = '\\' then more .escaped
      else more .plain

/-- The characters of a numeral behind its start: digits of base sixteen, points and exponent
marks, a sign right behind a mark, and then all characters of words. -/
def numeralTail (isMark : Char → Bool) : Bool → List Char → List Char
  | _, [] => []
  | afterMark, c :: cs =>
      if isMark c then c :: numeralTail isMark true cs
      else if CharClass.isHexDigit c || c == '.' then c :: numeralTail isMark false cs
      else if afterMark && (c == '+' || c == '-') then c :: numeralTail isMark false cs
      else (c :: cs).takeWhile CharClass.isWord

/-- The characters of the numeral that starts with `first`. -/
def numeralSpelling (first : Char) (cs : List Char) : List Char :=
  match first, cs with
  | '0', 'x' :: cs => '0' :: 'x' :: numeralTail (fun c => c == 'p' || c == 'P') false cs
  | '0', 'X' :: cs => '0' :: 'X' :: numeralTail (fun c => c == 'p' || c == 'P') false cs
  | _, _ => first :: numeralTail (fun c => c == 'e' || c == 'E') false cs

theorem numeralSpelling_ne_nil (first : Char) (cs : List Char) :
    numeralSpelling first cs ≠ [] := by
  unfold numeralSpelling
  split <;> simp

/-- A cause of an error and the characters it concerns. -/
abbrev Fault := ParseError.Cause × List Char

def readNumeral (first : Char) (cs : List Char) : Except Fault Lexeme :=
  let spelling := numeralSpelling first cs
  if (Number.ofNumeral? spelling).isSome then
    .ok ⟨.number, spelling, spelling, numeralSpelling_ne_nil first cs⟩
  else .error (.malformedNumber (String.ofList spelling), spelling)

def readQuoted (quote : Char) (delimiter : Delimiter) (cs : List Char) : Except Fault Lexeme :=
  let (text, closed) := quotedText quote .plain cs
  if closed then
    .ok { kind := .string delimiter, text := text, spelling := quote :: text ++ [quote] }
  else .error (.unclosedString, quote :: text)

def readWord (first : Char) (cs : List Char) : Lexeme :=
  let spelling := first :: cs.takeWhile CharClass.isWord
  let kind := match Keyword.ofText? (String.ofList spelling) with
    | some word => .keyword word
    | none => .name
  { kind := kind, text := spelling, spelling := spelling, spelling_ne_nil := List.cons_ne_nil _ _ }

def readLong (level : Nat) (cs : List Char) : Except Fault Lexeme :=
  match LongBracket.read? level cs with
  | some bracket =>
      .ok {
        kind := .string .long
        text := bracket.content
        spelling := bracket.spelling
        spelling_ne_nil := by simp [LongBracket.spelling, LongBracket.opening] }
  | none => .error (.unclosedString, cs)

def readSymbol (first : Char) (cs : List Char) : Except Fault Lexeme :=
  match Symbol.longest? (first :: cs) with
  | some symbol =>
      .ok {
        kind := .symbol symbol
        text := symbol.text.toList
        spelling := symbol.text.toList
        spelling_ne_nil := by cases symbol <;> decide }
  | none => .error (.unexpectedCharacter first, [first])

/-- The lexeme at the front of a text that starts with `first`. -/
def read (first : Char) (cs : List Char) : Except Fault Lexeme :=
  if first = '-' ∧ cs.head? = some '-' then .error (.unclosedComment, first :: cs)
  else
    match LongBracket.level? (first :: cs) with
    | some level => readLong level (first :: cs)
    | none =>
        if first.isDigit || (first == '.' && (cs.head?.any Char.isDigit)) then
          readNumeral first cs
        else if first = '"' then readQuoted first .double cs
        else if first = '\'' then readQuoted first .single cs
        else if CharClass.isNameStart first then .ok (readWord first cs)
        else readSymbol first cs

end Lexeme
end LuaView
