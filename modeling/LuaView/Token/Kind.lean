import LuaView.Program.Delimiter

/-!
# Kinds of tokens

A token is a reserved word, a symbol, a numeral, a string literal, a name, or the end of the
source.  Reserved words and symbols have one spelling each, and the two tables of spellings say
what a source is cut into: a name is never a reserved word, and of two symbols that both start a
text the longer one is taken.

The names of reserved words carry an underscore here, because many of them are words of the
defining language as well.
-/

namespace LuaView

/-- Reserved words. -/
inductive Keyword where
  | and_ | break_ | do_ | else_ | elseif_ | end_ | false_ | for_ | function_ | goto_ | if_ | in_
  | local_ | nil_ | not_ | or_ | repeat_ | return_ | then_ | true_ | until_ | while_
deriving DecidableEq, Repr

namespace Keyword

def all : List Keyword :=
  [.and_, .break_, .do_, .else_, .elseif_, .end_, .false_, .for_, .function_, .goto_, .if_, .in_,
    .local_, .nil_, .not_, .or_, .repeat_, .return_, .then_, .true_, .until_, .while_]

def text : Keyword → String
  | .and_ => "and"
  | .break_ => "break"
  | .do_ => "do"
  | .else_ => "else"
  | .elseif_ => "elseif"
  | .end_ => "end"
  | .false_ => "false"
  | .for_ => "for"
  | .function_ => "function"
  | .goto_ => "goto"
  | .if_ => "if"
  | .in_ => "in"
  | .local_ => "local"
  | .nil_ => "nil"
  | .not_ => "not"
  | .or_ => "or"
  | .repeat_ => "repeat"
  | .return_ => "return"
  | .then_ => "then"
  | .true_ => "true"
  | .until_ => "until"
  | .while_ => "while"

/-- The reserved word that a text spells. -/
def ofText? (text : String) : Option Keyword :=
  all.find? fun keyword => keyword.text == text

end Keyword

/-- Operators and punctuation. -/
inductive Symbol where
  | ellipsis
  | slashSlash | ltLt | gtGt | eqEq | tildeEq | ltEq | gtEq | colonColon | dotDot
  | plus | minus | star | slash | percent | caret | hash | amp | tilde | pipe | lt | gt | eq
  | lparen | rparen | lbrace | rbrace | lbracket | rbracket
  | semicolon | colon | comma | dot
deriving DecidableEq, Repr

namespace Symbol

/-- The symbols, longer ones first. -/
def all : List Symbol :=
  [.ellipsis, .slashSlash, .ltLt, .gtGt, .eqEq, .tildeEq, .ltEq, .gtEq, .colonColon, .dotDot,
    .plus, .minus, .star, .slash, .percent, .caret, .hash, .amp, .tilde, .pipe, .lt, .gt, .eq,
    .lparen, .rparen, .lbrace, .rbrace, .lbracket, .rbracket, .semicolon, .colon, .comma, .dot]

def text : Symbol → String
  | .ellipsis => "..."
  | .slashSlash => "//"
  | .ltLt => "<<"
  | .gtGt => ">>"
  | .eqEq => "=="
  | .tildeEq => "~="
  | .ltEq => "<="
  | .gtEq => ">="
  | .colonColon => "::"
  | .dotDot => ".."
  | .plus => "+"
  | .minus => "-"
  | .star => "*"
  | .slash => "/"
  | .percent => "%"
  | .caret => "^"
  | .hash => "#"
  | .amp => "&"
  | .tilde => "~"
  | .pipe => "|"
  | .lt => "<"
  | .gt => ">"
  | .eq => "="
  | .lparen => "("
  | .rparen => ")"
  | .lbrace => "\x7b"
  | .rbrace => "\x7d"
  | .lbracket => "["
  | .rbracket => "]"
  | .semicolon => ";"
  | .colon => ":"
  | .comma => ","
  | .dot => "."

/-- The longest symbol at the front of a text. -/
def longest? (cs : List Char) : Option Symbol :=
  all.find? fun symbol => symbol.text.toList.isPrefixOf cs

/-- No symbol comes behind a shorter one. -/
example : (all.map fun symbol => symbol.text.length).Pairwise (· ≥ ·) := by decide

end Symbol

/-- What a token is. -/
inductive Kind where
  | keyword (word : Keyword)
  | symbol (mark : Symbol)
  | number
  | string (delimiter : Delimiter)
  | name
  | eof
deriving DecidableEq, Repr

namespace Kind

/-- How a message speaks of a kind: by its spelling, or by what it stands for. -/
def display : Kind → String
  | .keyword word => word.text
  | .symbol mark => mark.text
  | .number => "number"
  | .string _ => "string"
  | .name => "name"
  | .eof => "end of file"

def isKeyword : Kind → Bool
  | .keyword _ => true
  | _ => false

/-- The kinds that end a block. -/
def endsBlock : Kind → Bool
  | .keyword .end_ | .keyword .else_ | .keyword .elseif_ | .keyword .until_ | .eof => true
  | _ => false

end Kind
end LuaView
