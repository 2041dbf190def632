import ScriptFuzz.Position
import ScriptFuzz.WireType
import ScriptFuzz.Text.Quoted

/-!
# Tokens

The terminal symbols that templates, scripts and expressions are written in.

- `Mark` and `Keyword`: the fixed spellings, each listed once.
- `Lexeme`: a token without its place; a piece of text that is no token is a `malformed` lexeme that
  carries the `LexFault`.
- `Terminal`: what a grammar sees of a lexeme, with the wording used in messages.
-/

namespace ScriptFuzz

/-- Punctuation. -/
inductive Mark where
  | semicolon
  | colon
  | dot
  | question
  | comma
  | openParen
  | closeParen
  | openBrace
  | closeBrace
  | openBracket
  | closeBracket
  | plus
  | minus
  | star
  | slash
  | dollar
  | assign
  | equal
  | less
  | lessEqual
  | greater
  | greaterEqual
  | output
  | input
deriving DecidableEq, Repr

namespace Mark

/-- The characters of a mark. -/
def spelling : Mark → List Char
  | semicolon => [';']
  | colon => [':']
  | dot => ['.']
  | question => ['?']
  | comma => [',']
  | openParen => ['(']
  | closeParen => [')']
  | openBrace => ['\x7b']
  | closeBrace => ['\x7d']
  | openBracket => ['[']
  | closeBracket => [']']
  | plus => ['+']
  | minus => ['-']
  | star => ['*']
  | slash => ['/']
  | dollar => ['$']
  | assign => ['=']
  | equal => ['=', '=']
  | less => ['<']
  | lessEqual => ['<', '=']
  | greater => ['>']
  | greaterEqual => ['>', '=']
  | output => ['<', '<']
  | input => ['>', '>']

/-- Every mark. -/
def all : List Mark :=
  [semicolon, colon, dot, question, comma, openParen, closeParen, openBrace, closeBrace,
   openBracket, closeBracket, plus, minus, star, slash, dollar, assign, equal, less, lessEqual,
   greater, greaterEqual, output, input]

/-- The mark with a given spelling. -/
def ofSpelling? (cs : List Char) : Option Mark := all.find? (·.spelling == cs)

end Mark

/-- Reserved words. -/
inductive Keyword where
  | wire (type : WireType)
  | byte
  | word
  | dword
  | qword
  | array
  | function
  | template
  | returns
  | var
  | cstring
  | pascalstring
  | line
deriving DecidableEq, Repr

namespace Keyword

/-- The spelling of a reserved word. -/
def spelling : Keyword → String
  | wire t => t.name
  | byte => "byte"
  | word => "word"
  | dword => "dword"
  | qword => "qword"
  | array => "array"
  | function => "function"
  | template => "template"
  | returns => "return"
  | var => "var"
  | cstring => "cstring"
  | pascalstring => "pascalstring"
  | line => "line"

/-- Every reserved word. -/
def all : List Keyword :=
  WireType.all.map wire ++
    [byte, word, dword, qword, array, function, template, returns, var, cstring, pascalstring, line]

/-- Every reserved word with its spelling. -/
def table : List (String × Keyword) := all.map fun k => (k.spelling, k)

/-- The reserved word with a given spelling. -/
def ofSpelling? (s : String) : Option Keyword := table.lookup s

/-- The width that a scalar keyword of the script language stands for. -/
def scalarWidth? : Keyword → Option Width
  | byte => some .one
  | word => some .two
  | dword => some .four
  | qword => some .eight
  | _ => none

end Keyword

/-- Why a piece of source text is no token. -/
inductive LexFault where
  /-- The character begins no token. -/
  | unexpectedCharacter (c : Char)
  /-- A decimal literal of `2 ^ 64` or more. -/
  | decimalTooLarge
  /-- A hexadecimal literal of more than sixteen digits. -/
  | hexTooLong
  /-- Nothing follows the `0x`. -/
  | hexWithoutDigits
  /-- The source ends inside a string. -/
  | unterminatedString
  /-- A string holds a line break or a NUL that is not written as an escape. -/
  | rawControlInString
  /-- A backslash before a character that has no escape. -/
  | unknownEscape (c : Char)
deriving DecidableEq, Repr

/-- The wording of a fault. -/
def LexFault.message : LexFault → String
  | unexpectedCharacter c => "unexpected character " ++ Text.quotedChar c
  | decimalTooLarge => "integer literal does not fit in 64 bits"
  | hexTooLong => "hex literal does not fit in 64 bits"
  | hexWithoutDigits => "hex literal without digits"
  | unterminatedString => "unterminated string"
  | rawControlInString => "raw newline, carriage return or NUL in string"
  | unknownEscape c => "unknown escape sequence \\" ++ String.singleton c

/-- A token without its place. -/
inductive Lexeme where
  | mark (m : Mark)
  | keyword (k : Keyword)
  | integer (value : UInt64)
  /-- A real number, by the bits of the nearest double. -/
  | real (bits : UInt64)
  /-- A string literal, with its escapes resolved. -/
  | string (text : String)
  | ident (name : String)
  | malformed (fault : LexFault)
deriving DecidableEq, Repr

/-- What a grammar distinguishes. -/
inductive Terminal where
  | endOfInput
  | malformed
  | mark (m : Mark)
  | integer
  | real
  | string
  | ident
  | keyword (k : Keyword)
deriving DecidableEq, Repr

/-- The wording of a terminal in messages. -/
def Terminal.describe : Terminal → String
  | endOfInput => "end of input"
  | malformed => "malformed token"
  | mark m => "'" ++ String.ofList m.spelling ++ "'"
  | integer => "integer literal"
  | real => "real literal"
  | string => "string literal"
  | ident => "identifier"
  | keyword k => "'" ++ k.spelling ++ "'"

namespace Lexeme

/-- The terminal that a lexeme counts as. -/
def terminal : Lexeme → Terminal
  | mark m => .mark m
  | keyword k => .keyword k
  | integer _ => .integer
  | real _ => .real
  | string _ => .string
  | ident _ => .ident
  | malformed _ => .malformed

/-- The text that a string or an identifier stands for. -/
def text? : Lexeme → Option String
  | string text => some text
  | ident name => some name
  | _ => none

end Lexeme

/-- A lexeme and the place where it starts. -/
structure Token where
  /-- What was read. -/
  lexeme : Lexeme
  /-- Where it starts. -/
  pos : Position
deriving DecidableEq, Repr

/-- The tokens of a source text, and the place where the text ends. -/
structure TokenStream where
  /-- The tokens in order. -/
  tokens : List Token
  /-- The end of the text. -/
  fin : Position
deriving DecidableEq, Repr

end ScriptFuzz
