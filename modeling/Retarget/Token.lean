import Retarget.Literal
import Retarget.Position

set_option autoImplicit false

/-!
# Tokens

## Main definitions

* `Retarget.Keyword`, `Retarget.Punct` — the reserved words and the punctuators, with their text.
* `Retarget.Token` — a kind, the text it was written as, and where that text starts.
-/

namespace Retarget

/-- The reserved words. -/
inductive Keyword
  | let | in | fn | if | then | else | and | or | not | true | false | null | guard | check
deriving DecidableEq, Repr

namespace Keyword

/-- How a keyword is written. -/
def text : Keyword → String
  | .let => "let"
  | .in => "in"
  | .fn => "fn"
  | .if => "if"
  | .then => "then"
  | .else => "else"
  | .and => "and"
  | .or => "or"
  | .not => "not"
  | .true => "true"
  | .false => "false"
  | .null => "null"
  | .guard => "guard"
  | .check => "check"

/-- Every keyword. -/
def every : List Keyword :=
  [.let, .in, .fn, .if, .then, .else, .and, .or, .not, .true, .false, .null, .guard, .check]

/-- The keyword that a word is, if it is one. -/
def ofText? (word : String) : Option Keyword := every.find? (·.text == word)

end Keyword

/-- The punctuators. -/
inductive Punct
  | pipe | arrow | equal | notEqual | lessEqual | greaterEqual | doubleQuestion
  | plus | minus | star | slash | percent | caret | less | greater
  | openParen | closeParen | openBracket | closeBracket | openBrace | closeBrace
  | comma | colon | dot | bar | question | bang | assign
deriving DecidableEq, Repr

namespace Punct

/-- How a punctuator is written. -/
def text : Punct → String
  | .pipe => "|>"
  | .arrow => "~>"
  | .equal => "=="
  | .notEqual => "!="
  | .lessEqual => "<="
  | .greaterEqual => ">="
  | .doubleQuestion => "??"
  | .plus => "+"
  | .minus => "-"
  | .star => "*"
  | .slash => "/"
  | .percent => "%"
  | .caret => "^"
  | .less => "<"
  | .greater => ">"
  | .openParen => "("
  | .closeParen => ")"
  | .openBracket => "["
  | .closeBracket => "]"
  | .openBrace => "\x7b"
  | .closeBrace => "\x7d"
  | .comma => ","
  | .colon => ":"
  | .dot => "."
  | .bar => "|"
  | .question => "?"
  | .bang => "!"
  | .assign => "="

/-- Every punctuator, those of two characters first, so that the first one that a text starts with
is the longest. -/
def every : List Punct :=
  [.pipe, .arrow, .equal, .notEqual, .lessEqual, .greaterEqual, .doubleQuestion,
   .plus, .minus, .star, .slash, .percent, .caret, .less, .greater,
   .openParen, .closeParen, .openBracket, .closeBracket, .openBrace, .closeBrace,
   .comma, .colon, .dot, .bar, .question, .bang, .assign]

/-- The longest punctuator at the start of a text. -/
def atStart? (cs : List Char) : Option Punct := every.find? fun p => p.text.toList.isPrefixOf cs

end Punct

/-- What a token is. -/
inductive Token.Kind
  /-- A number, string, date, datetime or duration. -/
  | literal (value : Literal)
  | ident (name : String)
  | keyword (word : Keyword)
  | punct (mark : Punct)
  | eof
deriving DecidableEq, Repr

/-- A token: its kind, the text it was written as, and the byte offset at which that starts. -/
structure Token where
  kind : Token.Kind
  text : String
  start : Nat
deriving DecidableEq, Repr

namespace Token

/-- The byte offset behind the token. -/
def stop (t : Token) : Nat := t.start + t.text.utf8ByteSize

/-- The bytes of the source that the token takes. -/
def span (t : Token) : Span := ⟨t.start, t.stop⟩

/-- The token at the end of a source of `size` bytes. -/
def atEnd (size : Nat) : Token := ⟨.eof, "", size⟩

end Token

end Retarget
