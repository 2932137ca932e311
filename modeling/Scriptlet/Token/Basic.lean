import Scriptlet.Value.Text

/-!
# Tokens

The words of a source text.  A mark is a fixed symbol or a keyword and carries nothing; the other
tokens carry the value or the name that they stand for.

The text of a token, as messages show it, is its spelling, except that a string shows the
characters it stands for, not its escapes.
-/

namespace Scriptlet

/-- A fixed symbol or a keyword. -/
inductive Mark where
  | openBrace
  | closeBrace
  | openParen
  | closeParen
  | semicolon
  | comma
  | define
  | assign
  | equals
  | notEquals
  | less
  | lessEquals
  | greater
  | greaterEquals
  | plus
  | minus
  | star
  | slash
  | percent
  | bang
  | andAnd
  | orOr
  | func
  | ifWord
  | elseWord
  deriving DecidableEq, Repr

namespace Mark

/-- How a mark is written. -/
def text : Mark → String
  | .openBrace => "\x7b"
  | .closeBrace => "\x7d"
  | .openParen => "("
  | .closeParen => ")"
  | .semicolon => ";"
  | .comma => ","
  | .define => ":="
  | .assign => "="
  | .equals => "=="
  | .notEquals => "!="
  | .less => "<"
  | .lessEquals => "<="
  | .greater => ">"
  | .greaterEquals => ">="
  | .plus => "+"
  | .minus => "-"
  | .star => "*"
  | .slash => "/"
  | .percent => "%"
  | .bang => "!"
  | .andAnd => "&&"
  | .orOr => "||"
  | .func => "func"
  | .ifWord => "if"
  | .elseWord => "else"

/-- The marks, each once. -/
def all : List Mark :=
  [.openBrace, .closeBrace, .openParen, .closeParen, .semicolon, .comma, .define, .assign, .equals,
   .notEquals, .less, .lessEquals, .greater, .greaterEquals, .plus, .minus, .star, .slash, .percent,
   .bang, .andAnd, .orOr, .func, .ifWord, .elseWord]

/-- Whether the mark is a keyword, which has to be a whole word. -/
def isKeyword : Mark → Bool
  | .func | .ifWord | .elseWord => true
  | _ => false

end Mark

/-- One token. -/
inductive Token where
  | mark (m : Mark)
  | bool (b : Bool)
  | string (text : String)
  | int (n : Int)
  | name (text : String)
  deriving DecidableEq, Repr

namespace Token

/-- What a token is, without what it carries. -/
inductive Kind where
  | mark (m : Mark)
  | bool
  | string
  | int
  | name
  deriving DecidableEq, Repr

/-- How messages name a kind of token. -/
def Kind.text : Kind → String
  | .mark m => m.text
  | .bool => "bool"
  | .string => "string"
  | .int => "int"
  | .name => "name"

/-- The kind that goes by that name. -/
def Kind.ofText? (text : String) : Option Kind :=
  (Kind.bool :: .string :: .int :: .name :: Mark.all.map .mark).find? (·.text == text)

/-- The kind of a token. -/
def kind : Token → Kind
  | .mark m => .mark m
  | .bool _ => .bool
  | .string _ => .string
  | .int _ => .int
  | .name _ => .name

/-- How messages show a token. -/
def text : Token → String
  | .mark m => m.text
  | .bool b => (Value.bool b).display
  | .string text => "\"" ++ text ++ "\""
  | .int n => (Value.int n).display
  | .name text => text

/-- What a token carries: nothing for a mark, and for a name its text. -/
def value? : Token → Option Value
  | .mark _ => none
  | .bool b => some (.bool b)
  | .string text => some (.string text)
  | .int n => some (.int n)
  | .name text => some (.string text)

/-- Whether a line that breaks after the token ends a statement there. -/
def endsStatement : Token → Bool
  | .mark .closeParen | .mark .closeBrace => true
  | .mark _ => false
  | .bool _ => false
  | .string _ | .int _ | .name _ => true

end Token
end Scriptlet
