import Scriptlet.Text.Characters
import Scriptlet.Text.Decimal
import Scriptlet.Text.Escape
import Scriptlet.Token.Basic

/-!
# Lexemes

A lexeme is a piece of source text that spells one token.  `read?` finds the lexeme at the front of
a text by trying, in this order, the fixed spellings (a longer one before those it begins with),
names, strings and integers.  No lengths are compared: the order, and the two conditions of
`mayPrecede`, are what makes the choice the longest one.

* A minus sign directly before a digit is part of an integer, so it is no mark there.
* A keyword or a bool is a whole word: with a word character behind it, it is part of a name.

A lexeme becomes a token by `token`, which can refuse an integer: for its value, when it does not
fit 64 bits, or for its mere length.
-/

namespace Scriptlet

open Scriptlet.Text

/-- A piece of text that spells a token. -/
inductive Lexeme where
  | mark (m : Mark)
  | bool (b : Bool)
  /-- A lower-case ASCII letter and word characters. -/
  | name (text : List Char)
  /-- What stands between the quotes, escapes as written. -/
  | string (inner : List Char)
  /-- ASCII digits, perhaps after a minus sign. -/
  | int (negative : Bool) (digits : List Char)
  deriving DecidableEq, Repr

namespace Lexeme

/-- The text of a lexeme. -/
def spelling : Lexeme → List Char
  | .mark m => m.text.toList
  | .bool b => if b then "true".toList else "false".toList
  | .name text => text
  | .string inner => '"' :: inner ++ ['"']
  | .int negative digits => if negative then '-' :: digits else digits

/-- The lexemes with a fixed spelling, in the order in which they are tried. -/
def fixed : List Lexeme :=
  [.mark .openBrace, .mark .closeBrace, .mark .openParen, .mark .closeParen, .mark .semicolon,
   .mark .define, .mark .equals, .mark .notEquals, .mark .assign, .mark .lessEquals, .mark .less,
   .mark .greaterEquals, .mark .greater, .mark .comma, .mark .plus, .mark .minus, .mark .star,
   .mark .slash, .mark .percent, .mark .andAnd, .mark .orOr, .mark .bang, .bool true, .bool false,
   .mark .func, .mark .ifWord, .mark .elseWord]

/-- Whether the first character of a text, if it has one, satisfies `p`. -/
def startsWith (p : Char → Bool) : List Char → Bool
  | [] => false
  | c :: _ => p c

/-- Whether a fixed lexeme may stand directly before `rest`. -/
def mayPrecede (lexeme : Lexeme) (rest : List Char) : Bool :=
  match lexeme with
  | .mark .minus => !startsWith Char.isDigit rest
  | .mark m => !(m.isKeyword && startsWith isWord rest)
  | .bool _ => !startsWith isWord rest
  | _ => true

/-- Reads one given fixed lexeme. -/
def readThis? (text : List Char) (lexeme : Lexeme) : Option (Lexeme × List Char) :=
  match lexeme.spelling.isPrefixOf? text with
  | some rest => if lexeme.mayPrecede rest then some (lexeme, rest) else none
  | none => none

/-- Reads the first fixed lexeme that fits. -/
def readFixed? (text : List Char) : Option (Lexeme × List Char) :=
  fixed.findSome? (readThis? text)

/-- Whether a name may begin with `c`: the lower-case ASCII letters. -/
def startsName (c : Char) : Bool :=
  'a' ≤ c && c ≤ 'z'

/-- Reads a name. -/
def readName? : List Char → Option (Lexeme × List Char)
  | [] => none
  | c :: text =>
    if startsName c then some (.name (c :: text.takeWhile isWord), text.dropWhile isWord) else none

/-- Reads a string, up to the very next quote: no escape hides it. -/
def readString? : List Char → Option (Lexeme × List Char)
  | '"' :: text =>
    match text.dropWhile (· != '"') with
    | [] => none
    | _ :: rest => some (.string (text.takeWhile (· != '"')), rest)
  | _ => none

/-- Reads an integer after its sign. -/
def readDigits? (negative : Bool) (text : List Char) : Option (Lexeme × List Char) :=
  match text.takeWhile Char.isDigit with
  | [] => none
  | digits => some (.int negative digits, text.dropWhile Char.isDigit)

/-- Reads an integer. -/
def readInt? : List Char → Option (Lexeme × List Char)
  | '-' :: text => readDigits? true text
  | text => readDigits? false text

/-- Reads the lexeme at the front of a text. -/
def read? (text : List Char) : Option (Lexeme × List Char) :=
  (readFixed? text).or <| (readName? text).or <| (readString? text).or (readInt? text)

/-- Why a lexeme is no token. -/
inductive Refusal where
  /-- An integer that does not fit 64 bits. -/
  | outOfRange
  /-- An integer written with so many digits that its value is not computed. -/
  | overlong (digits : Nat)
  deriving DecidableEq, Repr

/-- The token that a lexeme spells. -/
def token : Lexeme → Except Refusal Token
  | .mark m => .ok (.mark m)
  | .bool b => .ok (.bool b)
  | .name text => .ok (.name (String.ofList text))
  | .string inner => .ok (.string (String.ofList (Escape.decode inner)))
  | .int negative digits =>
    if digits.length > Decimal.maxDigits then .error (.overlong digits.length)
    else
      let n := Decimal.signedValue negative digits
      if Word64.InRange n then .ok (.int n) else .error .outOfRange

end Lexeme
end Scriptlet
