import Scriptlet.Text.Printable

/-!
# Quoted text

How a text is shown in a listing of variables: between quotes, on one line, and with every
character that would not show written by its code point.  The quotes are single, unless the text
has a single quote and no double one.
-/

namespace Scriptlet.Text.Quoted

/-- The lowercase hexadecimal digit of `d < 16`. -/
def hexDigit (d : Nat) : Char :=
  if d < 10 then Char.ofNat (48 + d) else Char.ofNat (87 + d)

/-- The last `width` hexadecimal digits of `n`, the most significant first. -/
def hexDigits : Nat → Nat → List Char
  | 0, _ => []
  | width + 1, n => hexDigits width (n / 16) ++ [hexDigit (n % 16)]

/-- A character written by its code point, in the shortest of the three widths that holds it. -/
def byCodePoint (c : Char) : List Char :=
  let n := c.toNat
  if n < 0x100 then '\\' :: 'x' :: hexDigits 2 n
  else if n < 0x10000 then '\\' :: 'u' :: hexDigits 4 n
  else '\\' :: 'U' :: hexDigits 8 n

/-- The quotes that a text is put between. -/
def delimiter (text : List Char) : Char :=
  if text.contains '\'' && !text.contains '"' then '"' else '\''

/-- How one character is written between quotes of the kind `quote`. -/
def encodeChar (quote c : Char) : List Char :=
  if c = '\\' || c = quote then ['\\', c]
  else if c = '\n' then ['\\', 'n']
  else if c = '\r' then ['\\', 'r']
  else if c = '\t' then ['\\', 't']
  else if isPrintable c then [c]
  else byCodePoint c

/-- The text between its quotes. -/
def encode (text : List Char) : List Char :=
  let quote := delimiter text
  quote :: text.flatMap (encodeChar quote) ++ [quote]

end Scriptlet.Text.Quoted
