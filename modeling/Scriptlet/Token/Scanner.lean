import Scriptlet.Token.Gap
import Scriptlet.Token.Lexeme

/-!
# The scanner

A scanner stands somewhere in a source text and hands out its tokens one at a time, each with the
byte offsets where it starts and stops.  Gaps are skipped, with one exception: a gap that holds a
line feed, after a token that can end a statement, is itself a `;` as long as the gap.

Text that spells no token is an error at the place where it begins, and so is an integer out of
range; the scanner then gives up the rest of the text.  An overlong integer is refused in another
way: the scanner stays before it, and refuses it again when asked again.

`drain` asks until the scanner is at its end.
-/

namespace Scriptlet

/-- What is wrong with a piece of text that is no token. -/
inductive LexError.Cause where
  | unrecognized
  | outOfRange
  deriving DecidableEq, Repr

/-- A piece of text that is no token. -/
structure LexError where
  cause : LexError.Cause
  /-- The byte offset where it begins. -/
  position : Nat
  deriving DecidableEq, Repr

/-- The text of an error. -/
def LexError.message (e : LexError) : String :=
  let problem := match e.cause with
    | .unrecognized => "Unrecognized characters"
    | .outOfRange => "Integer literal out of range"
  s!"{problem} at position {e.position}"

/-- A token and the byte offsets of its text. -/
structure Span where
  start : Nat
  token : Token
  stop : Nat
  deriving DecidableEq, Repr

/-- A place in a source text. -/
structure Scanner where
  /-- The text from here on. -/
  rest : List Char
  /-- How many characters lie before. -/
  pos : Nat := 0
  /-- How many bytes they take in UTF-8. -/
  bytePos : Nat := 0
  /-- Whether a line feed in the next gap ends a statement. -/
  lineEnds : Bool := false
  deriving DecidableEq, Repr

/-- What a scanner answers when asked for the next token. -/
inductive Scanned where
  | token (span : Span)
  | error (e : LexError)
  | overlong (digits : Nat)
  | finished
  deriving DecidableEq, Repr

/-- An element of a text that was scanned to its end: a token, or the error that cut it short. -/
inductive Item where
  | token (span : Span)
  | error (e : LexError)
  deriving DecidableEq, Repr

/-- The number of bytes that a text takes in UTF-8. -/
def utf8Length : List Char → Nat
  | [] => 0
  | c :: text => c.utf8Size + utf8Length text

theorem utf8Length_append (text more : List Char) :
    utf8Length (text ++ more) = utf8Length text + utf8Length more := by
  induction text with
  | nil => simp [utf8Length]
  | cons c text ih => simp only [List.cons_append, utf8Length, ih, Nat.add_assoc]

namespace Scanner

/-- The scanner at the front of a source text. -/
def ofSource (source : String) : Scanner :=
  { rest := source.toList }

/-- The scanner behind `text`, with `rest` still to come. -/
def past (s : Scanner) (text rest : List Char) : Scanner :=
  { s with rest, pos := s.pos + text.length, bytePos := s.bytePos + utf8Length text }

/-- Reports an error here and gives up the rest of the text. -/
def fail (s : Scanner) (cause : LexError.Cause) : Scanned × Scanner :=
  (.error ⟨cause, s.bytePos⟩, s.past s.rest [])

/-- Reads `text` as a token. -/
def take (s : Scanner) (token : Token) (text rest : List Char) : Scanned × Scanner :=
  let after := s.past text rest
  (.token ⟨s.bytePos, token, after.bytePos⟩, { after with lineEnds := token.endsStatement })

/-- The next token, where no gap stands before it. -/
def nextLexeme (s : Scanner) : Scanned × Scanner :=
  if s.rest.isEmpty then (.finished, s)
  else match Lexeme.read? s.rest with
    | none => s.fail .unrecognized
    | some (lexeme, rest) =>
      match lexeme.token with
      | .ok token => s.take token lexeme.spelling rest
      | .error .outOfRange => s.fail .outOfRange
      | .error (.overlong digits) => (.overlong digits, s)

/-- The next token. -/
def next (s : Scanner) : Scanned × Scanner :=
  let skipped := gap false s.rest
  let rest := afterGap false s.rest
  if s.lineEnds && skipped.contains '\n' then s.take (.mark .semicolon) skipped rest
  else (s.past skipped rest).nextLexeme

/-- Asks for the next token up to `fuel` times. -/
def drainUpTo : (fuel : Nat) → Scanner → Except Nat (List Item)
  | 0, _ => .ok []
  | fuel + 1, s =>
    match s.next with
    | (.token span, after) => (drainUpTo fuel after).map (.token span :: ·)
    | (.error e, after) => (drainUpTo fuel after).map (.error e :: ·)
    | (.overlong digits, _) => .error digits
    | (.finished, _) => .ok []

/-- All that the scanner still has to hand out, or the number of digits of an overlong integer.
No token is empty, so that the length of the text is enough fuel. -/
def drain (s : Scanner) : Except Nat (List Item) :=
  drainUpTo (s.rest.length + 1) s

end Scanner
end Scriptlet
