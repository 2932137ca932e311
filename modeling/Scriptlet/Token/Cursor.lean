import Scriptlet.Token.Scanner

/-!
# Reading ahead

A cursor stands in a sequence of tokens.  It draws them from a feed only when they are looked at,
and keeps those that were looked at and not yet consumed.  How far it has drawn can be seen: a
token that cannot be scanned is reported when it is drawn, and the end of the text is where the last
drawn token stopped.

The feed is a scanner, which is asked for each token as it is needed, or the items of a text that
was scanned before.

A parser is a step on a cursor.  One that fails leaves the cursor where it failed, so that a caller
can go on from there.  The primitives are written as plain functions of the cursor, and everything
above them is composed.

Reading ends with the first token that cannot be scanned or cannot stand where it stands.  The
place of a wrong token is the byte offset where it begins, and at the end of the text the one where
the last token stopped.  Where there is no room for another rule, the place is the one where the
last token stopped that was drawn.
-/

namespace Scriptlet

/-! ## Why a source text cannot be read -/

/-- What is wrong with the next token. -/
inductive ReadError.Cause where
  /-- There is none, and something has to follow. -/
  | unexpectedEnd
  /-- No expression begins with it. -/
  | unexpected (token : Token)
  /-- Only a token of one kind may follow; at the end of the text there is none to find. -/
  | expected (kind : Token.Kind) (found : Option Token)
  deriving DecidableEq, Repr

/-- Why reading ended early. -/
inductive ReadError where
  | lexical (e : LexError)
  | overlong (digits : Nat)
  | grammar (cause : ReadError.Cause) (position : Nat)
  /-- There is no room left for another rule. -/
  | nestedTooDeeply (position : Nat)
  deriving DecidableEq, Repr

/-- The text of a cause. -/
def ReadError.Cause.message : ReadError.Cause → String
  | .unexpectedEnd => "Unexpected end of input"
  | .unexpected token => "Unexpected token '" ++ token.text ++ "'"
  | .expected kind none => "Expected '" ++ kind.text ++ "' but found end of input"
  | .expected kind (some token) =>
    "Expected '" ++ kind.text ++ "' but found '" ++ token.text ++ "'"

/-! ## Feeds and cursors -/

/-- Where tokens come from. -/
inductive Feed where
  | scanner (s : Scanner)
  | items (pending : List Item)
  deriving DecidableEq, Repr

namespace Feed

/-- Draws the next token. -/
def next : Feed → Scanned × Feed
  | .scanner s =>
    let (scanned, after) := s.next
    (scanned, .scanner after)
  | .items [] => (.finished, .items [])
  | .items (.token span :: pending) => (.token span, .items pending)
  | .items (.error e :: pending) => (.error e, .items pending)

/-- A bound on the number of tokens still to be drawn. -/
def size : Feed → Nat
  | .scanner s => s.rest.length
  | .items pending => pending.length

end Feed

/-- A place in a sequence of tokens. -/
structure Cursor where
  feed : Feed
  /-- Tokens drawn and not consumed, with the offsets where they start. -/
  buffer : List (Token × Nat) := []
  /-- The offset where the last drawn token stopped. -/
  stop : Nat := 0
  deriving DecidableEq, Repr

namespace Cursor

/-- The cursor before the first token of a source text. -/
def ofSource (source : String) : Cursor :=
  { feed := .scanner (.ofSource source) }

/-- The cursor before the first of some scanned items. -/
def ofItems (items : List Item) : Cursor :=
  { feed := .items items }

/-- A bound on the number of tokens still to be consumed. -/
def size (cursor : Cursor) : Nat :=
  cursor.buffer.length + cursor.feed.size

end Cursor

/-- A step that reads from a cursor. -/
abbrev Parser := EStateM ReadError Cursor

namespace Parser

/-! ## Steps -/

/-- Draws one token into the buffer; answers whether there was one. -/
def draw : Parser Bool := fun cursor =>
  match cursor.feed.next with
  | (.token span, feed) =>
    .ok true { feed, buffer := cursor.buffer ++ [(span.token, span.start)], stop := span.stop }
  | (.finished, feed) => .ok false { cursor with feed }
  | (.error e, feed) => .error (.lexical e) { cursor with feed }
  | (.overlong digits, feed) => .error (.overlong digits) { cursor with feed }

/-- Draws so many tokens, or as many as there are. -/
def drawUpTo : Nat → Parser Unit
  | 0 => pure ()
  | count + 1 => do
    if ← draw then drawUpTo count else pure ()

/-- Sees to it that the buffer holds so many tokens, if there are as many. -/
def fill (count : Nat) : Parser Unit := fun cursor =>
  drawUpTo (count - cursor.buffer.length) cursor

/-- The token that many places ahead, if there is one. -/
def peekAhead (ahead : Nat) : Parser (Option Token) := do
  fill (ahead + 1)
  return (← get).buffer[ahead]?.map Prod.fst

/-- The next token, if there is one. -/
def peek : Parser (Option Token) :=
  peekAhead 0

/-- The offset where the next token starts, or at the end where the last one stopped. -/
def position : Parser Nat := do
  fill 1
  let cursor ← get
  match cursor.buffer with
  | [] => return cursor.stop
  | (_, start) :: _ => return start

/-- Whether the next token is of a kind. -/
def isAt (kind : Token.Kind) : Parser Bool := do
  return (← peek).map Token.kind == some kind

/-- Whether the next token is a mark. -/
def isAtMark (m : Mark) : Parser Bool :=
  isAt (.mark m)

/-- Fails at the next token. -/
def fail (cause : ReadError.Cause) : Parser α := do
  throw (.grammar cause (← position))

/-- Consumes the first token of the buffer. -/
def consume : Parser Token := fun cursor =>
  match cursor.buffer with
  | [] => .error (.grammar .unexpectedEnd cursor.stop) cursor
  | (token, _) :: buffer => .ok token { cursor with buffer }

/-- Consumes the next token. -/
def advance : Parser Token := do
  fill 1
  consume

/-- Consumes the next token if `accept` takes it for one of the kind, and fails there otherwise. -/
def expectBy (kind : Token.Kind) (accept : Token → Option α) : Parser α := do
  let next ← peek
  match next.bind accept with
  | none => fail (.expected kind next)
  | some a => do
    let _ ← advance
    return a

/-- Consumes a token of a kind. -/
def expect (kind : Token.Kind) : Parser Token :=
  expectBy kind fun token => if token.kind = kind then some token else none

/-- Consumes a mark. -/
def expectMark (m : Mark) : Parser Unit := do
  let _ ← expect (.mark m)

/-- Consumes a name. -/
def expectName : Parser String :=
  expectBy .name fun
    | .name text => some text
    | _ => none

/-- Repeats a step while it finds something, up to so many times. -/
def manyUpTo (step : Parser (Option α)) : (fuel : Nat) → Parser (List α)
  | 0 => pure []
  | fuel + 1 => do
    match ← step with
    | none => return []
    | some a => return a :: (← manyUpTo step fuel)

/-- Repeats a step until it finds nothing more.  What it finds takes at least one token, so that
the tokens left after the first time bound the times that follow. -/
def many (step : Parser (Option α)) : Parser (List α) := do
  match ← step with
  | none => return []
  | some a => return a :: (← manyUpTo step ((← get).size + 1))

/-- Consumes the next token if it is a mark, and then reads on. -/
def afterMark (m : Mark) (next : Parser α) : Parser (Option α) := do
  if ← isAtMark m then
    let _ ← advance
    some <$> next
  else return none

/-- Consumes semicolons. -/
def skipSemicolons : Parser Unit := do
  let _ ← many (afterMark .semicolon (pure ()))

end Parser
end Scriptlet
