import Scriptlet.Syntax.Basic
import Scriptlet.Token.Cursor

/-!
# The grammar

    program        := ';'* (function ';'*)*
    function       := 'func' NAME '(' [param (',' param)*] ')' body
    param          := NAME [NAME]
    body           := '{' ';'* [statement (';'+ statement)* ';'*] '}'
    statement      := NAME ':=' expr | NAME '=' expr | expr
    expr           := conjunction ('||' conjunction)*
    conjunction    := comparison ('&&' comparison)*
    comparison     := sum [('==' | '!=' | '<' | '<=' | '>' | '>=') sum]
    sum            := term (('+' | '-') term | term that begins with a negative INT)*
    term           := unary (('*' | '/' | '%') unary)*
    unary          := '!' unary | primary
    primary        := INT | STRING | BOOL | NAME | NAME '(' arguments | parenthesised
                    | body | ifElse
    arguments      := [expr (',' expr)*] ')'
    parenthesised  := '(' ')' | '(' expr ')' | '(' expr (',' expr)* [','] ')'
    ifElse         := 'if' expr body ['else' (body | ifElse)]

Each rule is read by one parser, from left to right and looking ahead one token, or two where a
statement begins with a name.  A minus sign directly before digits is part of an integer, so that
`n-1` is a name and a negative integer: after a complete term such an integer goes on with the sum,
and what is added is the term that it begins.

## Nesting

The rules call one another, and a source text may nest them as deep as it likes.  Every parser
therefore takes a budget, the number of rules that may still be entered inside one another, and
hands one less to the parsers it calls; reading fails when it is spent.  The rules themselves are
written without the budget, as functions of the parsers that they call (`sumOf`, `bodyOf`, …), and
the recursion that ties them together is on the budget alone.

The budget stands for room on the host's stack, and drawing a token takes up room as well.  This is
to be seen in two places.  A scanner that is asked for each token as it is needed leaves room for
fewer rules than items that were scanned before (`limitFor`).  And the first token of a statement is
drawn before the statement is entered, which takes up no less than the rules that lead from there
down to a primary expression; so it is only entered with room for these (`statement`).
-/

namespace Scriptlet
namespace Parser

/-! ## The rules, one by one -/

/-- A list of items with commas between them, which may be empty, before a closing parenthesis. -/
def commaSeparated (item : Parser α) : Parser (List α) := do
  if ← isAtMark .closeParen then
    expectMark .closeParen
    return []
  else
    let first ← item
    let others ← many (afterMark .comma item)
    expectMark .closeParen
    return first :: others

/-- A name, if one is next. -/
def optionalName : Parser (Option String) := do
  match ← peek with
  | some (.name text) =>
    let _ ← advance
    return some text
  | _ => return none

/-- A parameter, which may have an annotation. -/
def param : Parser Param := do
  let name ← expectName
  let annotation ← optionalName
  return { name, annotation }

/-- A function definition. -/
def functionOf (body : Parser (List Expr)) : Parser Function := do
  expectMark .func
  let name ← expectName
  expectMark .openParen
  let params ← commaSeparated param
  return { name, params, body := ← body }

/-- The next function of a program, with the semicolons behind it. -/
def nextFunction (function : Parser Function) : Parser (Option Function) := do
  match ← peek with
  | none => return none
  | some _ =>
    let f ← function
    skipSemicolons
    return some f

/-- All functions up to the end of the text. -/
def programOf (function : Parser Function) : Parser Program := do
  skipSemicolons
  many (nextFunction function)

/-- The next statement of a body, with the semicolons behind it: at least one, unless the body ends
there. -/
def nextStatement (statement : Parser Expr) : Parser (Option Expr) := do
  if ← isAtMark .closeBrace then return none
  else
    let e ← statement
    if ← isAtMark .closeBrace then return some e
    else
      expectMark .semicolon
      skipSemicolons
      return some e

/-- Statements between braces. -/
def bodyOf (statement : Parser Expr) : Parser (List Expr) := do
  expectMark .openBrace
  skipSemicolons
  let statements ← many (nextStatement statement)
  expectMark .closeBrace
  return statements

/-- A declaration, an assignment or an expression.  The second token is looked at only behind a
name. -/
def statementOf (expr : Parser Expr) : Parser Expr := do
  match ← peek with
  | some (.name name) =>
    match ← peekAhead 1 with
    | some (.mark .define) =>
      let _ ← advance
      let _ ← advance
      return .declare name (← expr)
    | some (.mark .assign) =>
      let _ ← advance
      let _ ← advance
      return .assign name (← expr)
    | _ => expr
  | _ => expr

/-- Operands with one conditional operator between them, grouped to the left. -/
def conditionalChain (op : Conditional) (m : Mark) (operand : Parser Expr) : Parser Expr := do
  let first ← operand
  let others ← many (afterMark m operand)
  return others.foldl (Expr.conditional op) first

/-- The comparison that a token stands for. -/
def comparison? : Token → Option Operator
  | .mark .equals => some .equals
  | .mark .notEquals => some .notEquals
  | .mark .less => some .less
  | .mark .lessEquals => some .lessEquals
  | .mark .greater => some .greater
  | .mark .greaterEquals => some .greaterEquals
  | _ => none

/-- The operator of a sum that a token stands for. -/
def additive? : Token → Option Operator
  | .mark .plus => some .add
  | .mark .minus => some .sub
  | _ => none

/-- The operator of a term that a token stands for. -/
def multiplicative? : Token → Option Operator
  | .mark .star => some .mul
  | .mark .slash => some .div
  | .mark .percent => some .mod
  | _ => none

/-- A sum, or two with a comparison between them. -/
def comparisonOf (sum : Parser Expr) : Parser Expr := do
  let left ← sum
  match (← peek).bind comparison? with
  | none => return left
  | some op =>
    let _ ← advance
    return .binary op left (← sum)

/-- The next operator of a chain and its operand. -/
def nextOperand (operator? : Token → Option Operator) (operand : Parser Expr) :
    Parser (Option (Operator × Expr)) := do
  match (← peek).bind operator? with
  | none => return none
  | some op =>
    let _ ← advance
    return some (op, ← operand)

/-- Applies the operators of a chain from the left. -/
def applyChain (first : Expr) (others : List (Operator × Expr)) : Expr :=
  others.foldl (fun left (op, right) => .binary op left right) first

/-- The next summand: after a sign, or a term that begins with a negative integer. -/
def nextSummand (term : Parser Expr) (termFrom : Expr → Parser Expr) :
    Parser (Option (Operator × Expr)) := do
  match ← peek with
  | some (.int n) =>
    if n < 0 then
      let _ ← advance
      return some (.add, ← termFrom (.lit (.int n)))
    else return none
  | _ => nextOperand additive? term

/-- Terms with signs between them, grouped to the left. -/
def sumOf (term : Parser Expr) (termFrom : Expr → Parser Expr) : Parser Expr := do
  let first ← term
  return applyChain first (← many (nextSummand term termFrom))

/-- What follows the first factor of a term. -/
def termFromOf (unary : Parser Expr) (first : Expr) : Parser Expr := do
  return applyChain first (← many (nextOperand multiplicative? unary))

/-- A primary expression behind any number of exclamation marks; `unary` reads what stands behind
the first. -/
def unaryOf (unary primary : Parser Expr) : Parser Expr := do
  match ← afterMark .bang unary with
  | some operand => return .not operand
  | none => primary

/-- An expression that no operator stands in, outside of brackets. -/
def primaryOf (arguments : Parser (List Expr)) (parenthesised : Parser Expr)
    (body : Parser (List Expr)) (ifElse : Parser Expr) : Parser Expr := do
  match ← peek with
  | none => fail .unexpectedEnd
  | some (.int n) =>
    let _ ← advance
    return .lit (.int n)
  | some (.string text) =>
    let _ ← advance
    return .lit (.string text)
  | some (.bool b) =>
    let _ ← advance
    return .lit (.bool b)
  | some (.name name) =>
    let _ ← advance
    match ← afterMark .openParen arguments with
    | some args => return .call name args
    | none => return .name name
  | some (.mark .openParen) => parenthesised
  | some (.mark .openBrace) => return .block (← body)
  | some (.mark .ifWord) => ifElse
  | some token => fail (.unexpected token)

/-- The next item of a tuple; a comma before the closing parenthesis is passed over. -/
def nextItem (expr : Parser Expr) : Parser (Option Expr) := do
  if ← isAtMark .comma then
    let _ ← advance
    if ← isAtMark .closeParen then return none
    else some <$> expr
  else return none

/-- A grouped expression or a tuple: a comma makes the difference. -/
def parenthesisedOf (expr : Parser Expr) : Parser Expr := do
  expectMark .openParen
  match ← afterMark .closeParen (pure ()) with
  | some () => return .tuple []
  | none =>
    let first ← expr
    match ← afterMark .closeParen (pure ()) with
    | some () => return first
    | none =>
      let others ← many (nextItem expr)
      expectMark .closeParen
      return .tuple (first :: others)

/-- What stands behind `else`. -/
def elseOf (body : Parser (List Expr)) (ifElse : Parser Expr) : Parser (List Expr) := do
  if ← isAtMark .ifWord then return [← ifElse]
  else body

/-- A condition and one or two bodies; `ifElse` reads a condition behind `else`. -/
def ifElseOf (expr : Parser Expr) (body : Parser (List Expr)) (ifElse : Parser Expr) :
    Parser Expr := do
  expectMark .ifWord
  let condition ← expr
  let thenBody ← body
  let elseBody ← afterMark .elseWord (elseOf body ifElse)
  return .ifElse condition thenBody (elseBody.getD [])

/-! ## The recursion -/

/-- Fails for want of budget. -/
def tooDeep : Parser α := fun cursor =>
  .error (.nestedTooDeeply cursor.stop) cursor

/-- How many rules lead from an expression down to a primary one. -/
def descent : Nat := 7

mutual

/-- Statements between braces. -/
def body : (budget : Nat) → Parser (List Expr)
  | 0 => tooDeep
  | n + 1 => bodyOf (statement n)

/-- A declaration, an assignment or an expression. -/
def statement : (budget : Nat) → Parser Expr
  | 0 => tooDeep
  | n + 1 => if n < descent then tooDeep else statementOf (expr n)

/-- An expression. -/
def expr : (budget : Nat) → Parser Expr
  | 0 => tooDeep
  | n + 1 => conditionalChain .or .orOr (conjunction n)

/-- An expression without `||` outside of brackets. -/
def conjunction : (budget : Nat) → Parser Expr
  | 0 => tooDeep
  | n + 1 => conditionalChain .and .andAnd (comparison n)

/-- A sum, or a comparison of two. -/
def comparison : (budget : Nat) → Parser Expr
  | 0 => tooDeep
  | n + 1 => comparisonOf (sum n)

/-- A sum of terms. -/
def sum : (budget : Nat) → Parser Expr
  | 0 => tooDeep
  | n + 1 => sumOf (term n) (termFrom n)

/-- A product of factors. -/
def term : (budget : Nat) → Parser Expr
  | 0 => tooDeep
  | n + 1 => unary n >>= termFromOf (unary n)

/-- A product whose first factor is known. -/
def termFrom : (budget : Nat) → Expr → Parser Expr
  | 0, _ => tooDeep
  | n + 1, first => termFromOf (unary n) first

/-- A negated or a primary expression. -/
def unary : (budget : Nat) → Parser Expr
  | 0 => tooDeep
  | n + 1 => unaryOf (unary n) (primary n)

/-- A primary expression. -/
def primary : (budget : Nat) → Parser Expr
  | 0 => tooDeep
  | n + 1 => primaryOf (arguments n) (parenthesised n) (body n) (ifElse n)

/-- The arguments of a call, behind the opening parenthesis. -/
def arguments : (budget : Nat) → Parser (List Expr)
  | 0 => tooDeep
  | n + 1 => commaSeparated (expr n)

/-- A grouped expression or a tuple. -/
def parenthesised : (budget : Nat) → Parser Expr
  | 0 => tooDeep
  | n + 1 => parenthesisedOf (expr n)

/-- A condition. -/
def ifElse : (budget : Nat) → Parser Expr
  | 0 => tooDeep
  | n + 1 => ifElseOf (expr n) (body n) (ifElse n)

end

/-- A function definition. -/
def function : (budget : Nat) → Parser Function
  | 0 => tooDeep
  | n + 1 => functionOf (body n)

/-- A program. -/
def program : (budget : Nat) → Parser Program
  | 0 => tooDeep
  | n + 1 => programOf (function n)

/-- How many rules may be entered inside one another while the text is scanned. -/
def nestingLimit : Nat := 990

/-- How many rules may be entered inside one another.  If the text was scanned before, there is room
for a few more. -/
def limitFor : Feed → Nat
  | .scanner _ => nestingLimit
  | .items _ => nestingLimit + 5

/-- What a parser answers from a cursor, leaving the cursor it ends at aside. -/
def result (p : Parser α) (cursor : Cursor) : Except ReadError α :=
  match p cursor with
  | .ok a _ => .ok a
  | .error e _ => .error e

theorem result_eq_ok_iff {p : Parser α} {a : α} {c : Cursor} :
    p.result c = .ok a ↔ ∃ c', p c = .ok a c' := by
  rw [result]
  cases p c <;> simp

theorem result_eq_error_iff {p : Parser α} {e : ReadError} {c : Cursor} :
    p.result c = .error e ↔ ∃ c', p c = .error e c' := by
  rw [result]
  cases p c <;> simp

end Parser

/-- Reads a program off a cursor. -/
def Program.read (cursor : Cursor) : Except ReadError Program :=
  (Parser.program (Parser.limitFor cursor.feed)).result cursor

/-- The program that a source text spells, scanned as it is read. -/
def Program.parse (source : String) : Except ReadError Program :=
  Program.read (.ofSource source)

/-- The program that a source text spells, scanned to its end before it is read. -/
def Program.parseScanned (source : String) : Except ReadError Program :=
  match (Scanner.ofSource source).drain with
  | .ok items => Program.read (.ofItems items)
  | .error digits => .error (.overlong digits)

end Scriptlet
