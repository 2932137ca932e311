import Scriptlet.Syntax.Basic
import Scriptlet.Token.Lexeme

/-!
# The canonical text of a program

Every tree that the grammar can build has a canonical text that spells it: the operands of operators
and the conditions of `if` are put in parentheses, `else` is always written, and one blank stands
between any two lexemes.  So no part of a tree is taken for part of its neighbour, be it a negative
integer behind an operand or a name before `=`.

The text is put together from lexemes.  Trees that no source text spells, such as a tuple given as a
literal, have lexemes too, but reading them does not give the tree back.
-/

namespace Scriptlet

open Scriptlet.Text

namespace Lexeme

/-- The lexeme of an integer. -/
def ofInt (n : Int) : Lexeme :=
  .int (n < 0) (Nat.toDigits 10 n.natAbs)

/-- The lexeme of a string; of its characters only the backslash needs an escape. -/
def ofString (text : String) : Lexeme :=
  .string (Escape.doubleBackslashes text.toList)

/-- The lexeme of a name. -/
def ofName (text : String) : Lexeme :=
  .name text.toList

/-- The mark of an operator. -/
def ofOperator : Operator → Lexeme
  | .equals => .mark .equals
  | .notEquals => .mark .notEquals
  | .less => .mark .less
  | .lessEquals => .mark .lessEquals
  | .greater => .mark .greater
  | .greaterEquals => .mark .greaterEquals
  | .add => .mark .plus
  | .sub => .mark .minus
  | .mul => .mark .star
  | .div => .mark .slash
  | .mod => .mark .percent

/-- The mark of a conditional operator. -/
def ofConditional : Conditional → Lexeme
  | .and => .mark .andAnd
  | .or => .mark .orOr

/-- Puts lexemes in parentheses. -/
def parenthesise (lexemes : List Lexeme) : List Lexeme :=
  .mark .openParen :: lexemes ++ [.mark .closeParen]

/-- Puts lexemes in braces. -/
def brace (lexemes : List Lexeme) : List Lexeme :=
  .mark .openBrace :: lexemes ++ [.mark .closeBrace]

/-- Puts a mark between lists of lexemes. -/
def separate (m : Mark) (parts : List (List Lexeme)) : List Lexeme :=
  [Lexeme.mark m].intercalate parts

/-- The lexeme of a literal; none if no token stands for it. -/
def ofValue : Value → List Lexeme
  | .int n => [ofInt n]
  | .string text => [ofString text]
  | .bool b => [.bool b]
  | .tuple _ | .absent => []

mutual

/-- The lexemes of a tree. -/
def ofExpr : Expr → List Lexeme
  | .lit value => ofValue value
  | .name n => [ofName n]
  | .call n args => ofName n :: parenthesise (separate .comma (ofEach args))
  | .declare n value => ofName n :: .mark .define :: ofExpr value
  | .assign n value => ofName n :: .mark .assign :: ofExpr value
  | .block body => brace (separate .semicolon (ofEach body))
  | .binary op left right =>
    parenthesise (ofExpr left) ++ ofOperator op :: parenthesise (ofExpr right)
  | .conditional op left right =>
    parenthesise (ofExpr left) ++ ofConditional op :: parenthesise (ofExpr right)
  | .ifElse condition thenBody elseBody =>
    .mark .ifWord :: parenthesise (ofExpr condition) ++
      brace (separate .semicolon (ofEach thenBody)) ++
      .mark .elseWord :: brace (separate .semicolon (ofEach elseBody))
  | .not operand => .mark .bang :: parenthesise (ofExpr operand)
  | .tuple items => parenthesise ((ofEach items).flatMap (· ++ [.mark .comma]))
  | .missing => []

/-- The lexemes of each tree. -/
def ofEach : List Expr → List (List Lexeme)
  | [] => []
  | e :: es => ofExpr e :: ofEach es

end

theorem ofEach_eq_map (es : List Expr) : ofEach es = es.map ofExpr := by
  induction es with
  | nil => rfl
  | cons e es ih => rw [ofEach, ih, List.map_cons]

/-- The lexemes of a parameter. -/
def ofParam (param : Param) : List Lexeme :=
  ofName param.name :: param.annotation.toList.map ofName

/-- The lexemes of a function definition. -/
def ofFunction (f : Function) : List Lexeme :=
  .mark .func :: ofName f.name :: parenthesise (separate .comma (f.params.map ofParam)) ++
    brace (separate .semicolon (f.body.map ofExpr))

end Lexeme

/-- The canonical text of a program. -/
def Program.text (program : Program) : String :=
  String.ofList ([' '].intercalate ((program.flatMap Lexeme.ofFunction).map Lexeme.spelling))

end Scriptlet
