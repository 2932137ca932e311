import Scriptlet.Syntax.Basic
import Scriptlet.Token.Basic

/-!
# The grammar, as derivations

What a list of tokens means is defined here without a parser.  A `Derivation c ts x` shows that the
tokens `ts` are, as a whole, a phrase of the category `c` with the tree `x`; its constructors are
the rules of the grammar

    program        := ';'* (function ';'*)*
    function       := 'func' NAME '(' [param (',' param)*] ')' body
    param          := NAME [NAME]
    body           := '{' ';'* [statement (';'+ statement)* ';'*] '}'
    statement      := NAME ':=' expr | NAME '=' expr | expr
    expr           := conjunction ('||' conjunction)*
    conjunction    := comparison ('&&' comparison)*
    comparison     := sum [('==' | '!=' | '<' | '<=' | '>' | '>=') sum]
    sum            := term (('+' | '-') term | term that begins with a negative INT)*
    term           := unary (('*' | '/' | '%') unary)*
    unary          := '!' unary | primary
    primary        := INT | STRING | BOOL | NAME | NAME '(' [expr (',' expr)*] ')'
                    | '(' ')' | '(' expr ')' | '(' expr ',' ')' | '(' expr (',' expr)+ [','] ')'
                    | body | ifElse
    ifElse         := 'if' expr body ['else' (body | ifElse)]

## Repetitions

A repetition is a category of its own: what may still follow once its first element has been read.
Chains of operators group to the left, so there what follows depends on the tree of what stands
before; `sumRest left` are the signs and terms that can follow a sum with the tree `left`, and their
tree is that of the whole sum.  The same category serves a term that begins with a negative integer:
`termRest (-1)` are the factors that can follow the literal.

Derivations are data, not mere propositions, so that it can be said that there is only one.
-/

namespace Scriptlet

namespace Operator

/-- The mark that stands for an operator. -/
def mark : Operator → Mark
  | .equals => .equals
  | .notEquals => .notEquals
  | .less => .less
  | .lessEquals => .lessEquals
  | .greater => .greater
  | .greaterEquals => .greaterEquals
  | .add => .plus
  | .sub => .minus
  | .mul => .star
  | .div => .slash
  | .mod => .percent

/-- How tightly an operator binds: the rule that it belongs to. -/
inductive Level where
  | comparison
  | sum
  | term
  deriving DecidableEq, Repr

/-- The rule that an operator belongs to. -/
def level : Operator → Level
  | .equals | .notEquals | .less | .lessEquals | .greater | .greaterEquals => .comparison
  | .add | .sub => .sum
  | .mul | .div | .mod => .term

theorem mark_injective {op op' : Operator} (h : op.mark = op'.mark) : op = op' := by
  revert h
  cases op <;> cases op' <;> decide

end Operator

namespace Grammar

/-- A kind of phrase. -/
inductive Category where
  | program
  /-- Functions, each with the semicolons behind it. -/
  | functions
  | function
  /-- Parameters up to and with the closing parenthesis. -/
  | params
  /-- What follows a parameter. -/
  | moreParams
  | param
  | body
  /-- What stands between the semicolons that open a body and the brace that closes it. -/
  | statements
  /-- What follows a statement. -/
  | moreStatements
  | statement
  | expr
  | exprRest (left : Expr)
  | conjunction
  | conjunctionRest (left : Expr)
  | comparison
  | sum
  | sumRest (left : Expr)
  | term
  | termRest (left : Expr)
  | unary
  | primary
  /-- Arguments up to and with the closing parenthesis. -/
  | arguments
  /-- What follows an argument. -/
  | moreArguments
  /-- What makes a tuple of a parenthesised expression: a comma, and perhaps items behind it. -/
  | items
  /-- What follows a later item of a tuple. -/
  | moreItems
  | ifElse

/-- What phrases of a category stand for. -/
@[reducible] def Category.Tree : Category → Type
  | .program | .functions => Program
  | .function => Function
  | .params | .moreParams => List Param
  | .param => Param
  | .body | .statements | .moreStatements => List Expr
  | .arguments | .moreArguments | .items | .moreItems => List Expr
  | .statement | .expr | .exprRest _ | .conjunction | .conjunctionRest _ | .comparison => Expr
  | .sum | .sumRest _ | .term | .termRest _ | .unary | .primary | .ifElse => Expr

/-- So many semicolons. -/
def semicolons (count : Nat) : List Token :=
  List.replicate count (.mark .semicolon)

open Category in
/-- How a list of tokens comes to be a phrase. -/
inductive Derivation : (c : Category) → List Token → c.Tree → Type
  | program (count : Nat) {ts p} :
    Derivation functions ts p → Derivation program (semicolons count ++ ts) p
  | noFunctions : Derivation functions [] []
  | someFunctions (count : Nat) {ts us f fs} :
    Derivation function ts f → Derivation functions us fs →
    Derivation functions (ts ++ (semicolons count ++ us)) (f :: fs)
  | function (name : String) {ts us ps es} :
    Derivation params ts ps → Derivation body us es →
    Derivation function (.mark .func :: .name name :: .mark .openParen :: (ts ++ us)) ⟨name, ps, es⟩
  | noParams : Derivation params [.mark .closeParen] []
  | someParams {ts us p ps} :
    Derivation param ts p → Derivation moreParams us ps → Derivation params (ts ++ us) (p :: ps)
  | lastParam : Derivation moreParams [.mark .closeParen] []
  | nextParam {ts us p ps} :
    Derivation param ts p → Derivation moreParams us ps →
    Derivation moreParams (.mark .comma :: (ts ++ us)) (p :: ps)
  | plainParam (name : String) : Derivation param [.name name] ⟨name, none⟩
  | annotatedParam (name annotation : String) :
    Derivation param [.name name, .name annotation] ⟨name, some annotation⟩
  | body (count : Nat) {ts es} :
    Derivation statements ts es →
    Derivation body (.mark .openBrace :: (semicolons count ++ (ts ++ [.mark .closeBrace]))) es
  | noStatements : Derivation statements [] []
  | someStatements {ts us e es} :
    Derivation statement ts e → Derivation moreStatements us es →
    Derivation statements (ts ++ us) (e :: es)
  | lastStatement (count : Nat) : Derivation moreStatements (semicolons count) []
  | nextStatement (count : Nat) {ts us e es} :
    Derivation statement ts e → Derivation moreStatements us es →
    Derivation moreStatements (semicolons (count + 1) ++ (ts ++ us)) (e :: es)
  | declare (name : String) {ts e} :
    Derivation expr ts e →
    Derivation statement (.name name :: .mark .define :: ts) (.declare name e)
  | assign (name : String) {ts e} :
    Derivation expr ts e →
    Derivation statement (.name name :: .mark .assign :: ts) (.assign name e)
  | expression {ts e} : Derivation expr ts e → Derivation statement ts e
  | expr {ts us l e} :
    Derivation conjunction ts l → Derivation (exprRest l) us e → Derivation expr (ts ++ us) e
  | exprEnd {l} : Derivation (exprRest l) [] l
  | or {ts us l r e} :
    Derivation conjunction ts r → Derivation (exprRest (.conditional .or l r)) us e →
    Derivation (exprRest l) (.mark .orOr :: (ts ++ us)) e
  | conjunction {ts us l e} :
    Derivation comparison ts l → Derivation (conjunctionRest l) us e →
    Derivation conjunction (ts ++ us) e
  | conjunctionEnd {l} : Derivation (conjunctionRest l) [] l
  | and {ts us l r e} :
    Derivation comparison ts r → Derivation (conjunctionRest (.conditional .and l r)) us e →
    Derivation (conjunctionRest l) (.mark .andAnd :: (ts ++ us)) e
  | plainSum {ts e} : Derivation sum ts e → Derivation comparison ts e
  | compare (op : Operator) (h : op.level = .comparison) {ts us l r} :
    Derivation sum ts l → Derivation sum us r →
    Derivation comparison (ts ++ .mark op.mark :: us) (.binary op l r)
  | sum {ts us l e} :
    Derivation term ts l → Derivation (sumRest l) us e → Derivation sum (ts ++ us) e
  | sumEnd {l} : Derivation (sumRest l) [] l
  | sign (op : Operator) (h : op.level = .sum) {ts us l r e} :
    Derivation term ts r → Derivation (sumRest (.binary op l r)) us e →
    Derivation (sumRest l) (.mark op.mark :: (ts ++ us)) e
  | negative (n : Int) (h : n < 0) {ts us l r e} :
    Derivation (termRest (.lit (.int n))) ts r → Derivation (sumRest (.binary .add l r)) us e →
    Derivation (sumRest l) (.int n :: (ts ++ us)) e
  | term {ts us l e} :
    Derivation unary ts l → Derivation (termRest l) us e → Derivation term (ts ++ us) e
  | termEnd {l} : Derivation (termRest l) [] l
  | factor (op : Operator) (h : op.level = .term) {ts us l r e} :
    Derivation unary ts r → Derivation (termRest (.binary op l r)) us e →
    Derivation (termRest l) (.mark op.mark :: (ts ++ us)) e
  | not {ts e} : Derivation unary ts e → Derivation unary (.mark .bang :: ts) (.not e)
  | plainPrimary {ts e} : Derivation primary ts e → Derivation unary ts e
  | int (n : Int) : Derivation primary [.int n] (.lit (.int n))
  | string (text : String) : Derivation primary [.string text] (.lit (.string text))
  | bool (b : Bool) : Derivation primary [.bool b] (.lit (.bool b))
  | name (name : String) : Derivation primary [.name name] (.name name)
  | call (name : String) {ts es} :
    Derivation arguments ts es →
    Derivation primary (.name name :: .mark .openParen :: ts) (.call name es)
  | unit : Derivation primary [.mark .openParen, .mark .closeParen] (.tuple [])
  | group {ts e} :
    Derivation expr ts e →
    Derivation primary (.mark .openParen :: (ts ++ [.mark .closeParen])) e
  | tuple {ts us e es} :
    Derivation expr ts e → Derivation items us es →
    Derivation primary (.mark .openParen :: (ts ++ (us ++ [.mark .closeParen])))
      (.tuple (e :: es))
  | block {ts es} : Derivation body ts es → Derivation primary ts (.block es)
  | condition {ts e} : Derivation ifElse ts e → Derivation primary ts e
  | noArguments : Derivation arguments [.mark .closeParen] []
  | someArguments {ts us e es} :
    Derivation expr ts e → Derivation moreArguments us es →
    Derivation arguments (ts ++ us) (e :: es)
  | lastArgument : Derivation moreArguments [.mark .closeParen] []
  | nextArgument {ts us e es} :
    Derivation expr ts e → Derivation moreArguments us es →
    Derivation moreArguments (.mark .comma :: (ts ++ us)) (e :: es)
  | trailingComma : Derivation items [.mark .comma] []
  | nextItem {ts us e es} :
    Derivation expr ts e → Derivation moreItems us es →
    Derivation items (.mark .comma :: (ts ++ us)) (e :: es)
  | lastItem : Derivation moreItems [] []
  | furtherItems {ts es} : Derivation items ts es → Derivation moreItems ts es
  | ifOnly {ts us c es} :
    Derivation expr ts c → Derivation body us es →
    Derivation ifElse (.mark .ifWord :: (ts ++ us)) (.ifElse c es [])
  | ifElse {ts us vs c es fs} :
    Derivation expr ts c → Derivation body us es → Derivation body vs fs →
    Derivation ifElse (.mark .ifWord :: (ts ++ (us ++ .mark .elseWord :: vs))) (.ifElse c es fs)
  | elseIf {ts us vs c es e} :
    Derivation expr ts c → Derivation body us es → Derivation ifElse vs e →
    Derivation ifElse (.mark .ifWord :: (ts ++ (us ++ .mark .elseWord :: vs))) (.ifElse c es [e])

/-- Whether the tokens are a phrase of the category with that tree. -/
def Derives (c : Category) (ts : List Token) (x : c.Tree) : Prop :=
  Nonempty (Derivation c ts x)

/-! ## Operands that stand alone -/

section

variable {ts : List Token} {e : Expr}

theorem Derives.term_of_unary (h : Derives .unary ts e) : Derives .term ts e := by
  obtain ⟨d⟩ := h
  have dterm := Derivation.term d .termEnd
  rw [List.append_nil] at dterm
  exact ⟨dterm⟩

theorem Derives.sum_of_term (h : Derives .term ts e) : Derives .sum ts e := by
  obtain ⟨d⟩ := h
  have dsum := Derivation.sum d .sumEnd
  rw [List.append_nil] at dsum
  exact ⟨dsum⟩

theorem Derives.comparison_of_sum (h : Derives .sum ts e) : Derives .comparison ts e := by
  obtain ⟨d⟩ := h
  exact ⟨.plainSum d⟩

theorem Derives.conjunction_of_comparison (h : Derives .comparison ts e) :
    Derives .conjunction ts e := by
  obtain ⟨d⟩ := h
  have dconjunction := Derivation.conjunction d .conjunctionEnd
  rw [List.append_nil] at dconjunction
  exact ⟨dconjunction⟩

theorem Derives.expr_of_conjunction (h : Derives .conjunction ts e) : Derives .expr ts e := by
  obtain ⟨d⟩ := h
  have dexpr := Derivation.expr d .exprEnd
  rw [List.append_nil] at dexpr
  exact ⟨dexpr⟩

theorem Derives.expr_of_comparison (h : Derives .comparison ts e) : Derives .expr ts e :=
  h.conjunction_of_comparison.expr_of_conjunction

theorem Derives.expr_of_unary (h : Derives .unary ts e) : Derives .expr ts e :=
  h.term_of_unary.sum_of_term.comparison_of_sum.expr_of_comparison

theorem Derives.unary_of_primary (h : Derives .primary ts e) : Derives .unary ts e := by
  obtain ⟨d⟩ := h
  exact ⟨.plainPrimary d⟩

theorem Derives.expr_of_primary (h : Derives .primary ts e) : Derives .expr ts e :=
  h.unary_of_primary.expr_of_unary

end

end Grammar
end Scriptlet
