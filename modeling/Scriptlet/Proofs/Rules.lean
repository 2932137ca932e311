import Scriptlet.Proofs.Soundness

/-!
# Properties that pass through the rules

Some facts about parsers have nothing to do with phrases: that a parser only takes tokens off the
front, or that it does not look beyond the token it stops at.  Such a fact holds of the primitives
and passes through the ways in which the rules put them together, and then it holds of every rule.
The passage through the rules is made once, here.

A property of parsers is `RuleClosed` when it holds of the primitives and passes through steps one
after the other and through loops.  For loops it may be used that what a step finds takes at least
one token, which `Soundness` knows.  The beginning of a statement is the one place where two tokens
are looked at; a property has to be shown there by itself.
-/

namespace Scriptlet
namespace Parser

open Grammar

/-- A property of parsers that passes through the steps that rules are made of. -/
structure RuleClosed (P : (α : Type) → Parser α → Prop) : Prop where
  pure : ∀ {α : Type} (a : α), P α (pure a)
  bind : ∀ {α β : Type} {p : Parser α} {f : α → Parser β}, P α p → (∀ a, P β (f a)) →
    P β (p >>= f)
  peek : P (Option Token) peek
  advance : P Token advance
  fail : ∀ {α : Type} (cause : ReadError.Cause), P α (fail cause)
  tooDeep : ∀ {α : Type}, P α tooDeep
  many : ∀ {α : Type} {step : Parser (Option α)} {R : List Token → Option α → List Token → Prop},
    Reads step R → (∀ ⦃ts a mid⦄, R ts (some a) mid → mid.length < ts.length) →
    P (Option α) step → P (List α) (many step)
  statement : ∀ budget, descent ≤ budget → P Expr (expr budget) →
    P Expr (statementOf (expr budget))

namespace RuleClosed

variable {P : (α : Type) → Parser α → Prop} {α β : Type}

/-! ## Steps -/

theorem map (hP : RuleClosed P) (f : α → β) {p : Parser α} (hp : P α p) : P β (f <$> p) := by
  rw [map_eq_pure_bind]
  exact hP.bind hp fun a => hP.pure (f a)

theorem isAtMark (hP : RuleClosed P) (m : Mark) : P Bool (Parser.isAtMark m) :=
  hP.bind hP.peek fun _ => hP.pure _

theorem expectBy (hP : RuleClosed P) (kind : Token.Kind) (accept : Token → Option α) :
    P α (Parser.expectBy kind accept) := by
  refine hP.bind hP.peek fun next => ?_
  cases next.bind accept with
  | none => exact hP.fail _
  | some a => exact hP.bind hP.advance fun _ => hP.pure a

theorem expectMark (hP : RuleClosed P) (m : Mark) : P Unit (Parser.expectMark m) :=
  hP.bind (hP.expectBy _ _) fun _ => hP.pure ()

theorem expectName (hP : RuleClosed P) : P String Parser.expectName :=
  hP.expectBy _ _

theorem afterMark (hP : RuleClosed P) (m : Mark) {next : Parser α} (hnext : P α next) :
    P (Option α) (Parser.afterMark m next) := by
  refine hP.bind (hP.isAtMark m) fun here => ?_
  cases here with
  | true => exact hP.bind hP.advance fun _ => hP.map some hnext
  | false => exact hP.pure none

theorem many_afterMark (hP : RuleClosed P) (m : Mark) {next : Parser α}
    {R : List Token → α → List Token → Prop} (hreads : Reads next R)
    (hle : ∀ ⦃ts a rest⦄, R ts a rest → rest.length ≤ ts.length) (hnext : P α next) :
    P (List α) (Parser.many (Parser.afterMark m next)) :=
  hP.many (reads_afterMark m hreads) (fun _ _ _ => AfterMark.length_lt hle) (hP.afterMark m hnext)

theorem skipSemicolons (hP : RuleClosed P) : P Unit Parser.skipSemicolons := by
  refine hP.bind (hP.many_afterMark .semicolon reads_unit ?_ (hP.pure ())) fun _ => hP.pure ()
  rintro ts a rest rfl
  exact Nat.le_refl _

theorem commaSeparated (hP : RuleClosed P) {item : Parser α}
    {R : List Token → α → List Token → Prop} (hreads : Reads item R)
    (hle : ∀ ⦃ts a rest⦄, R ts a rest → rest.length ≤ ts.length) (hitem : P α item) :
    P (List α) (Parser.commaSeparated item) := by
  refine hP.bind (hP.isAtMark .closeParen) fun here => ?_
  cases here with
  | true => exact hP.bind (hP.expectMark _) fun _ => hP.pure []
  | false =>
    refine hP.bind hitem fun first => ?_
    refine hP.bind (hP.many_afterMark .comma hreads hle hitem) fun others => ?_
    exact hP.bind (hP.expectMark _) fun _ => hP.pure _

/-! ## Functions -/

theorem param (hP : RuleClosed P) : P Param Parser.param := by
  have hannotation : P (Option String) Parser.optionalName := by
    refine hP.bind hP.peek fun next => ?_
    split
    · exact hP.bind hP.advance fun _ => hP.pure _
    · exact hP.pure none
  refine hP.bind hP.expectName fun name => ?_
  exact hP.bind hannotation fun annotation => hP.pure _

theorem functionOf (hP : RuleClosed P) {body : Parser (List Expr)} (hbody : P _ body) :
    P Function (Parser.functionOf body) := by
  refine hP.bind (hP.expectMark .func) fun _ => ?_
  refine hP.bind hP.expectName fun name => ?_
  refine hP.bind (hP.expectMark .openParen) fun _ => ?_
  refine hP.bind (hP.commaSeparated reads_param (fun _ _ _ => Phrase.length_le) hP.param)
    fun params => ?_
  exact hP.bind hbody fun es => hP.pure _

theorem programOf (hP : RuleClosed P) {function : Parser Function}
    (hreads : Reads function (Phrase .function)) (hfunction : P _ function) :
    P Program (Parser.programOf function) := by
  refine hP.bind hP.skipSemicolons fun _ => ?_
  refine hP.many (reads_nextFunction hreads) (fun _ _ _ => FunctionStep.length_lt) ?_
  refine hP.bind hP.peek fun next => ?_
  cases next with
  | none => exact hP.pure none
  | some _ =>
    refine hP.bind hfunction fun f => ?_
    exact hP.bind hP.skipSemicolons fun _ => hP.pure _

/-! ## Bodies -/

theorem nextStatement (hP : RuleClosed P) {statement : Parser Expr} (hstatement : P _ statement) :
    P (Option Expr) (Parser.nextStatement statement) := by
  refine hP.bind (hP.isAtMark .closeBrace) fun atEnd => ?_
  cases atEnd with
  | true => exact hP.pure none
  | false =>
    refine hP.bind hstatement fun e => ?_
    refine hP.bind (hP.isAtMark .closeBrace) fun last => ?_
    cases last with
    | true => exact hP.pure _
    | false =>
      refine hP.bind (hP.expectMark .semicolon) fun _ => ?_
      exact hP.bind hP.skipSemicolons fun _ => hP.pure _

theorem bodyOf (hP : RuleClosed P) {statement : Parser Expr}
    (hreads : Reads statement (Phrase .statement)) (hstatement : P _ statement) :
    P (List Expr) (Parser.bodyOf statement) := by
  have hloop : P (List Expr) (Parser.many (Parser.nextStatement statement)) :=
    hP.many (reads_nextStatement hreads) (fun _ _ _ => StatementStep.length_lt)
      (hP.nextStatement hstatement)
  refine hP.bind (hP.expectMark .openBrace) fun _ => ?_
  refine hP.bind hP.skipSemicolons fun _ => ?_
  refine hP.bind hloop fun statements => ?_
  exact hP.bind (hP.expectMark .closeBrace) fun _ => hP.pure _

/-! ## Operators -/

theorem conditionalChain (hP : RuleClosed P) (op : Conditional) (m : Mark) {operand : Parser Expr}
    {R : List Token → Expr → List Token → Prop} (hreads : Reads operand R)
    (hle : ∀ ⦃ts a rest⦄, R ts a rest → rest.length ≤ ts.length) (hoperand : P _ operand) :
    P Expr (Parser.conditionalChain op m operand) := by
  refine hP.bind hoperand fun first => ?_
  exact hP.bind (hP.many_afterMark m hreads hle hoperand) fun others => hP.pure _

theorem comparisonOf (hP : RuleClosed P) {sum : Parser Expr} (hsum : P _ sum) :
    P Expr (Parser.comparisonOf sum) := by
  refine hP.bind hsum fun left => ?_
  refine hP.bind hP.peek fun next => ?_
  cases next.bind comparison? with
  | none => exact hP.pure left
  | some op =>
    refine hP.bind hP.advance fun _ => ?_
    exact hP.bind hsum fun right => hP.pure _

theorem nextOperand (hP : RuleClosed P) (operator? : Token → Option Operator)
    {operand : Parser Expr} (hoperand : P _ operand) :
    P (Option (Operator × Expr)) (Parser.nextOperand operator? operand) := by
  refine hP.bind hP.peek fun next => ?_
  cases next.bind operator? with
  | none => exact hP.pure none
  | some op =>
    refine hP.bind hP.advance fun _ => ?_
    exact hP.bind hoperand fun right => hP.pure _

theorem many_nextSummand (hP : RuleClosed P) {term : Parser Expr} {termFrom : Expr → Parser Expr}
    (hreads : Reads term (Phrase .term))
    (hreadsFrom : ∀ first, Reads (termFrom first) (Phrase (.termRest first)))
    (hterm : P _ term) (htermFrom : ∀ first, P _ (termFrom first)) :
    P (List (Operator × Expr)) (Parser.many (nextSummand term termFrom)) := by
  have hnext : P (Option (Operator × Expr)) (nextSummand term termFrom) := by
    refine hP.bind hP.peek fun next => ?_
    split
    · split
      · refine hP.bind hP.advance fun _ => ?_
        exact hP.bind (htermFrom _) fun right => hP.pure _
      · exact hP.pure none
    · exact hP.nextOperand additive? hterm
  exact hP.many (reads_nextSummand hreads hreadsFrom) (fun _ _ _ => SummandStep.length_lt) hnext

theorem sumOf (hP : RuleClosed P) {term : Parser Expr} {termFrom : Expr → Parser Expr}
    (hreads : Reads term (Phrase .term))
    (hreadsFrom : ∀ first, Reads (termFrom first) (Phrase (.termRest first)))
    (hterm : P _ term) (htermFrom : ∀ first, P _ (termFrom first)) :
    P Expr (Parser.sumOf term termFrom) := by
  refine hP.bind hterm fun first => ?_
  exact hP.bind (hP.many_nextSummand hreads hreadsFrom hterm htermFrom) fun others => hP.pure _

theorem termFromOf (hP : RuleClosed P) {unary : Parser Expr}
    (hreads : Reads unary (Phrase .unary)) (hunary : P _ unary) (first : Expr) :
    P Expr (Parser.termFromOf unary first) := by
  have hloop := hP.many (reads_nextOperand (fun _ _ => multiplicative?_sound) hreads)
    (fun _ _ _ => OperandStep.length_lt fun _ _ _ => Phrase.length_le)
    (hP.nextOperand multiplicative? hunary)
  exact hP.bind hloop fun others => hP.pure _

theorem unaryOf (hP : RuleClosed P) {unary primary : Parser Expr} (hunary : P _ unary)
    (hprimary : P _ primary) : P Expr (Parser.unaryOf unary primary) := by
  refine hP.bind (hP.afterMark .bang hunary) fun negated => ?_
  cases negated with
  | none => exact hprimary
  | some operand => exact hP.pure _

/-! ## Brackets and conditions -/

theorem parenthesisedOf (hP : RuleClosed P) {expr : Parser Expr}
    (hreads : Reads expr (Phrase .expr)) (hexpr : P _ expr) :
    P Expr (Parser.parenthesisedOf expr) := by
  have hnext : P (Option Expr) (nextItem expr) := by
    refine hP.bind (hP.isAtMark .comma) fun here => ?_
    cases here with
    | false => exact hP.pure none
    | true =>
      refine hP.bind hP.advance fun _ => ?_
      refine hP.bind (hP.isAtMark .closeParen) fun last => ?_
      cases last with
      | true => exact hP.pure none
      | false => exact hP.map some hexpr
  have hloop : P (List Expr) (Parser.many (nextItem expr)) :=
    hP.many (reads_nextItem hreads) (fun _ _ _ => ItemStep.length_lt) hnext
  refine hP.bind (hP.expectMark .openParen) fun _ => ?_
  refine hP.bind (hP.afterMark .closeParen (hP.pure ())) fun closed => ?_
  cases closed with
  | some _ => exact hP.pure _
  | none =>
    refine hP.bind hexpr fun first => ?_
    refine hP.bind (hP.afterMark .closeParen (hP.pure ())) fun closed => ?_
    cases closed with
    | some _ => exact hP.pure _
    | none =>
      refine hP.bind hloop fun others => ?_
      exact hP.bind (hP.expectMark .closeParen) fun _ => hP.pure _

theorem ifElseOf (hP : RuleClosed P) {expr : Parser Expr} {body : Parser (List Expr)}
    {ifElse : Parser Expr} (hexpr : P _ expr) (hbody : P _ body) (hif : P _ ifElse) :
    P Expr (Parser.ifElseOf expr body ifElse) := by
  have helse : P (List Expr) (elseOf body ifElse) := by
    refine hP.bind (hP.isAtMark .ifWord) fun here => ?_
    cases here with
    | true => exact hP.bind hif fun e => hP.pure _
    | false => exact hbody
  refine hP.bind (hP.expectMark .ifWord) fun _ => ?_
  refine hP.bind hexpr fun condition => ?_
  refine hP.bind hbody fun thenBody => ?_
  exact hP.bind (hP.afterMark .elseWord helse) fun elseBody => hP.pure _

theorem primaryOf (hP : RuleClosed P) {arguments body : Parser (List Expr)}
    {parenthesised ifElse : Parser Expr} (harguments : P _ arguments)
    (hparenthesised : P _ parenthesised) (hbody : P _ body) (hif : P _ ifElse) :
    P Expr (Parser.primaryOf arguments parenthesised body ifElse) := by
  refine hP.bind hP.peek fun next => ?_
  split
  · exact hP.fail _
  · exact hP.bind hP.advance fun _ => hP.pure _
  · exact hP.bind hP.advance fun _ => hP.pure _
  · exact hP.bind hP.advance fun _ => hP.pure _
  · refine hP.bind hP.advance fun _ => ?_
    refine hP.bind (hP.afterMark .openParen harguments) fun args => ?_
    cases args with
    | some args => exact hP.pure _
    | none => exact hP.pure _
  · exact hparenthesised
  · exact hP.bind hbody fun es => hP.pure _
  · exact hif
  · exact hP.fail _

/-! ## The recursion -/

/-- The parsers with a budget have the property. -/
structure Rules (P : (α : Type) → Parser α → Prop) (budget : Nat) : Prop where
  body : P (List Expr) (Parser.body budget)
  statement : P Expr (Parser.statement budget)
  expr : P Expr (Parser.expr budget)
  conjunction : P Expr (Parser.conjunction budget)
  comparison : P Expr (Parser.comparison budget)
  sum : P Expr (Parser.sum budget)
  term : P Expr (Parser.term budget)
  termFrom (first : Expr) : P Expr (Parser.termFrom budget first)
  unary : P Expr (Parser.unary budget)
  primary : P Expr (Parser.primary budget)
  arguments : P (List Expr) (Parser.arguments budget)
  parenthesised : P Expr (Parser.parenthesised budget)
  ifElse : P Expr (Parser.ifElse budget)

theorem rules (hP : RuleClosed P) (budget : Nat) : Rules P budget := by
  induction budget with
  | zero => constructor <;> intros <;> exact hP.tooDeep
  | succ n ih =>
    have hreads := readsPhrases n
    exact {
      body := hP.bodyOf hreads.statement ih.statement
      statement := statement_cases hP.tooDeep fun hroom => hP.statement n hroom ih.expr
      expr := hP.conditionalChain _ _ hreads.conjunction (fun _ _ _ => Phrase.length_le)
        ih.conjunction
      conjunction := hP.conditionalChain _ _ hreads.comparison (fun _ _ _ => Phrase.length_le)
        ih.comparison
      comparison := hP.comparisonOf ih.sum
      sum := hP.sumOf hreads.term hreads.termFrom ih.term ih.termFrom
      term := hP.bind ih.unary (hP.termFromOf hreads.unary ih.unary)
      termFrom := hP.termFromOf hreads.unary ih.unary
      unary := hP.unaryOf ih.unary ih.primary
      primary := hP.primaryOf ih.arguments ih.parenthesised ih.body ih.ifElse
      arguments := hP.commaSeparated hreads.expr (fun _ _ _ => Phrase.length_le) ih.expr
      parenthesised := hP.parenthesisedOf hreads.expr ih.expr
      ifElse := hP.ifElseOf ih.expr ih.body ih.ifElse }

theorem function (hP : RuleClosed P) (budget : Nat) : P Function (Parser.function budget) := by
  match budget with
  | 0 => exact hP.tooDeep
  | n + 1 => exact hP.functionOf (hP.rules n).body

theorem program (hP : RuleClosed P) (budget : Nat) : P Program (Parser.program budget) := by
  match budget with
  | 0 => exact hP.tooDeep
  | n + 1 => exact hP.programOf (reads_function n) (hP.function n)

end RuleClosed
end Parser
end Scriptlet
