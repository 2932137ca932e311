import Scriptlet.Proofs.Conservation
import Scriptlet.Proofs.Metering

/-!
# Reading goes on, and it ends

Several loops of the grammar go on while a closing token is not next, and at the end of a text it
never is.  A dozen rules call one another, most of them before any token is taken.  That reading
ends all the same rests on two things: what a loop finds has taken a token, and between two tokens
the rules can be entered only in one direction, from the statement down to the primary expression.

## The accounts of the rules

`Metering` counts rules and rounds and pays for them with thirteen steps a token.  Each rule has an
account of two numbers (`MeteredRules`).  The second is its rank: how many steps may be made, its
own entry included, before a token is taken.  It goes up by one from a body, with which a primary
expression may begin, to a statement.  The first is what the rule comes to when it is read, and it
is negative, because at least one token was taken and not used up; only what follows the first
factor of a term, and a whole program, may be empty.

Thirteen steps are what a statement needs that is a single name: eight rules, the four loops of an
expression, which look once and find nothing, and the round of the loop that the statement is found
in.

## The bound

From these accounts every rule takes at most thirteen steps for each token before it, and nine more.
Rules that are open have been entered, so that no more of them are open at any time; a budget of
that size is never used up, and a larger one changes nothing.  More generally a larger budget only
makes a difference where the smaller one is used up (`Request.eq_of_larger_budget`).
-/

namespace Scriptlet
namespace Parser

variable {α : Type} {same : Prop} {depth : Nat}

/-! ## The rules, one by one -/

theorem meters_commaSeparated {item : Metered α} {item' : Parser α} {x err : Int}
    (hitem : Meters same depth (fun _ => x) err item item') (hx : x ≤ -1) (hpos : 0 ≤ err)
    (herr : err ≤ 13) :
    Meters same depth (fun _ => -13) err (Metered.commaSeparated item) (commaSeparated item') := by
  refine (meters_isAtMark .closeParen).look hpos fun here => ?_
  cases here with
  | true => exact (meters_expectMark _).bind (by omega) fun _ => meters_pure (by decide)
  | false =>
    refine hitem.bind (by omega) fun first => ?_
    refine (meters_many_afterMark .comma hitem (by omega) herr).bind (by omega) fun others => ?_
    exact (meters_expectMark _).bind (by omega) fun _ => meters_pure (by omega)

theorem meters_param : Meters same (depth + 1) (fun _ => -12) 1 Metered.param param := by
  have hshallow : Shallow param := by
    have hannotation : Shallow optionalName := by
      refine (shallow_peekAhead 0).bind fun next => ?_
      split
      · exact shallow_advance.bind fun _ => shallow_pure _
      · exact shallow_pure none
    refine (shallow_expectBy _ _).bind fun name => ?_
    exact hannotation.bind fun annotation => shallow_pure _
  have hread : Meters same depth (fun _ => -13) 0 (Metered.read param) param := by
    refine meters_read hshallow reads_param (fun ts f rest hread => ?_) (Int.le_refl 0)
    have hless := hread.length_lt rfl
    omega
  exact hread.counted

theorem meters_functionOf {body : Metered (List Expr)} {body' : Parser (List Expr)}
    (hbody : Meters same (depth + 1) (fun _ => -13) 1 body body') :
    Meters same (depth + 1) (fun _ => -14) 0 (Metered.functionOf body) (functionOf body') := by
  refine (meters_expectMark .func).bind (Int.le_refl 0) fun _ => ?_
  refine meters_expectName.bind (by decide) fun name => ?_
  refine (meters_expectMark .openParen).bind (by decide) fun _ => ?_
  refine (meters_commaSeparated meters_param (by decide) (by decide) (by decide)).bind (by decide)
    fun params => ?_
  exact hbody.bind (by decide) fun es => meters_pure (by decide)

theorem meters_programOf {function : Metered Function} {function' : Parser Function}
    (hfunction : Meters same depth (fun _ => -13) 1 function function') :
    Meters same depth (fun _ => 2) 3 (Metered.programOf function) (programOf function') := by
  have hnext : Meters same depth (found (-12)) 1 (Metered.nextFunction function)
      (nextFunction function') := by
    refine meters_peek.look (by decide) fun next => ?_
    cases next with
    | none => exact meters_pure (by decide)
    | some _ =>
      refine hfunction.bind (by decide) fun f => ?_
      exact meters_skipSemicolons.bind (by decide) fun _ => meters_pure (by simp)
  refine meters_skipSemicolons.bind (by decide) fun _ => ?_
  exact (meters_many hnext (by decide)).mono (fun _ => by decide) (by decide)

theorem meters_bodyOf {statement : Metered Expr} {statement' : Parser Expr}
    (hstatement : Meters same depth (fun _ => -1) 9 statement statement') :
    Meters same depth (fun _ => -14) 0 (Metered.bodyOf statement) (bodyOf statement') := by
  have hnext : Meters same depth (found (-1)) 9 (Metered.nextStatement statement)
      (nextStatement statement') := by
    refine (meters_isAtMark .closeBrace).look (by decide) fun atEnd => ?_
    cases atEnd with
    | true => exact meters_pure (by decide)
    | false =>
      refine hstatement.bind (by decide) fun e => ?_
      refine (meters_isAtMark .closeBrace).look (by decide) fun last => ?_
      cases last with
      | true => exact meters_pure (by simp)
      | false =>
        refine (meters_expectMark .semicolon).bind (by decide) fun _ => ?_
        exact meters_skipSemicolons.bind (by decide) fun _ => meters_pure (by simp)
  refine (meters_expectMark .openBrace).bind (by decide) fun _ => ?_
  refine meters_skipSemicolons.bind (by decide) fun _ => ?_
  refine (meters_many hnext (by decide)).bind (by decide) fun statements => ?_
  exact (meters_expectMark .closeBrace).bind (by decide) fun _ => meters_pure (by decide)

theorem meters_statementOf {expr : Metered Expr} {expr' : Parser Expr}
    (hexpr : Meters same depth (fun _ => -2) 8 expr expr') :
    Meters same depth (fun _ => -2) 8 (Metered.statementOf expr) (statementOf expr') := by
  have hbehind : ∀ build : Expr → Expr, Meters same depth (fun _ => -2) 8
      (do let _ ← Metered.read advance; let _ ← Metered.read advance; return build (← expr))
      (do let _ ← advance; let _ ← advance; return build (← expr')) := fun build => by
    refine meters_advance.bind (by decide) fun _ => ?_
    refine meters_advance.bind (by decide) fun _ => ?_
    exact hexpr.bind (by decide) fun e => meters_pure (by decide)
  refine meters_peek.look (by decide) fun next => ?_
  cases next with
  | none => exact hexpr
  | some token =>
    cases token with
    | name name =>
      refine (meters_peekAhead 1).look (by decide) fun second => ?_
      cases second with
      | none => exact hexpr
      | some token =>
        cases token with
        | mark mark =>
          cases mark with
          | define => exact hbehind _
          | assign => exact hbehind _
          | _ => exact hexpr
        | _ => exact hexpr
    | _ => exact hexpr

theorem meters_conditionalChain (op : Conditional) (mark : Mark) {operand : Metered Expr}
    {operand' : Parser Expr} {x err : Int}
    (hoperand : Meters same depth (fun _ => x) err operand operand') (hx : x ≤ 12)
    (hleft : 1 + x ≤ err) (herr : err ≤ 13) :
    Meters same depth (fun _ => x + 1) err (Metered.conditionalChain op mark operand)
      (conditionalChain op mark operand') := by
  refine hoperand.bind (Int.le_refl _) fun first => ?_
  refine (meters_many_afterMark mark hoperand hx herr).bind (by omega) fun others => ?_
  exact meters_pure (by omega)

theorem meters_comparisonOf {sum : Metered Expr} {sum' : Parser Expr}
    (hsum : Meters same depth (fun _ => -7) 5 sum sum') :
    Meters same depth (fun _ => -7) 5 (Metered.comparisonOf sum) (comparisonOf sum') := by
  refine hsum.bind (by decide) fun left => ?_
  refine meters_peek.look (by decide) fun next => ?_
  cases next.bind comparison? with
  | none => exact meters_pure (by decide)
  | some op =>
    refine meters_advance.bind (by decide) fun _ => ?_
    exact hsum.bind (by decide) fun right => meters_pure (by decide)

theorem meters_nextOperand (operator? : Token → Option Operator) {operand : Metered Expr}
    {operand' : Parser Expr} {x err : Int}
    (hoperand : Meters same depth (fun _ => x) err operand operand') (herr : err ≤ 13) :
    Meters same depth (found (x - 13)) 0 (Metered.nextOperand operator? operand)
      (nextOperand operator? operand') := by
  refine meters_peek.look (Int.le_refl 0) fun next => ?_
  cases next.bind operator? with
  | none => exact meters_pure (by simp)
  | some op =>
    refine meters_advance.bind (by decide) fun _ => ?_
    exact hoperand.bind (by omega) fun right => meters_pure (by simp)

theorem meters_sumOf {term : Metered Expr} {termFrom : Expr → Metered Expr}
    {term' : Parser Expr} {termFrom' : Expr → Parser Expr}
    (hterm : Meters same depth (fun _ => -9) 4 term term')
    (htermFrom : ∀ first, Meters same depth (fun _ => 2) 2 (termFrom first) (termFrom' first)) :
    Meters same depth (fun _ => -8) 4 (Metered.sumOf term termFrom) (sumOf term' termFrom') := by
  have hnext : Meters same depth (found (-11)) 0 (Metered.nextSummand term termFrom)
      (nextSummand term' termFrom') := by
    have hsigned : Meters same depth (found (-11)) 0 (Metered.nextOperand additive? term)
        (nextOperand additive? term') := by
      refine (meters_nextOperand additive? hterm (by decide)).mono (fun o => ?_) (by decide)
      cases o <;> simp
    refine meters_peek.look (by decide) fun next => ?_
    cases next with
    | none => exact hsigned
    | some token =>
      cases token with
      | int n =>
        by_cases hnegative : n < 0
        · simp only [if_pos hnegative]
          refine meters_advance.bind (by decide) fun _ => ?_
          exact (htermFrom _).bind (by decide) fun right => meters_pure (by simp)
        · simp only [if_neg hnegative]
          exact meters_pure (by simp)
      | _ => exact hsigned
  refine hterm.bind (by decide) fun first => ?_
  exact (meters_many hnext (by decide)).bind (by decide) fun others => meters_pure (by decide)

theorem meters_termFromOf {unary : Metered Expr} {unary' : Parser Expr}
    (hunary : Meters same depth (fun _ => -11) 3 unary unary') (first : Expr) :
    Meters same depth (fun _ => 1) 1 (Metered.termFromOf unary first) (termFromOf unary' first) :=
  (meters_many (meters_nextOperand multiplicative? hunary (by decide)) (by decide)).bind (by decide)
    fun _ => meters_pure (by decide)

theorem meters_termOf {unary : Metered Expr} {unary' : Parser Expr}
    (hunary : Meters same depth (fun _ => -11) 3 unary unary') :
    Meters same depth (fun _ => -10) 3 (unary >>= Metered.termFromOf unary)
      (unary' >>= termFromOf unary') := by
  refine hunary.bind (by decide) fun first => ?_
  exact (meters_termFromOf hunary first).mono (fun _ => by decide) (by decide)

theorem meters_unaryOf {unary primary : Metered Expr} {unary' primary' : Parser Expr}
    (hunary : Meters same depth (fun _ => -11) 3 unary unary')
    (hprimary : Meters same depth (fun _ => -12) 2 primary primary') :
    Meters same depth (fun _ => -12) 2 (Metered.unaryOf unary primary)
      (unaryOf unary' primary') := by
  refine (meters_afterMark .bang hunary (by decide)).bind (by decide) fun negated => ?_
  cases negated with
  | none => exact hprimary
  | some operand => exact meters_pure (by simp)

theorem meters_primaryOf {arguments body : Metered (List Expr)}
    {parenthesised ifElse : Metered Expr}
    {arguments' body' : Parser (List Expr)} {parenthesised' ifElse' : Parser Expr}
    (harguments : Meters same depth (fun _ => -12) 9 arguments arguments')
    (hparenthesised : Meters same depth (fun _ => -13) 1 parenthesised parenthesised')
    (hbody : Meters same depth (fun _ => -13) 1 body body')
    (hif : Meters same depth (fun _ => -13) 1 ifElse ifElse') :
    Meters same depth (fun _ => -13) 1 (Metered.primaryOf arguments parenthesised body ifElse)
      (primaryOf arguments' parenthesised' body' ifElse') := by
  refine meters_peek.look (by decide) fun next => ?_
  cases next with
  | none => exact meters_fail _ (by decide)
  | some token =>
    cases token with
    | int n => exact meters_advance.bind (by decide) fun _ => meters_pure (by decide)
    | string text => exact meters_advance.bind (by decide) fun _ => meters_pure (by decide)
    | bool b => exact meters_advance.bind (by decide) fun _ => meters_pure (by decide)
    | name name =>
      refine meters_advance.bind (by decide) fun _ => ?_
      refine (meters_afterMark .openParen harguments (by decide)).bind (by decide) fun args => ?_
      cases args with
      | some args => exact meters_pure (by simp)
      | none => exact meters_pure (by simp)
    | mark mark =>
      cases mark with
      | openParen => exact hparenthesised
      | openBrace => exact hbody.bind (by decide) fun es => meters_pure (by decide)
      | ifWord => exact hif
      | _ => exact meters_fail _ (by decide)

theorem meters_parenthesisedOf {expr : Metered Expr} {expr' : Parser Expr}
    (hexpr : Meters same depth (fun _ => -2) 8 expr expr') :
    Meters same depth (fun _ => -14) 0 (Metered.parenthesisedOf expr) (parenthesisedOf expr') := by
  have hnext : Meters same depth (found (-15)) 0 (Metered.nextItem expr) (nextItem expr') := by
    refine (meters_isAtMark .comma).look (by decide) fun here => ?_
    cases here with
    | false => exact meters_pure (by decide)
    | true =>
      refine meters_advance.bind (by decide) fun _ => ?_
      refine (meters_isAtMark .closeParen).look (by decide) fun last => ?_
      cases last with
      | true => exact meters_pure (by decide)
      | false => exact (hexpr.mono (fun _ => by simp) (by decide)).map some
  have hunit : Meters same depth (fun _ => 0) 0 (pure ()) (pure ()) := meters_pure (Int.le_refl 0)
  have hclose := meters_afterMark .closeParen hunit (by decide)
  refine (meters_expectMark .openParen).bind (by decide) fun _ => ?_
  refine hclose.bind (by decide) fun closed => ?_
  cases closed with
  | some _ => exact meters_pure (by simp)
  | none =>
    refine hexpr.bind (by simp) fun first => ?_
    refine hclose.bind (by simp) fun closed => ?_
    cases closed with
    | some _ => exact meters_pure (by simp)
    | none =>
      refine (meters_many hnext (by decide)).bind (by simp) fun others => ?_
      exact (meters_expectMark .closeParen).bind (by simp) fun _ => meters_pure (by simp)

theorem meters_ifElseOf {expr ifElse : Metered Expr} {body : Metered (List Expr)}
    {expr' ifElse' : Parser Expr} {body' : Parser (List Expr)}
    (hexpr : Meters same depth (fun _ => -2) 8 expr expr')
    (hbody : Meters same depth (fun _ => -13) 1 body body')
    (hif : Meters same depth (fun _ => -13) 1 ifElse ifElse') :
    Meters same depth (fun _ => -14) 0 (Metered.ifElseOf expr body ifElse)
      (ifElseOf expr' body' ifElse') := by
  have helse : Meters same depth (fun _ => -13) 1 (Metered.elseOf body ifElse)
      (elseOf body' ifElse') := by
    refine (meters_isAtMark .ifWord).look (by decide) fun here => ?_
    cases here with
    | true => exact hif.bind (by decide) fun e => meters_pure (by decide)
    | false => exact hbody
  refine (meters_expectMark .ifWord).bind (by decide) fun _ => ?_
  refine hexpr.bind (by decide) fun condition => ?_
  refine hbody.bind (by decide) fun thenBody => ?_
  refine (meters_afterMark .elseWord helse (by decide)).bind (by decide) fun elseBody => ?_
  refine meters_pure ?_
  cases elseBody <;> simp

/-! ## The recursion -/

/-- The accounts of the rules: the metered rules have the budget `b`, the others `b'`. -/
structure MeteredRules (same : Prop) (b b' : Nat) : Prop where
  body : Meters same (b + 1) (fun _ => -13) 1 (Metered.body b) (body b')
  statement : Meters same (b + 1) (fun _ => -1) 9 (Metered.statement b) (statement b')
  expr : Meters same (b + 1) (fun _ => -2) 8 (Metered.expr b) (expr b')
  conjunction : Meters same (b + 1) (fun _ => -4) 7 (Metered.conjunction b) (conjunction b')
  comparison : Meters same (b + 1) (fun _ => -6) 6 (Metered.comparison b) (comparison b')
  sum : Meters same (b + 1) (fun _ => -7) 5 (Metered.sum b) (sum b')
  term : Meters same (b + 1) (fun _ => -9) 4 (Metered.term b) (term b')
  termFrom (first : Expr) :
    Meters same (b + 1) (fun _ => 2) 2 (Metered.termFrom b first) (termFrom b' first)
  unary : Meters same (b + 1) (fun _ => -11) 3 (Metered.unary b) (unary b')
  primary : Meters same (b + 1) (fun _ => -12) 2 (Metered.primary b) (primary b')
  arguments : Meters same (b + 1) (fun _ => -12) 9 (Metered.arguments b) (arguments b')
  parenthesised : Meters same (b + 1) (fun _ => -13) 1 (Metered.parenthesised b) (parenthesised b')
  ifElse : Meters same (b + 1) (fun _ => -13) 1 (Metered.ifElse b) (ifElse b')

theorem meteredRules_zero {b' : Nat} (hsame : same → 0 = b') : MeteredRules same 0 b' := by
  constructor <;> intros <;> refine meters_tooDeep (by decide) (by decide) fun h => ?_ <;>
    rw [← hsame h] <;> rfl

/-- A statement that is refused could not have come to more than its rank. -/
theorem meters_statement {b b' : Nat} (hle : b ≤ b') (hsame : same → b = b')
    (hexpr : Meters same (b + 1) (fun _ => -2) 8 (Metered.expr b) (expr b')) :
    Meters same (b + 2) (fun _ => -1) 9 (Metered.statement (b + 1)) (statement (b' + 1)) := by
  rw [Metered.statement]
  by_cases hroom : b < descent
  · rw [if_pos hroom]
    have hrank : b < 7 := hroom
    refine meters_tooDeep (by omega) (by decide) fun h => ?_
    rw [← hsame h, statement, if_pos hroom]
  · rw [if_neg hroom, statement, if_neg (by omega)]
    exact (meters_statementOf hexpr).counted

theorem MeteredRules.succ {b b' : Nat} (hle : b ≤ b') (hsame : same → b = b')
    (h : MeteredRules same b b') : MeteredRules same (b + 1) (b' + 1) where
  body := (meters_bodyOf h.statement).counted
  statement := meters_statement hle hsame h.expr
  expr := (meters_conditionalChain _ _ h.conjunction (by decide) (by decide) (by decide)).counted
  conjunction :=
    (meters_conditionalChain _ _ h.comparison (by decide) (by decide) (by decide)).counted
  comparison := (meters_comparisonOf h.sum).counted
  sum := (meters_sumOf h.term h.termFrom).counted
  term := (meters_termOf h.unary).counted
  termFrom first := (meters_termFromOf h.unary first).counted
  unary := (meters_unaryOf h.unary h.primary).counted
  primary := (meters_primaryOf h.arguments h.parenthesised h.body h.ifElse).counted
  arguments := (meters_commaSeparated h.expr (by decide) (by decide) (by decide)).counted
  parenthesised := (meters_parenthesisedOf h.expr).counted
  ifElse := (meters_ifElseOf h.expr h.body h.ifElse).counted

/-- A larger budget makes no difference until the smaller one is used up. -/
theorem meteredRules {b b' : Nat} (hle : b ≤ b') (hsame : same → b = b') :
    MeteredRules same b b' := by
  induction b generalizing b' with
  | zero => exact meteredRules_zero hsame
  | succ b ih =>
    obtain ⟨b', rfl⟩ := Nat.exists_eq_add_one_of_ne_zero (Nat.ne_of_gt (Nat.zero_lt_of_lt hle))
    have hle := Nat.le_of_succ_le_succ hle
    have hsame := fun h => Nat.succ.inj (hsame h)
    exact (ih hle hsame).succ hle hsame

/-- A rule outside of that recursion, from what it does when it has some budget. -/
theorem meters_budgeted {rule : Nat → Metered α} {rule' : Nat → Parser α} {ok : α → Int}
    {err : Int} (hmetered : rule 0 = Metered.tooDeep) (hplain : rule' 0 = tooDeep)
    (herr : 1 ≤ err) (hsucc : ∀ b b', b ≤ b' → (same → b = b') →
      Meters same (b + 2) ok err (rule (b + 1)) (rule' (b' + 1)))
    {b b' : Nat} (hle : b ≤ b') (hsame : same → b = b') :
    Meters same (b + 1) ok err (rule b) (rule' b') := by
  cases b with
  | zero =>
    rw [hmetered]
    refine meters_tooDeep (by omega) herr fun h => ?_
    rw [← hsame h, hplain]
  | succ b =>
    obtain ⟨b', rfl⟩ := Nat.exists_eq_add_one_of_ne_zero (Nat.ne_of_gt (Nat.zero_lt_of_lt hle))
    exact hsucc b b' (Nat.le_of_succ_le_succ hle) fun h => Nat.succ.inj (hsame h)

theorem meters_function {b b' : Nat} (hle : b ≤ b') (hsame : same → b = b') :
    Meters same (b + 1) (fun _ => -13) 1 (Metered.function b) (function b') :=
  meters_budgeted rfl rfl (by decide)
    (fun _ _ hle hsame => (meters_functionOf (meteredRules hle hsame).body).counted) hle hsame

theorem meters_program {b b' : Nat} (hle : b ≤ b') (hsame : same → b = b') :
    Meters same (b + 1) (fun _ => 3) 4 (Metered.program b) (program b') :=
  meters_budgeted rfl rfl (by decide)
    (fun _ _ hle hsame => (meters_programOf (meters_function hle hsame)).counted) hle hsame

/-! ## What the meter shows -/

variable {ok : α → Int} {err : Int} {m : Meter} {ts : List Token} {ending : Option ReadError}
  {metered : EStateM.Result Meter.Stop Meter α} {plain plain' : EStateM.Result ReadError Cursor α}

/-- With the same budget the meter shows what the parser does. -/
theorem Tallies.exists_record (h : Tallies True depth ok err m ts ending metered plain)
    (hok : ∀ a, ok a ≤ err) :
    ∃ steps : Nat, steps ≤ m.steps + 13 * (ts.length : Int) + err ∧
      metered = Meter.record m.rounds steps plain := by
  cases h with
  | @ok a _ _ steps _ _ _ hcost =>
    have hless := hok a
    exact ⟨steps, by omega, rfl⟩
  | @error _ _ steps _ hcost => exact ⟨steps, hcost, rfl⟩
  | @deep _ steps _ _ _ hcost hfails =>
    refine ⟨steps, hcost, ?_⟩
    rw [hfails trivial]
    rfl

theorem Tallies.depth_le {position : Nat} {c' : Cursor}
    (h : Tallies same depth ok err m ts ending metered (.error (.nestedTooDeeply position) c')) :
    depth ≤ 13 * (ts.length : Int) + err := by
  cases h with
  | error hdeep _ => exact absurd rfl (hdeep _)
  | deep hdepth _ _ => exact hdepth

/-- What a parser comes to that has a larger budget than the meter was told. -/
theorem Tallies.eq_of_larger (h : Tallies True depth ok err m ts ending metered plain)
    (h' : Tallies False depth ok err m ts ending metered plain') :
    (∃ position c', plain = .error (.nestedTooDeeply position) c') ∨ plain' = plain := by
  cases h with
  | ok =>
    cases h' with
    | ok => exact Or.inr rfl
  | error hdeep _ =>
    cases h' with
    | error => exact Or.inr rfl
    | deep => exact absurd rfl (hdeep _)
  | deep _ _ hfails => exact Or.inl ⟨_, _, hfails trivial⟩

end Parser

/-! ## Requests -/

namespace Request

/-- The metered parser that answers; the primitives count nothing. -/
def metered (budget : Nat) : (q : Request) → Metered q.Answer
  | .skipSemicolons => Metered.skipSemicolons
  | .program => Metered.program budget
  | .function => Metered.function budget
  | .param => Metered.param
  | .body => Metered.body budget
  | .statement => Metered.statement budget
  | .expr => Metered.expr budget
  | .conjunction => Metered.conjunction budget
  | .comparison => Metered.comparison budget
  | .sum => Metered.sum budget
  | .term => Metered.term budget
  | .termFrom first => Metered.termFrom budget first
  | .unary => Metered.unary budget
  | .primary => Metered.primary budget
  | .arguments => Metered.arguments budget
  | .parenthesised => Metered.parenthesised budget
  | .ifElse => Metered.ifElse budget
  | q => Metered.read (q.parser budget)

/-- The request is for a rule, or for semicolons to be skipped. -/
def Descends (q : Request) : Prop :=
  q.isRule = true ∨ q = .skipSemicolons

/-- A rule that does not answer without having taken a token.  A program may be empty, and what
follows the first factor of a term. -/
def takesToken : Request → Bool
  | .program | .termFrom _ => false
  | q => q.isRule

variable {q : Request} {same : Prop}

theorem meters {b b' : Nat} (hq : q.Descends) (hle : b ≤ b') (hsame : same → b = b') :
    Parser.Meters same (b + 1) (fun _ => 3) 9 (q.metered b) (q.parser b') := by
  have hrules := Parser.meteredRules hle hsame
  -- each rule has its own account, and none is larger
  have hwithin : ∀ {α : Type} {x err : Int} {p : Metered α} {p' : Parser α},
      Parser.Meters same (b + 1) (fun _ => x) err p p' → x ≤ 3 → err ≤ 9 →
      Parser.Meters same (b + 1) (fun _ => 3) 9 p p' := fun h hx herr => h.mono (fun _ => hx) herr
  cases q with
  | peekAhead | isAt | position | advance | expect => rcases hq with hq | hq <;> cases hq
  | skipSemicolons => exact hwithin Parser.meters_skipSemicolons (by decide) (by decide)
  | program => exact hwithin (Parser.meters_program hle hsame) (by decide) (by decide)
  | function => exact hwithin (Parser.meters_function hle hsame) (by decide) (by decide)
  | param => exact hwithin Parser.meters_param (by decide) (by decide)
  | body => exact hwithin hrules.body (by decide) (by decide)
  | statement => exact hwithin hrules.statement (by decide) (by decide)
  | expr => exact hwithin hrules.expr (by decide) (by decide)
  | conjunction => exact hwithin hrules.conjunction (by decide) (by decide)
  | comparison => exact hwithin hrules.comparison (by decide) (by decide)
  | sum => exact hwithin hrules.sum (by decide) (by decide)
  | term => exact hwithin hrules.term (by decide) (by decide)
  | termFrom first => exact hwithin (hrules.termFrom first) (by decide) (by decide)
  | unary => exact hwithin hrules.unary (by decide) (by decide)
  | primary => exact hwithin hrules.primary (by decide) (by decide)
  | arguments => exact hwithin hrules.arguments (by decide) (by decide)
  | parenthesised => exact hwithin hrules.parenthesised (by decide) (by decide)
  | ifElse => exact hwithin hrules.ifElse (by decide) (by decide)

theorem placed (budget : Nat) (hq : q.Descends) : Parser.Placed (q.parser budget) := by
  rcases hq with hrule | rfl
  · exact of_ruleClosed Parser.ruleClosed_placed budget hrule
  · exact Parser.ruleClosed_placed.skipSemicolons

/-- What is read of a rule that takes a token is shorter by one at least. -/
theorem exists_reads (budget : Nat) (h : q.takesToken = true) :
    ∃ R, Parser.Reads (q.parser budget) R ∧
      ∀ ⦃ts a rest⦄, R ts a rest → rest.length < ts.length := by
  have hreads := Parser.readsPhrases budget
  cases q with
  | peekAhead | isAt | position | advance | expect | skipSemicolons => cases h
  | program | termFrom => cases h
  | function => exact ⟨_, Parser.reads_function budget, fun _ _ _ hread => hread.length_lt rfl⟩
  | param => exact ⟨_, Parser.reads_param, fun _ _ _ hread => hread.length_lt rfl⟩
  | body => exact ⟨_, hreads.body, fun _ _ _ hread => hread.length_lt rfl⟩
  | statement => exact ⟨_, hreads.statement, fun _ _ _ hread => hread.length_lt rfl⟩
  | expr => exact ⟨_, hreads.expr, fun _ _ _ hread => hread.length_lt rfl⟩
  | conjunction => exact ⟨_, hreads.conjunction, fun _ _ _ hread => hread.length_lt rfl⟩
  | comparison => exact ⟨_, hreads.comparison, fun _ _ _ hread => hread.length_lt rfl⟩
  | sum => exact ⟨_, hreads.sum, fun _ _ _ hread => hread.length_lt rfl⟩
  | term => exact ⟨_, hreads.term, fun _ _ _ hread => hread.length_lt rfl⟩
  | unary => exact ⟨_, hreads.unary, fun _ _ _ hread => hread.length_lt rfl⟩
  | primary => exact ⟨_, hreads.primary, fun _ _ _ hread => hread.length_lt rfl⟩
  | arguments => exact ⟨_, hreads.arguments, fun _ _ _ hread => hread.length_lt rfl⟩
  | parenthesised => exact ⟨_, hreads.parenthesised, fun _ _ _ hread => hread.length_lt rfl⟩
  | ifElse => exact ⟨_, hreads.ifElse, fun _ _ _ hread => hread.length_lt rfl⟩

/-- A larger budget only makes a difference where the smaller one is used up. -/
theorem eq_of_larger_budget {b b' : Nat} (hq : q.Descends) (hle : b ≤ b') (c : Cursor) :
    (∃ position c', q.parser b c = .error (.nestedTooDeeply position) c') ∨
      q.parser b' c = q.parser b c := by
  obtain ⟨ts, ending, hc⟩ := c.exists_holds
  have hrounds := Nat.lt_succ_self ts.length
  have hsame : Parser.Meters True (b + 1) (fun _ => 3) 9 (q.metered b) (q.parser b) :=
    meters hq (Nat.le_refl b) fun _ => rfl
  have hlarger : Parser.Meters False (b + 1) (fun _ => 3) 9 (q.metered b) (q.parser b') :=
    meters hq hle False.elim
  exact (hsame (m := ⟨c, _, 0⟩) hc hrounds).eq_of_larger (hlarger (m := ⟨c, _, 0⟩) hc hrounds)

end Request

/-! ## Progress and termination -/

/-- What holds of a request that goes down the rules, from a cursor with the outlook `ts` and with
`ending` behind it. -/
structure Proceeds (budget : Nat) (q : Request) (c : Cursor) (ts : List Token)
    (ending : Option ReadError) : Prop where
  /-- It fails at a token or at the end of the text, or with the error of the scanner; or the budget
  is spent. -/
  failed : ∀ e c', q.parser budget c = .error e c' →
    (∃ cause position, e = .grammar cause position) ∨ ending = some e ∨
      (e = .nestedTooDeeply c'.stop ∧ budget < 13 * ts.length + 9)
  /-- If it is answered, tokens were taken off the front and nothing else, and at least one, if it
  is a rule that takes a token. -/
  answered : ∀ a c', q.parser budget c = .ok a c' →
    ∃ read rest, ts = read ++ rest ∧ c'.Holds rest ending ∧ (q.takesToken = true → read ≠ [])
  /-- No loop goes more rounds than there are tokens and one more, and all rules and rounds together
  are so many at most. -/
  steps : ∀ rounds, ts.length < rounds → ∃ steps ≤ 13 * ts.length + 9,
    q.metered budget ⟨c, rounds, 0⟩ = Meter.record rounds steps (q.parser budget c)
  /-- The rules are not nested deeper than that. -/
  nesting : 13 * ts.length + 9 ≤ budget → ∀ budget' ≥ budget, q.parser budget' c = q.parser budget c

theorem Cursor.Holds.proceeds {c : Cursor} {ts : List Token} {ending : Option ReadError}
    (hc : c.Holds ts ending) (budget : Nat) {q : Request} (hq : q.Descends) :
    Proceeds budget q c ts ending := by
  have hmeters : Parser.Meters True (budget + 1) (fun _ => 3) 9 (q.metered budget)
      (q.parser budget) := Request.meters hq (Nat.le_refl _) fun _ => rfl
  have hrecord : ∀ rounds, ts.length < rounds → ∃ steps ≤ 13 * ts.length + 9,
      q.metered budget ⟨c, rounds, 0⟩ = Meter.record rounds steps (q.parser budget c) := by
    intro rounds hrounds
    have htally := hmeters (m := ⟨c, rounds, 0⟩) hc hrounds
    obtain ⟨steps, hsteps, hrun⟩ := htally.exists_record fun _ => by decide
    exact ⟨steps, by dsimp only at hsteps; omega, hrun⟩
  have hfailed : ∀ e c', q.parser budget c = .error e c' →
      (∃ cause position, e = .grammar cause position) ∨ ending = some e ∨
        (e = .nestedTooDeeply c'.stop ∧ budget < 13 * ts.length + 9) := by
    intro e c' hrun
    obtain ⟨places, stop, hfaces, rfl⟩ := hc.exists_faces
    have hends := Request.placed budget hq hfaces
    rw [hrun] at hends
    cases hends with
    | wrong => exact Or.inl ⟨_, _, rfl⟩
    | unreadable hending => exact Or.inr (Or.inl hending)
    | deep =>
      have htally := hmeters (m := ⟨c, _, 0⟩) hc (Nat.lt_succ_self _)
      rw [hrun] at htally
      have hdepth := htally.depth_le
      exact Or.inr (Or.inr ⟨rfl, by omega⟩)
  refine ⟨hfailed, fun a c' hrun => ?_, hrecord, fun hbudget budget' hle => ?_⟩
  · obtain ⟨rest, ⟨read, rfl⟩, hrest⟩ := (Request.placed budget hq).suffix_of_ok hc hrun
    refine ⟨read, rest, rfl, hrest, fun htakes hnil => ?_⟩
    obtain ⟨R, hreads, hless⟩ := Request.exists_reads budget htakes
    obtain ⟨left, hread, hleft⟩ := hreads hc hrun
    obtain ⟨rfl, _⟩ := hleft.unique hrest
    have hlt := hless hread
    rw [hnil] at hlt
    exact absurd hlt (Nat.lt_irrefl _)
  · rcases Request.eq_of_larger_budget hq hle c with ⟨position, c', hrun⟩ | heq
    · rcases hfailed _ _ hrun with ⟨_, _, hgrammar⟩ | hending | ⟨_, hless⟩
      · cases hgrammar
      · exact absurd hending (hc.ending_ne_nestedTooDeeply _)
      · omega
    · exact heq

/-- **Reading goes on, and it ends.**  Whatever tokens are before a cursor, and whatever is behind
them, every rule of the grammar fails with an error of the grammar or with that of the scanner, or
it is read and has taken at least one token; only a program and what follows the first factor of a
term may be empty.  No loop goes round more often than there are tokens and once more, and all
rules that are entered and all rounds that are made are at most thirteen for each token and nine
more.  A budget of that size is never spent, and a larger one changes nothing. -/
theorem reading_goes_on_and_ends (c : Cursor) : ∃ ts ending, c.Holds ts ending ∧
    ∀ budget (q : Request), q.Descends → Proceeds budget q c ts ending := by
  obtain ⟨ts, ending, hc⟩ := c.exists_holds
  exact ⟨ts, ending, hc, fun budget _ => hc.proceeds budget⟩

/-- A body with a tuple that is never closed. -/
def openTuple : List Span :=
  [⟨0, .mark .openBrace, 1⟩, ⟨2, .name "x", 3⟩, ⟨4, .mark .define, 6⟩, ⟨7, .mark .openParen, 8⟩,
    ⟨8, .int 1, 9⟩, ⟨9, .mark .comma, 10⟩]

theorem openTuple_is_given_up :
    (Parser.body 100).result (.ofItems (openTuple.map .token)) =
      .error (.grammar .unexpectedEnd 10) ∧
    (∃ steps ≤ 87, Metered.body 100 ⟨.ofItems (openTuple.map .token), 7, 0⟩ =
      Meter.record 7 steps (Parser.body 100 (.ofItems (openTuple.map .token)))) ∧
    ∀ budget ≥ 100, Parser.body budget (.ofItems (openTuple.map .token)) =
      Parser.body 100 (.ofItems (openTuple.map .token)) := by
  obtain ⟨ts, ending, hc, hall⟩ := reading_goes_on_and_ends (.ofItems (openTuple.map .token))
  obtain ⟨rfl, -⟩ := hc.unique (Cursor.holds_ofItems openTuple)
  have hbody := hall 100 .body (Or.inl rfl)
  exact ⟨by decide +kernel, hbody.steps 7 (by decide), hbody.nesting (by decide)⟩

end Scriptlet
