import Scriptlet.Proofs.Places

/-!
# Counting the steps of reading

A parser is total by construction: a loop is told beforehand how often it may go round, and the
recursion goes down on a budget.  That says nothing about how much is done.  A loop that found
something without taking a token would still stop, because its fuel ran out, and its answer would be
wrong.

Here the rules are written down once more, with a meter.  It counts one step for each rule that is
entered and one for each round of a loop, the round that finds nothing included.  A loop takes its
rounds from the meter; when they are used up it does not answer, and the run is `spent`.  What takes
neither a rule nor a loop is read by the plain parser (`Metered.read`).

## Accounts

`Meters same depth ok err q p` compares a metered parser `q` with a plain parser `p`.  Every token
that is still to come is worth thirteen steps.  An answer `a` may leave steps and tokens together
worth at most `ok a` more than before, and `ok a` is negative where tokens are taken and not used
up; a failure may come to at most `err` above all tokens.  No run is spent as long as the meter has
more rounds than there are tokens: what a step of a loop finds costs less than nothing, so that it
has taken a token.

If the budget runs out, a failure could have come to `depth` steps, as many as the budget allows
rules: they pay for the rules that are open then, and for those that lead down from a statement that
is refused.  In that case `p` is asked to fail in the same way only where `same` holds.  Without it
`p` may have a larger budget; the meter then tells that both parsers do the same until the smaller
budget is used up.

The comparison passes through steps one after the other, through loops and through the counting of
a step.  `Progress` takes it through the rules.
-/

namespace Scriptlet

/-- A cursor with a meter: the rounds that each loop may go, and the steps that were counted. -/
structure Meter where
  cursor : Cursor
  rounds : Nat
  steps : Nat

/-- Why a metered parser does not answer: it fails, or a loop has used up its rounds. -/
inductive Meter.Stop where
  | failed (e : ReadError)
  | spent

/-- What a parser comes to, with what the meter shows then. -/
def Meter.record (rounds steps : Nat) :
    EStateM.Result ReadError Cursor α → EStateM.Result Meter.Stop Meter α
  | .ok a c => .ok a ⟨c, rounds, steps⟩
  | .error e c => .error (.failed e) ⟨c, rounds, steps⟩

/-- A parser that counts its steps. -/
abbrev Metered := EStateM Meter.Stop Meter

namespace Metered

open Scriptlet.Parser (peek peekAhead advance isAtMark expectMark expectName fail)

/-! ## Steps and loops -/

/-- Reads without counting anything. -/
def read (p : Parser α) : Metered α := fun m =>
  Meter.record m.rounds m.steps (p m.cursor)

/-- Counts a step, and then reads. -/
def counted (q : Metered α) : Metered α := fun m =>
  q { m with steps := m.steps + 1 }

/-- Repeats a step while it finds something, and counts the rounds; does not answer when so many
of them are used up. -/
def manyUpTo (step : Metered (Option α)) : (rounds : Nat) → Metered (List α)
  | 0 => throw .spent
  | rounds + 1 => counted do
    match ← step with
    | none => return []
    | some a => return a :: (← manyUpTo step rounds)

/-- Repeats a step until it finds nothing more. -/
def many (step : Metered (Option α)) : Metered (List α) := fun m =>
  manyUpTo step m.rounds m

/-- Consumes the next token if it is a mark, and then reads on. -/
def afterMark (m : Mark) (next : Metered α) : Metered (Option α) := do
  if ← read (isAtMark m) then
    let _ ← read advance
    some <$> next
  else return none

/-- Consumes semicolons. -/
def skipSemicolons : Metered Unit := do
  let _ ← many (afterMark .semicolon (pure ()))

/-! ## The rules, one by one -/

/-- A list of items with commas between them, which may be empty, before a closing parenthesis. -/
def commaSeparated (item : Metered α) : Metered (List α) := do
  if ← read (isAtMark .closeParen) then
    read (expectMark .closeParen)
    return []
  else
    let first ← item
    let others ← many (afterMark .comma item)
    read (expectMark .closeParen)
    return first :: others

/-- A parameter. -/
def param : Metered Param :=
  counted (read Parser.param)

/-- A function definition. -/
def functionOf (body : Metered (List Expr)) : Metered Function := do
  read (expectMark .func)
  let name ← read expectName
  read (expectMark .openParen)
  let params ← commaSeparated param
  return { name, params, body := ← body }

/-- The next function of a program, with the semicolons behind it. -/
def nextFunction (function : Metered Function) : Metered (Option Function) := do
  match ← read peek with
  | none => return none
  | some _ =>
    let f ← function
    skipSemicolons
    return some f

/-- All functions up to the end of the text. -/
def programOf (function : Metered Function) : Metered Program := do
  skipSemicolons
  many (nextFunction function)

/-- The next statement of a body, with the semicolons behind it. -/
def nextStatement (statement : Metered Expr) : Metered (Option Expr) := do
  if ← read (isAtMark .closeBrace) then return none
  else
    let e ← statement
    if ← read (isAtMark .closeBrace) then return some e
    else
      read (expectMark .semicolon)
      skipSemicolons
      return some e

/-- Statements between braces. -/
def bodyOf (statement : Metered Expr) : Metered (List Expr) := do
  read (expectMark .openBrace)
  skipSemicolons
  let statements ← many (nextStatement statement)
  read (expectMark .closeBrace)
  return statements

/-- A declaration, an assignment or an expression. -/
def statementOf (expr : Metered Expr) : Metered Expr := do
  match ← read peek with
  | some (.name name) =>
    match ← read (peekAhead 1) with
    | some (.mark .define) =>
      let _ ← read advance
      let _ ← read advance
      return .declare name (← expr)
    | some (.mark .assign) =>
      let _ ← read advance
      let _ ← read advance
      return .assign name (← expr)
    | _ => expr
  | _ => expr

/-- Operands with one conditional operator between them. -/
def conditionalChain (op : Conditional) (m : Mark) (operand : Metered Expr) : Metered Expr := do
  let first ← operand
  let others ← many (afterMark m operand)
  return others.foldl (Expr.conditional op) first

/-- A sum, or two with a comparison between them. -/
def comparisonOf (sum : Metered Expr) : Metered Expr := do
  let left ← sum
  match (← read peek).bind Parser.comparison? with
  | none => return left
  | some op =>
    let _ ← read advance
    return .binary op left (← sum)

/-- The next operator of a chain and its operand. -/
def nextOperand (operator? : Token → Option Operator) (operand : Metered Expr) :
    Metered (Option (Operator × Expr)) := do
  match (← read peek).bind operator? with
  | none => return none
  | some op =>
    let _ ← read advance
    return some (op, ← operand)

/-- The next summand: after a sign, or a term that begins with a negative integer. -/
def nextSummand (term : Metered Expr) (termFrom : Expr → Metered Expr) :
    Metered (Option (Operator × Expr)) := do
  match ← read peek with
  | some (.int n) =>
    if n < 0 then
      let _ ← read advance
      return some (.add, ← termFrom (.lit (.int n)))
    else return none
  | _ => nextOperand Parser.additive? term

/-- Terms with signs between them. -/
def sumOf (term : Metered Expr) (termFrom : Expr → Metered Expr) : Metered Expr := do
  let first ← term
  return Parser.applyChain first (← many (nextSummand term termFrom))

/-- What follows the first factor of a term. -/
def termFromOf (unary : Metered Expr) (first : Expr) : Metered Expr := do
  return Parser.applyChain first (← many (nextOperand Parser.multiplicative? unary))

/-- A primary expression behind any number of exclamation marks. -/
def unaryOf (unary primary : Metered Expr) : Metered Expr := do
  match ← afterMark .bang unary with
  | some operand => return .not operand
  | none => primary

/-- An expression that no operator stands in, outside of brackets. -/
def primaryOf (arguments : Metered (List Expr)) (parenthesised : Metered Expr)
    (body : Metered (List Expr)) (ifElse : Metered Expr) : Metered Expr := do
  match ← read peek with
  | none => read (fail .unexpectedEnd)
  | some (.int n) =>
    let _ ← read advance
    return .lit (.int n)
  | some (.string text) =>
    let _ ← read advance
    return .lit (.string text)
  | some (.bool b) =>
    let _ ← read advance
    return .lit (.bool b)
  | some (.name name) =>
    let _ ← read advance
    match ← afterMark .openParen arguments with
    | some args => return .call name args
    | none => return .name name
  | some (.mark .openParen) => parenthesised
  | some (.mark .openBrace) => return .block (← body)
  | some (.mark .ifWord) => ifElse
  | some token => read (fail (.unexpected token))

/-- The next item of a tuple; a comma before the closing parenthesis is passed over. -/
def nextItem (expr : Metered Expr) : Metered (Option Expr) := do
  if ← read (isAtMark .comma) then
    let _ ← read advance
    if ← read (isAtMark .closeParen) then return none
    else some <$> expr
  else return none

/-- A grouped expression or a tuple. -/
def parenthesisedOf (expr : Metered Expr) : Metered Expr := do
  read (expectMark .openParen)
  match ← afterMark .closeParen (pure ()) with
  | some () => return .tuple []
  | none =>
    let first ← expr
    match ← afterMark .closeParen (pure ()) with
    | some () => return first
    | none =>
      let others ← many (nextItem expr)
      read (expectMark .closeParen)
      return .tuple (first :: others)

/-- What stands behind `else`. -/
def elseOf (body : Metered (List Expr)) (ifElse : Metered Expr) : Metered (List Expr) := do
  if ← read (isAtMark .ifWord) then return [← ifElse]
  else body

/-- A condition and one or two bodies. -/
def ifElseOf (expr : Metered Expr) (body : Metered (List Expr)) (ifElse : Metered Expr) :
    Metered Expr := do
  read (expectMark .ifWord)
  let condition ← expr
  let thenBody ← body
  let elseBody ← afterMark .elseWord (elseOf body ifElse)
  return .ifElse condition thenBody (elseBody.getD [])

/-! ## The recursion -/

/-- A rule that is entered without budget; entering it counts. -/
def tooDeep : Metered α :=
  counted (read Parser.tooDeep)

mutual

/-- Statements between braces. -/
def body : (budget : Nat) → Metered (List Expr)
  | 0 => tooDeep
  | n + 1 => counted (bodyOf (statement n))

/-- A declaration, an assignment or an expression. -/
def statement : (budget : Nat) → Metered Expr
  | 0 => tooDeep
  | n + 1 => if n < Parser.descent then tooDeep else counted (statementOf (expr n))

/-- An expression. -/
def expr : (budget : Nat) → Metered Expr
  | 0 => tooDeep
  | n + 1 => counted (conditionalChain .or .orOr (conjunction n))

/-- An expression without `||` outside of brackets. -/
def conjunction : (budget : Nat) → Metered Expr
  | 0 => tooDeep
  | n + 1 => counted (conditionalChain .and .andAnd (comparison n))

/-- A sum, or a comparison of two. -/
def comparison : (budget : Nat) → Metered Expr
  | 0 => tooDeep
  | n + 1 => counted (comparisonOf (sum n))

/-- A sum of terms. -/
def sum : (budget : Nat) → Metered Expr
  | 0 => tooDeep
  | n + 1 => counted (sumOf (term n) (termFrom n))

/-- A product of factors. -/
def term : (budget : Nat) → Metered Expr
  | 0 => tooDeep
  | n + 1 => counted (unary n >>= termFromOf (unary n))

/-- A product whose first factor is known. -/
def termFrom : (budget : Nat) → Expr → Metered Expr
  | 0, _ => tooDeep
  | n + 1, first => counted (termFromOf (unary n) first)

/-- A negated or a primary expression. -/
def unary : (budget : Nat) → Metered Expr
  | 0 => tooDeep
  | n + 1 => counted (unaryOf (unary n) (primary n))

/-- A primary expression. -/
def primary : (budget : Nat) → Metered Expr
  | 0 => tooDeep
  | n + 1 => counted (primaryOf (arguments n) (parenthesised n) (body n) (ifElse n))

/-- The arguments of a call, behind the opening parenthesis. -/
def arguments : (budget : Nat) → Metered (List Expr)
  | 0 => tooDeep
  | n + 1 => counted (commaSeparated (expr n))

/-- A grouped expression or a tuple. -/
def parenthesised : (budget : Nat) → Metered Expr
  | 0 => tooDeep
  | n + 1 => counted (parenthesisedOf (expr n))

/-- A condition. -/
def ifElse : (budget : Nat) → Metered Expr
  | 0 => tooDeep
  | n + 1 => counted (ifElseOf (expr n) (body n) (ifElse n))

end

/-- A function definition. -/
def function : (budget : Nat) → Metered Function
  | 0 => tooDeep
  | n + 1 => counted (functionOf (body n))

/-- A program. -/
def program : (budget : Nat) → Metered Program
  | 0 => tooDeep
  | n + 1 => counted (programOf (function n))

end Metered

/-! ## Accounts -/

namespace Parser

variable {α β : Type}

/-- What a metered parser and a parser come to, from a meter `m` and the outlook `ts`. -/
inductive Tallies (same : Prop) (depth : Nat) (ok : α → Int) (err : Int) (m : Meter)
    (ts : List Token) (ending : Option ReadError) :
    EStateM.Result Meter.Stop Meter α → EStateM.Result ReadError Cursor α → Prop
  | ok {a : α} {c' : Cursor} {rest : List Token} {steps : Nat} :
    c'.Holds rest ending → rest.length ≤ ts.length → m.steps ≤ steps →
    steps + 13 * (rest.length : Int) ≤ m.steps + 13 * (ts.length : Int) + ok a →
    Tallies same depth ok err m ts ending (.ok a ⟨c', m.rounds, steps⟩) (.ok a c')
  | error {e : ReadError} {c' : Cursor} {steps : Nat} :
    (∀ position, e ≠ .nestedTooDeeply position) →
    steps ≤ m.steps + 13 * (ts.length : Int) + err →
    Tallies same depth ok err m ts ending (.error (.failed e) ⟨c', m.rounds, steps⟩) (.error e c')
  | deep {position steps : Nat} {c' : Cursor} {result : EStateM.Result ReadError Cursor α} :
    depth ≤ 13 * (ts.length : Int) + err → steps ≤ m.steps + 13 * (ts.length : Int) + err →
    (same → result = .error (.nestedTooDeeply position) c') →
    Tallies same depth ok err m ts ending
      (.error (.failed (.nestedTooDeeply position)) ⟨c', m.rounds, steps⟩) result

/-- The metered parser does what the parser does, within these accounts. -/
def Meters (same : Prop) (depth : Nat) (ok : α → Int) (err : Int) (q : Metered α)
    (p : Parser α) : Prop :=
  ∀ ⦃m : Meter⦄ ⦃ts : List Token⦄ ⦃ending : Option ReadError⦄, m.cursor.Holds ts ending →
    ts.length < m.rounds → Tallies same depth ok err m ts ending (q m) (p m.cursor)

variable {same : Prop} {depth : Nat} {ok : α → Int} {err : Int} {q : Metered α} {p : Parser α}
  {m : Meter} {ts : List Token} {ending : Option ReadError}

/-- Accounts may be drawn up more generously. -/
theorem Tallies.mono {depth' : Nat} {ok' : α → Int} {err' : Int}
    {metered : EStateM.Result Meter.Stop Meter α} {plain : EStateM.Result ReadError Cursor α}
    (h : Tallies same depth ok err m ts ending metered plain) (hdepth : depth' ≤ depth)
    (hok : ∀ a, ok a ≤ ok' a) (herr : err ≤ err') :
    Tallies same depth' ok' err' m ts ending metered plain := by
  cases h with
  | @ok a _ _ _ hrest hle hmore hcost =>
    have hlarger := hok a
    exact .ok hrest hle hmore (by omega)
  | error hdeep hcost => exact .error hdeep (by omega)
  | deep hdepth' hcost hsame => exact .deep (by omega) (by omega) hsame

theorem Meters.mono {ok' : α → Int} {err' : Int} (h : Meters same depth ok err q p)
    (hok : ∀ a, ok a ≤ ok' a) (herr : err ≤ err') : Meters same depth ok' err' q p :=
  fun _ _ _ hts hrounds => (h hts hrounds).mono (Nat.le_refl _) hok herr

theorem meters_pure {a : α} (h : 0 ≤ ok a) : Meters same depth ok err (pure a) (pure a) :=
  fun _ _ _ hts _ => .ok hts (Nat.le_refl _) (Nat.le_refl _) (by omega)

/-- Two steps one after the other: what the first has left over is there for the second. -/
theorem Tallies.bind {x : α → Int} {first : Int} {ok : β → Int} {g : α → Metered β}
    {f : α → Parser β} (hp : Tallies same depth x first m ts ending (q m) (p m.cursor))
    (hfirst : first ≤ err)
    (hf : ∀ (a : α) (m' : Meter) (rest : List Token), m'.cursor.Holds rest ending →
      m'.rounds = m.rounds → rest.length ≤ ts.length →
      13 * (rest.length : Int) ≤ 13 * (ts.length : Int) + x a →
      Tallies same depth (fun b => ok b - x a) (err - x a) m' rest ending (g a m')
        (f a m'.cursor)) :
    Tallies same depth ok err m ts ending ((q >>= g) m) ((p >>= f) m.cursor) := by
  show Tallies same depth ok err m ts ending (EStateM.bind q g m) (EStateM.bind p f m.cursor)
  rw [EStateM.bind, EStateM.bind]
  generalize q m = metered, p m.cursor = plain at hp
  cases hp with
  | @ok a c' rest steps hrest hle hmore hcost =>
    have hnext := hf a ⟨c', m.rounds, steps⟩ rest hrest rfl hle (by omega)
    dsimp only at hnext ⊢
    generalize g a _ = metered, f a c' = plain at hnext
    cases hnext with
    | ok hrest' hle' hmore' hcost' =>
      exact .ok hrest' (hle'.trans hle) (hmore.trans hmore') (by dsimp only at hcost'; omega)
    | error hdeep hcost' => exact .error hdeep (by dsimp only at hcost'; omega)
    | deep hdepth hcost' hsame =>
      exact .deep (by omega) (by dsimp only at hcost'; omega) hsame
  | error hdeep hcost => exact .error hdeep (by omega)
  | deep hdepth hcost hsame =>
    exact .deep (by omega) (by omega) fun h => by rw [hsame h]

theorem Meters.bind {x : α → Int} {first : Int} {ok : β → Int} {g : α → Metered β}
    {f : α → Parser β} (hp : Meters same depth x first q p) (hfirst : first ≤ err)
    (hf : ∀ a, Meters same depth (fun b => ok b - x a) (err - x a) (g a) (f a)) :
    Meters same depth ok err (q >>= g) (p >>= f) := by
  intro m ts ending hts hrounds
  refine (hp hts hrounds).bind hfirst fun a m' rest hrest hsame hle _ => hf a hrest ?_
  exact hsame ▸ Nat.lt_of_le_of_lt hle hrounds

/-- A step that costs nothing leaves the accounts as they are. -/
theorem Meters.look {ok : β → Int} {g : α → Metered β} {f : α → Parser β}
    (hp : Meters same depth (fun _ => 0) 0 q p) (herr : 0 ≤ err)
    (hf : ∀ a, Meters same depth ok err (g a) (f a)) :
    Meters same depth ok err (q >>= g) (p >>= f) :=
  hp.bind herr fun a => (hf a).mono (fun _ => by omega) (by omega)

theorem Meters.map {ok : β → Int} (f : α → β) (hp : Meters same depth (fun a => ok (f a)) err q p) :
    Meters same depth ok err (f <$> q) (f <$> p) := by
  rw [map_eq_pure_bind, map_eq_pure_bind]
  exact hp.bind (Int.le_refl _) fun a => meters_pure (by omega)

theorem Tallies.counted {plain : EStateM.Result ReadError Cursor α}
    (h : Tallies same depth ok err { m with steps := m.steps + 1 } ts ending
      (q { m with steps := m.steps + 1 }) plain) :
    Tallies same (depth + 1) (fun a => ok a + 1) (err + 1) m ts ending (Metered.counted q m)
      plain := by
  rw [Metered.counted]
  generalize q _ = metered at h
  cases h with
  | ok hrest hle hmore hcost =>
    dsimp only at hmore hcost
    exact .ok hrest hle (by omega) (by omega)
  | error hdeep hcost =>
    dsimp only at hcost
    exact .error hdeep (by omega)
  | deep hdepth hcost hsame =>
    dsimp only at hcost
    exact .deep (by push_cast; omega) (by omega) hsame

theorem Meters.counted (h : Meters same depth ok err q p) :
    Meters same (depth + 1) (fun a => ok a + 1) (err + 1) (Metered.counted q) p :=
  fun m _ _ hts hrounds => (h (m := { m with steps := m.steps + 1 }) hts hrounds).counted

/-- Entering a rule without budget counts one step; the parser it stands for may have some. -/
theorem meters_tooDeep (hdepth : depth ≤ err) (herr : 1 ≤ err) (hsame : same → p = tooDeep) :
    Meters same depth ok err Metered.tooDeep p := by
  intro m ts ending hts hrounds
  refine .deep (by omega) (by push_cast; omega) fun h => ?_
  rw [hsame h]
  rfl

/-! ## Steps that count nothing -/

/-- The parser does not fail for the nesting. -/
def Shallow (p : Parser α) : Prop :=
  ∀ ⦃c c' : Cursor⦄ ⦃position : Nat⦄, p c ≠ .error (.nestedTooDeeply position) c'

theorem shallow_pure (a : α) : Shallow (pure a : Parser α) := fun _ _ _ h => by cases h

theorem Shallow.bind {f : α → Parser β} (hp : Shallow p) (hf : ∀ a, Shallow (f a)) :
    Shallow (p >>= f) := by
  intro c c' position h
  rcases cases_of_bind_eq_error h with hfirst | ⟨a, mid, _, hsecond⟩
  · exact hp hfirst
  · exact hf a hsecond

theorem shallow_fill (count : Nat) : Shallow (fill count) := by
  have hdraw : Shallow draw := by
    intro c c' position h
    rw [draw] at h
    split at h <;> cases h
  have hdrawUpTo : ∀ count, Shallow (drawUpTo count) := by
    intro count
    induction count with
    | zero => exact shallow_pure ()
    | succ count ih =>
      refine hdraw.bind fun drawn => ?_
      cases drawn with
      | true => exact ih
      | false => exact shallow_pure ()
  exact fun c c' => @hdrawUpTo (count - c.buffer.length) c c'

theorem shallow_peekAhead (ahead : Nat) : Shallow (peekAhead ahead) :=
  (shallow_fill _).bind fun _ _ _ _ h => by cases h

theorem shallow_isAtMark (mark : Mark) : Shallow (isAtMark mark) :=
  (shallow_peekAhead 0).bind fun _ => shallow_pure _

theorem shallow_advance : Shallow advance := by
  refine (shallow_fill 1).bind fun _ c c' position h => ?_
  rw [consume] at h
  split at h <;> cases h

theorem shallow_fail (cause : ReadError.Cause) : Shallow (fail cause : Parser α) := by
  have hposition : Shallow position := by
    intro c c' place h
    cases hfill : fill 1 c with
    | ok _ mid =>
      rw [position_of_fill hfill] at h
      cases h
    | error e mid =>
      rw [position, bind_of_error hfill] at h
      cases h
      exact shallow_fill 1 hfill
  exact hposition.bind fun _ _ _ _ h => by cases h

theorem shallow_expectBy (kind : Token.Kind) (accept : Token → Option α) :
    Shallow (expectBy kind accept) := by
  refine (shallow_peekAhead 0).bind fun next => ?_
  cases next.bind accept with
  | none => exact shallow_fail _
  | some a => exact shallow_advance.bind fun _ => shallow_pure a

theorem shallow_expectMark (mark : Mark) : Shallow (expectMark mark) :=
  (shallow_expectBy _ _).bind fun _ => shallow_pure ()

/-- A parser that is read without counting costs nothing, and is worth the tokens it takes. -/
theorem meters_read {R : List Token → α → List Token → Prop} (hshallow : Shallow p)
    (hreads : Reads p R)
    (hworth : ∀ ⦃ts a rest⦄, R ts a rest → rest.length ≤ ts.length ∧
      13 * (rest.length : Int) ≤ 13 * (ts.length : Int) + ok a)
    (herr : 0 ≤ err) : Meters same depth ok err (Metered.read p) p := by
  intro m ts ending hts _
  rw [Metered.read]
  cases hrun : p m.cursor with
  | ok a c' =>
    obtain ⟨rest, hread, hrest⟩ := hreads hts hrun
    obtain ⟨hle, hcost⟩ := hworth hread
    exact .ok hrest hle (Nat.le_refl _) (by omega)
  | error e c' => exact .error (fun position h => hshallow (h ▸ hrun)) (by omega)

theorem meters_peekAhead (ahead : Nat) :
    Meters same depth (fun _ => 0) 0 (Metered.read (peekAhead ahead)) (peekAhead ahead) :=
  meters_read (shallow_peekAhead ahead) (reads_peekAhead ahead)
    (by rintro ts a rest ⟨_, rfl⟩; omega) (Int.le_refl 0)

theorem meters_peek : Meters same depth (fun _ => 0) 0 (Metered.read peek) peek :=
  meters_peekAhead 0

theorem meters_isAtMark (mark : Mark) :
    Meters same depth (fun _ => 0) 0 (Metered.read (isAtMark mark)) (isAtMark mark) :=
  meters_read (shallow_isAtMark mark) (reads_isAtMark mark)
    (by rintro ts a rest ⟨_, rfl⟩; omega) (Int.le_refl 0)

theorem meters_advance : Meters same depth (fun _ => -13) 0 (Metered.read advance) advance :=
  meters_read shallow_advance reads_advance
    (by rintro ts a rest rfl; rw [List.length_cons]; omega) (Int.le_refl 0)

theorem meters_expectMark (mark : Mark) :
    Meters same depth (fun _ => -13) 0 (Metered.read (expectMark mark)) (expectMark mark) :=
  meters_read (shallow_expectMark mark) (reads_expectMark mark)
    (by rintro ts a rest rfl; rw [List.length_cons]; omega) (Int.le_refl 0)

theorem meters_expectName :
    Meters same depth (fun _ => -13) 0 (Metered.read expectName) expectName :=
  meters_read (shallow_expectBy _ _) reads_expectName
    (by rintro ts a rest rfl; rw [List.length_cons]; omega) (Int.le_refl 0)

theorem meters_fail (cause : ReadError.Cause) (herr : 0 ≤ err) :
    Meters same depth ok err (Metered.read (fail cause)) (fail cause) :=
  meters_read (R := fun _ _ _ => False) (shallow_fail cause)
    (fun _ _ _ _ _ _ hrun => absurd hrun fail_ne_ok) (fun _ _ _ h => h.elim) herr

/-! ## Loops -/

/-- The account of a step that may find nothing: then it is worth nothing. -/
def found (x : Int) (o : Option α) : Int :=
  o.elim 0 fun _ => x

@[simp] theorem found_none (x : Int) : found x (none : Option α) = 0 := rfl

@[simp] theorem found_some (x : Int) (a : α) : found x (some a) = x := rfl

theorem meters_afterMark (mark : Mark) {x next : Int} (h : Meters same depth (fun _ => x) next q p)
    (hnext : next ≤ 13) :
    Meters same depth (found (x - 13)) 0 (Metered.afterMark mark q) (afterMark mark p) := by
  refine (meters_isAtMark mark).look (Int.le_refl 0) fun here => ?_
  cases here with
  | false => exact meters_pure (by simp)
  | true =>
    refine meters_advance.bind (by simp) fun _ => ?_
    exact (h.mono (fun a => by simp) (by omega)).map some

section Loops

variable {step : Metered (Option α)} {step' : Parser (Option α)}

/-- One round of a loop, if the rounds that follow stay within their accounts. -/
theorem tallies_round (more : Metered (List α)) (more' : Parser (List α))
    (hstep : Meters same depth (found (-1)) err step step') (hts : m.cursor.Holds ts ending)
    (hrounds : ts.length < m.rounds)
    (hmore : ∀ (m' : Meter) (rest : List Token), m'.cursor.Holds rest ending →
      m'.rounds = m.rounds → rest.length < ts.length →
      Tallies same depth (fun _ => 1) (err + 1) m' rest ending (more m') (more' m'.cursor)) :
    Tallies same depth (fun _ => 1) (err + 1) m ts ending
      (Metered.counted (do
        match ← step with
        | none => return []
        | some a => return a :: (← more)) m)
      ((do
        match ← step' with
        | none => return []
        | some a => return a :: (← more') : Parser (List α)) m.cursor) := by
  have htally : Tallies same depth (fun _ => 0) err { m with steps := m.steps + 1 } ts ending
      ((do
        match ← step with
        | none => return []
        | some a => return a :: (← more) : Metered (List α)) { m with steps := m.steps + 1 })
      ((do
        match ← step' with
        | none => return []
        | some a => return a :: (← more') : Parser (List α)) m.cursor) := by
    refine (hstep (m := { m with steps := m.steps + 1 }) hts hrounds).bind (Int.le_refl _) ?_
    intro o m' rest hrest hsame hle hworth
    cases o with
    | none => exact .ok hrest (Nat.le_refl _) (Nat.le_refl _) (by simp)
    | some a =>
      -- it is worth less than nothing, which only a token can have paid for
      rw [found_some] at hworth ⊢
      refine (hmore m' rest hrest hsame (by omega)).bind (by omega) ?_
      intro as m'' rest' hrest' _ _ _
      exact .ok hrest' (Nat.le_refl _) (Nat.le_refl _) (by simp)
  exact htally.counted.mono (Nat.le_succ _) (fun _ => Int.le_refl _) (Int.le_refl _)

theorem tallies_manyUpTo (hstep : Meters same depth (found (-1)) err step step')
    (rounds fuel : Nat) (hts : m.cursor.Holds ts ending) (hmeter : ts.length < m.rounds)
    (hrounds : ts.length < rounds) (hfuel : ts.length < fuel) :
    Tallies same depth (fun _ => 1) (err + 1) m ts ending (Metered.manyUpTo step rounds m)
      (manyUpTo step' fuel m.cursor) := by
  induction rounds generalizing m ts fuel with
  | zero => omega
  | succ rounds ih =>
    obtain ⟨fuel, rfl⟩ := Nat.exists_eq_add_one_of_ne_zero (Nat.ne_of_gt (Nat.zero_lt_of_lt hfuel))
    refine tallies_round _ _ hstep hts hmeter fun m' rest hrest hsame hlt => ?_
    exact ih fuel hrest (by omega) (by omega) (by omega)

/-- A loop goes one round more than its step finds something.  What is found takes a token, if it
is worth less than nothing. -/
theorem meters_many {x : Int} (hstep : Meters same depth (found x) err step step') (hx : x ≤ -1) :
    Meters same depth (fun _ => 1) (err + 1) (Metered.many step) (many step') := by
  replace hstep : Meters same depth (found (-1)) err step step' := by
    refine hstep.mono (fun o => ?_) (Int.le_refl _)
    cases o with
    | none => exact Int.le_refl 0
    | some a => exact hx
  intro m ts ending hts hmeter
  obtain ⟨rounds, hrounds⟩ := Nat.exists_eq_add_one_of_ne_zero
    (Nat.ne_of_gt (Nat.zero_lt_of_lt hmeter))
  rw [Metered.many, hrounds]
  refine tallies_round (Metered.manyUpTo step rounds) (fun c => manyUpTo step' (c.size + 1) c)
    hstep hts hmeter fun m' rest hrest hsame hlt => ?_
  exact tallies_manyUpTo hstep rounds _ hrest (by omega) (by omega)
    (Nat.lt_succ_of_le hrest.length_le_size)

end Loops

theorem meters_many_afterMark (mark : Mark) {x next : Int}
    (h : Meters same depth (fun _ => x) next q p) (hx : x ≤ 12) (hnext : next ≤ 13) :
    Meters same depth (fun _ => 1) 1 (Metered.many (Metered.afterMark mark q))
      (many (afterMark mark p)) :=
  meters_many (meters_afterMark mark h hnext) (by omega)

theorem meters_skipSemicolons :
    Meters same depth (fun _ => 1) 1 Metered.skipSemicolons skipSemicolons := by
  have hunit : Meters same depth (fun _ => 0) 0 (pure ()) (pure ()) := meters_pure (Int.le_refl 0)
  have hloop := meters_many_afterMark .semicolon hunit (by decide) (by decide)
  exact hloop.bind (Int.le_refl _) fun _ => meters_pure (Int.le_refl 0)

end Parser
end Scriptlet
