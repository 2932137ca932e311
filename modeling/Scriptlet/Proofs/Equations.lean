import Scriptlet.Proofs.Frame

/-!
# The equations of evaluation

`Run.eval` is told beforehand how many calls may be opened inside one another, and hands what is
left to everything it evaluates.  That number cannot be seen from outside: evaluation satisfies the
equations that one would write down without it, in which an expression is evaluated by evaluating
its parts and a call by running the body of the function.

The reason is that the number is always the one that the machine shows.  Evaluation leaves the
number of open calls as it was, so that a part that is evaluated later is given the same number as
it would be given on its own (`withCalls_bind`).  A call counts itself while it runs, and its body
is given one less (`call_eq_inCall`).

These are the equations for an expression (`eval_eq_evalParts`), for lists of expressions
(`evalSequenceFrom_eq`, `evalEach_eq`), for a function (`callFunction_eq_withFunction`) and for a
call (`call_eq_inCall`).
-/

namespace Scriptlet
namespace Run

/-- Evaluates expressions one after the other; the value is that of the last one, and `last` if
there is none. -/
def evalSequenceFrom (es : List Expr) (last : Value) : Run Value :=
  withCalls fun callee => evalSequenceWith callee es last

/-- Evaluates expressions one after the other; gives all their values. -/
def evalEach (es : List Expr) : Run (List Value) :=
  withCalls fun callee => evalEachWith callee es

/-- Does what a call does in its scope. -/
def callOpened (name : String) (args : List Value) : Run Value :=
  if name = printName then callPrint args else callFunction name args

/-! ## Handing the calls on -/

/-- As many calls are left after a step as before it. -/
theorem KeepsFrame.callsLeft_of_ok {run : Run α} (h : KeepsFrame run) {m left : Machine} {a : α}
    (hrun : run m = .ok a left) : left.callsLeft = m.callsLeft := by
  have hframe := h m
  rw [after_of_ok hrun] at hframe
  rw [Machine.callsLeft, Machine.callsLeft, hframe.callDepth, hframe.maxCallDepth]

/-- What is evaluated later is given as many calls as it would be given on its own. -/
theorem withCalls_bind {p : Callee → Run α} {f : α → Callee → Run β}
    (hp : ∀ count, KeepsFrame (p (callUpTo count))) :
    withCalls (fun callee => p callee >>= fun a => f a callee) =
      withCalls p >>= fun a => withCalls (f a) := by
  funext m
  cases hrun : p (callUpTo (m.callsLeft + 1)) m with
  | ok a left =>
    have hleft : left.callsLeft = m.callsLeft := (hp (m.callsLeft + 1)).callsLeft_of_ok hrun
    have hfirst : withCalls p m = .ok a left := hrun
    rw [withCalls_apply, bind_of_ok hrun, bind_of_ok hfirst, withCalls_apply, hleft]
  | error fault left =>
    have hfirst : withCalls p m = .error fault left := hrun
    rw [withCalls_apply, bind_of_error hrun, bind_of_error hfirst]

theorem thenAlways_congr {p q : Run α} {m : Machine} (h : p m = q m) (cleanup : Run Unit) :
    thenAlways p cleanup m = thenAlways q cleanup m := by
  rw [thenAlways, h, thenAlways]

theorem inScope_congr {p q : Run α} {kind : Scope.Kind} {m : Machine}
    (h : p { m with scopes := m.scopes.enter kind } = q { m with scopes := m.scopes.enter kind }) :
    inScope kind p m = inScope kind q m :=
  thenAlways_congr h (changeScopes ScopeStack.exit)

/-- Entering a scope changes nothing in the calls. -/
theorem withCalls_inScope (kind : Scope.Kind) (body : Callee → Run α) :
    withCalls (fun callee => inScope kind (body callee)) = inScope kind (withCalls body) := by
  funext m
  rw [withCalls_apply]
  exact inScope_congr (withCalls_apply body { m with scopes := m.scopes.enter kind }).symm

theorem keepsFrame_evalEachWith (count : Nat) (es : List Expr) :
    KeepsFrame (evalEachWith (callUpTo count) es) :=
  (callCongruence_keepsFrame.evalEachWith (callCongruence_keepsFrame.callUpTo count) es).2

theorem keepsFrame_evalEach (es : List Expr) : KeepsFrame (evalEach es) := by
  intro m
  rw [evalEach, after_withCalls]
  exact keepsFrame_evalEachWith (m.callsLeft + 1) es m

/-! ## Expressions -/

/-- The first step of evaluating an expression, its parts being evaluated on their own. -/
def evalParts : Expr → Run Value
  | .lit value => pure value
  | .name name => readVariable name
  | .call name args => do
    let values ← evalEach args
    call name values
  | .declare name value => do
    let v ← eval value
    declare name v
  | .assign name value => do
    let v ← eval value
    assign name v
  | .block body => inScope .nested (evalSequenceFrom body .unit)
  | .binary op left right => do
    let l ← eval left
    let r ← eval right
    ofOperator (op.apply l r)
  | .conditional op left right => do
    let l ← eval left
    let b ← expectBool (.leftOperand op) l
    match op, b with
    | .and, false => return .bool false
    | .or, true => return .bool true
    | .and, true | .or, false => eval right
  | .ifElse condition thenBody elseBody => do
    let c ← eval condition
    let b ← expectBool .condition c
    if b then evalSequenceFrom thenBody .unit else evalSequenceFrom elseBody .unit
  | .not operand => do
    let v ← eval operand
    let b ← expectBool .negated v
    return .bool (!b)
  | .tuple items => do
    let values ← evalEach items
    return .tuple values
  | .missing => throw .missingExpression

/-- An expression is evaluated by evaluating its parts. -/
theorem eval_eq_evalParts (e : Expr) : eval e = evalParts e := by
  have heval := fun e count => keepsFrame_evalWith count e
  have heach := fun es count => keepsFrame_evalEachWith count es
  have hbool : ∀ role value, KeepsFrame (expectBool role value) := fun role value =>
    (callCongruence_keepsFrame.expectBool role value).2
  rw [eval]
  cases e with
  | lit | name | missing => simp only [evalWith]; rfl
  | block body =>
    simp only [evalWith]
    exact withCalls_inScope .nested _
  | call name args =>
    simp only [evalWith]
    exact withCalls_bind (heach args)
  | declare name value =>
    simp only [evalWith]
    exact withCalls_bind (heval value)
  | assign name value =>
    simp only [evalWith]
    exact withCalls_bind (heval value)
  | not operand =>
    simp only [evalWith]
    exact withCalls_bind (heval operand)
  | tuple items =>
    simp only [evalWith]
    exact withCalls_bind (heach items)
  | binary op left right =>
    simp only [evalWith]
    refine (withCalls_bind (heval left)).trans (bind_congr fun l => ?_)
    exact withCalls_bind (heval right)
  | conditional op left right =>
    simp only [evalWith]
    refine (withCalls_bind (heval left)).trans (bind_congr fun l => ?_)
    refine (withCalls_bind fun _ => hbool _ l).trans (bind_congr fun b => ?_)
    cases op <;> cases b <;> rfl
  | ifElse condition thenBody elseBody =>
    simp only [evalWith]
    refine (withCalls_bind (heval condition)).trans (bind_congr fun c => ?_)
    refine (withCalls_bind fun _ => hbool _ c).trans (bind_congr fun b => ?_)
    cases b <;> rfl

/-- Expressions are evaluated one after the other, each handing on its value. -/
theorem evalSequenceFrom_eq (es : List Expr) (last : Value) :
    evalSequenceFrom es last =
      match es with
      | [] => pure last
      | e :: es => eval e >>= evalSequenceFrom es := by
  cases es with
  | nil => rfl
  | cons e es => exact withCalls_bind fun count => keepsFrame_evalWith count e

/-- Expressions are evaluated one after the other, and their values collected. -/
theorem evalEach_eq (es : List Expr) :
    evalEach es =
      match es with
      | [] => pure []
      | e :: es => do
        let v ← eval e
        let vs ← evalEach es
        return v :: vs := by
  cases es with
  | nil => rfl
  | cons e es =>
    refine (withCalls_bind fun count => keepsFrame_evalWith count e).trans (bind_congr fun v => ?_)
    exact withCalls_bind fun count => keepsFrame_evalEachWith count es

/-! ## Calls -/

/-- Runs the function that was found for a name, its body being evaluated on its own. -/
def runFound (name : String) (args : List Value) : Option Function → Run Value
  | none => throw (.unknownFunction name)
  | some f =>
    if args.length ≠ f.arity then throw (.arity name f.arity args.length)
    else do
      bindParams f.params args
      note ("call " ++ name ++ "(" ++ ", ".intercalate (args.map Value.display) ++ ")")
      evalSequenceFrom f.body .unit

theorem keepsFrame_bindParams (params : List Param) (values : List Value) :
    KeepsFrame (bindParams params values) :=
  (callCongruence_keepsFrame.bindParams params values).2

/-- A function is run by looking it up and running its body. -/
theorem callFunction_eq_withFunction (name : String) (args : List Value) :
    callFunction name args = withFunction name (runFound name args) := by
  have hfound : ∀ found, withCalls (fun callee => callFound callee name args found) =
      runFound name args found := by
    intro found
    cases found with
    | none => rfl
    | some f =>
      by_cases harity : args.length = f.arity
      · simp only [callFound, runFound, ne_eq, harity, not_true_eq_false, if_false]
        refine (withCalls_bind fun _ => keepsFrame_bindParams f.params args).trans
          (bind_congr fun _ => ?_)
        exact withCalls_bind fun _ => keepsFrame_note _
      · simp only [callFound, runFound, ne_eq, harity, not_false_eq_true, if_true]
        rfl
  funext m
  rw [callFunction, withCalls_apply, callFunctionWith_eq_withFunction]
  exact congrFun (hfound (m.function? name)) m

/-- An open call has used up one of the calls that were left. -/
theorem callsLeft_opened {m : Machine} {scopes : ScopeStack} (h : m.callDepth < m.maxCallDepth) :
    Machine.callsLeft { m with callDepth := m.callDepth + 1, scopes } + 1 = m.callsLeft := by
  show (m.maxCallDepth - (m.callDepth + 1)).toNat + 1 = (m.maxCallDepth - m.callDepth).toNat
  omega

/-- A call is opened unless too many are open, and does in its scope what it does there. -/
theorem call_eq_inCall (name : String) (args : List Value) :
    call name args = inCall name (callOpened name args) := by
  funext m
  rw [call, withCalls_apply, callUpTo, callWith_eq_inCall]
  by_cases hdepth : m.callDepth < m.maxCallDepth
  · have hopen : ∀ body : Run Value, inCall name body m =
        thenAlways (inScope .detached body) (addCalls (-1))
          { m with callDepth := m.callDepth + 1 } := by
      intro body
      show (ite _ _ _ : Run Value) m = _
      rw [if_neg (Int.not_le.mpr hdepth)]
      rfl
    rw [hopen, hopen]
    refine thenAlways_congr (inScope_congr ?_) _
    by_cases hprint : name = printName
    · simp only [callBody, callOpened, hprint, if_true]
    · simp only [callBody, callOpened, hprint, if_false]
      rw [callFunction, withCalls_apply, callsLeft_opened hdepth]
  · have hfull := Int.not_lt.mp hdepth
    rw [inCall_of_ge name _ hfull, inCall_of_ge name _ hfull]

end Run
end Scriptlet
