import Scriptlet.Machine.Basic

/-!
# Evaluation

Expressions are evaluated from left to right and from the inside out, each for its value and for
what it does to the machine.  A block runs in a nested scope of its own, a call in a detached one,
and the branches of a condition in the scope where the condition stands.

## How evaluation ends

An expression is evaluated by recursion on its structure, except at a call, where the body of a
function comes in that the expression does not contain.  `evalWith` leaves that place open: it
takes the way to make a call, a `Callee`, as an argument.  `callWith` is one call whose own inner
calls are left open in the same way, and `callUpTo` closes the knot by recursion on the number of
calls that may still be opened inside one another.

A call refuses to begin once as many calls are open as the machine allows.  Therefore nothing is
lost by that number: when it is one more than the calls left, the innermost callee, which refuses
everything, is never asked.
-/

namespace Scriptlet

/-- A way to call a function by name. -/
abbrev Callee := (name : String) → (args : List Value) → Run Value

namespace Run

mutual

/-- Evaluates an expression, making its calls by `callee`. -/
def evalWith (callee : Callee) : Expr → Run Value
  | .lit value => pure value
  | .name name => readVariable name
  | .call name args => do
    let values ← evalEachWith callee args
    callee name values
  | .declare name value => do
    let v ← evalWith callee value
    declare name v
  | .assign name value => do
    let v ← evalWith callee value
    assign name v
  | .block body => inScope .nested (evalSequenceWith callee body .unit)
  | .binary op left right => do
    let l ← evalWith callee left
    let r ← evalWith callee right
    ofOperator (op.apply l r)
  | .conditional op left right => do
    let l ← evalWith callee left
    let b ← expectBool (.leftOperand op) l
    match op, b with
    | .and, false => return .bool false
    | .or, true => return .bool true
    | .and, true | .or, false => evalWith callee right
  | .ifElse condition thenBody elseBody => do
    let c ← evalWith callee condition
    let b ← expectBool .condition c
    if b then evalSequenceWith callee thenBody .unit else evalSequenceWith callee elseBody .unit
  | .not operand => do
    let v ← evalWith callee operand
    let b ← expectBool .negated v
    return .bool (!b)
  | .tuple items => do
    let values ← evalEachWith callee items
    return .tuple values
  | .missing => throw .missingExpression

/-- Evaluates expressions one after the other in the current scope; the value is that of the last
one, and `last` if there is none. -/
def evalSequenceWith (callee : Callee) : List Expr → (last : Value) → Run Value
  | [], last => pure last
  | e :: es, _ => do
    let v ← evalWith callee e
    evalSequenceWith callee es v

/-- Evaluates expressions one after the other; gives all their values. -/
def evalEachWith (callee : Callee) : List Expr → Run (List Value)
  | [] => pure []
  | e :: es => do
    let v ← evalWith callee e
    let vs ← evalEachWith callee es
    return v :: vs

end

/-- Prints the only argument and a line feed. -/
def callPrint (args : List Value) : Run Value := do
  match args with
  | [value] =>
    print value.display
    print "\n"
    return .unit
  | _ => throw (.printArity args.length)

/-- Binds parameters to arguments in the active scope. -/
def bindParams : List Param → List Value → Run Unit
  | param :: params, value :: values => do
    let _ ← declare param.name value
    bindParams params values
  | _, _ => pure ()

/-- Runs the body of a function from the table in the current scope. -/
def callFunctionWith (callee : Callee) (name : String) (args : List Value) : Run Value := do
  match (← get).function? name with
  | none => throw (.unknownFunction name)
  | some f =>
    if args.length ≠ f.arity then throw (.arity name f.arity args.length)
    else
      bindParams f.params args
      note ("call " ++ name ++ "(" ++ ", ".intercalate (args.map Value.display) ++ ")")
      evalSequenceWith callee f.body .unit

/-- The name of the function that prints; no function of a program stands in for it. -/
def printName : String := "print"

/-- One call, in a detached scope, with the calls inside it made by `callee`. -/
def callWith (callee : Callee) : Callee := fun name args => do
  let m ← get
  if m.callDepth ≥ m.maxCallDepth then throw (.callDepth m.maxCallDepth name)
  else
    addCalls 1
    thenAlways
      (inScope .detached
        (if name = printName then callPrint args else callFunctionWith callee name args))
      (addCalls (-1))

/-- Calls that go at most so many deep. -/
def callUpTo : (count : Nat) → Callee
  | 0 => fun name _ => do throw (.callDepth (← get).maxCallDepth name)
  | count + 1 => callWith (callUpTo count)

/-- Lets `run` make as many calls inside one another as the machine allows. -/
def withCalls (run : Callee → Run α) : Run α := fun m =>
  run (callUpTo (m.callsLeft + 1)) m

/-- Evaluates an expression. -/
def eval (e : Expr) : Run Value :=
  withCalls fun callee => evalWith callee e

/-- Evaluates expressions one after the other in the current scope. -/
def evalSequence (es : List Expr) : Run Value :=
  withCalls fun callee => evalSequenceWith callee es .unit

/-- Calls a function. -/
def call (name : String) (args : List Value) : Run Value :=
  withCalls fun callee => callee name args

/-- Runs the body of a function in the current scope, without opening a call. -/
def callFunction (name : String) (args : List Value) : Run Value :=
  withCalls fun callee => callFunctionWith callee name args

end Run
end Scriptlet
