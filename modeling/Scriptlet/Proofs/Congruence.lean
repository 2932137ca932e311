import Scriptlet.Machine.Eval

/-!
# Relations that evaluation respects

Most facts about evaluation say that something relates every run to itself, or to another run of the
same expression: what a run leaves alone, what two runs from different machines have in common.
Each of them would be a mutual induction over expressions, and over calls inside calls.  The
induction is done once, here.

A relation between runs is a `Congruence` when it holds of the steps that evaluation is made of and
passes through the ways they are put together.  Then it holds of the evaluation of every expression,
as soon as it holds of the calls (`Congruence.evalWith`).  A `CallCongruence` also passes through
the opening of a call, and so holds of all calls (`CallCongruence.callUpTo`).

The relation may depend on the type of what the runs give, which is why that type is an argument.
-/

namespace Scriptlet
namespace Run

/-! ## What a run comes to -/

/-- The value or the fault that a step gives. -/
def result (run : Run α) (m : Machine) : Except Fault α :=
  match run m with
  | .ok a _ => .ok a
  | .error fault _ => .error fault

/-- The machine that a step leaves, whether it fails or not. -/
def after (run : Run α) (m : Machine) : Machine :=
  match run m with
  | .ok _ left => left
  | .error _ left => left

theorem result_of_ok {run : Run α} {m left : Machine} {a : α} (h : run m = .ok a left) :
    run.result m = .ok a := by
  rw [result, h]

theorem result_of_error {run : Run α} {m left : Machine} {fault : Fault}
    (h : run m = .error fault left) : run.result m = .error fault := by
  rw [result, h]

theorem after_of_ok {run : Run α} {m left : Machine} {a : α} (h : run m = .ok a left) :
    run.after m = left := by
  rw [after, h]

theorem after_of_error {run : Run α} {m left : Machine} {fault : Fault}
    (h : run m = .error fault left) : run.after m = left := by
  rw [after, h]

/-- A step that succeeds hands its machine on. -/
theorem bind_of_ok {run : Run α} {m left : Machine} {a : α} (h : run m = .ok a left)
    (f : α → Run β) : (run >>= f) m = f a left := by
  show EStateM.bind run f m = f a left
  rw [EStateM.bind, h]

/-- A step that fails ends the steps behind it. -/
theorem bind_of_error {run : Run α} {m left : Machine} {fault : Fault}
    (h : run m = .error fault left) (f : α → Run β) : (run >>= f) m = .error fault left := by
  show EStateM.bind run f m = .error fault left
  rw [EStateM.bind, h]

theorem result_bind_of_ok {run : Run α} {m left : Machine} {a : α} (h : run m = .ok a left)
    (f : α → Run β) : (run >>= f).result m = (f a).result left := by
  rw [result, bind_of_ok h, result]

theorem after_bind_of_ok {run : Run α} {m left : Machine} {a : α} (h : run m = .ok a left)
    (f : α → Run β) : (run >>= f).after m = (f a).after left := by
  rw [after, bind_of_ok h, after]

theorem result_bind_of_error {run : Run α} {m left : Machine} {fault : Fault}
    (h : run m = .error fault left) (f : α → Run β) : (run >>= f).result m = .error fault :=
  result_of_error (bind_of_error h f)

theorem after_bind_of_error {run : Run α} {m left : Machine} {fault : Fault}
    (h : run m = .error fault left) (f : α → Run β) : (run >>= f).after m = left :=
  after_of_error (bind_of_error h f)

/-! ## The evaluation of expressions -/

/-- A relation that passes through the steps of evaluating an expression. -/
structure Congruence (R : (α : Type) → Run α → Run α → Prop) : Prop where
  pure : ∀ {α : Type} (a : α), R α (pure a) (pure a)
  throw : ∀ {α : Type} (fault : Fault), R α (throw fault) (throw fault)
  bind : ∀ {α β : Type} {p q : Run α} {f g : α → Run β},
    R α p q → (∀ a, R β (f a) (g a)) → R β (p >>= f) (q >>= g)
  readVariable : ∀ name, R Value (readVariable name) (readVariable name)
  declare : ∀ name value, R Value (declare name value) (declare name value)
  assign : ∀ name value, R Value (assign name value) (assign name value)
  inBlock : ∀ {α : Type} {p q : Run α}, R α p q → R α (inScope .nested p) (inScope .nested q)

namespace Congruence

variable {R : (α : Type) → Run α → Run α → Prop} {c d : Callee}

theorem ofOperator (hR : Congruence R) (outcome : Except Operator.Fault Value) :
    R Value (Run.ofOperator outcome) (Run.ofOperator outcome) := by
  cases outcome with
  | ok value => exact hR.pure value
  | error fault => exact hR.throw _

theorem expectBool (hR : Congruence R) (role : Fault.Role) (value : Value) :
    R Bool (Run.expectBool role value) (Run.expectBool role value) := by
  cases value with
  | bool b => exact hR.pure b
  | _ => exact hR.throw _

mutual

/-- A congruence that relates the calls relates the evaluation of every expression. -/
theorem evalWith (hR : Congruence R) (hc : ∀ name args, R Value (c name args) (d name args)) :
    ∀ e : Expr, R Value (Run.evalWith c e) (Run.evalWith d e)
  | .lit value => by
    rw [Run.evalWith, Run.evalWith]
    exact hR.pure value
  | .name name => by
    rw [Run.evalWith, Run.evalWith]
    exact hR.readVariable name
  | .call name args => by
    rw [Run.evalWith, Run.evalWith]
    exact hR.bind (evalEachWith hR hc args) fun values => hc name values
  | .declare name value => by
    rw [Run.evalWith, Run.evalWith]
    exact hR.bind (evalWith hR hc value) fun v => hR.declare name v
  | .assign name value => by
    rw [Run.evalWith, Run.evalWith]
    exact hR.bind (evalWith hR hc value) fun v => hR.assign name v
  | .block body => by
    rw [Run.evalWith, Run.evalWith]
    exact hR.inBlock (evalSequenceWith hR hc body .unit)
  | .binary op left right => by
    rw [Run.evalWith, Run.evalWith]
    refine hR.bind (evalWith hR hc left) fun l => ?_
    refine hR.bind (evalWith hR hc right) fun r => ?_
    exact hR.ofOperator (op.apply l r)
  | .conditional op left right => by
    rw [Run.evalWith, Run.evalWith]
    refine hR.bind (evalWith hR hc left) fun l => ?_
    refine hR.bind (hR.expectBool _ l) fun b => ?_
    -- the right operand is evaluated in two of the four cases
    match op, b with
    | .and, false => exact hR.pure _
    | .or, true => exact hR.pure _
    | .and, true => exact evalWith hR hc right
    | .or, false => exact evalWith hR hc right
  | .ifElse condition thenBody elseBody => by
    rw [Run.evalWith, Run.evalWith]
    refine hR.bind (evalWith hR hc condition) fun v => ?_
    refine hR.bind (hR.expectBool _ v) fun b => ?_
    cases b with
    | true => exact evalSequenceWith hR hc thenBody .unit
    | false => exact evalSequenceWith hR hc elseBody .unit
  | .not operand => by
    rw [Run.evalWith, Run.evalWith]
    refine hR.bind (evalWith hR hc operand) fun v => ?_
    exact hR.bind (hR.expectBool _ v) fun b => hR.pure _
  | .tuple items => by
    rw [Run.evalWith, Run.evalWith]
    exact hR.bind (evalEachWith hR hc items) fun values => hR.pure _
  | .missing => by
    rw [Run.evalWith, Run.evalWith]
    exact hR.throw _

theorem evalSequenceWith (hR : Congruence R)
    (hc : ∀ name args, R Value (c name args) (d name args)) :
    ∀ (es : List Expr) (last : Value),
      R Value (Run.evalSequenceWith c es last) (Run.evalSequenceWith d es last)
  | [], last => by
    rw [Run.evalSequenceWith, Run.evalSequenceWith]
    exact hR.pure last
  | e :: es, _ => by
    rw [Run.evalSequenceWith, Run.evalSequenceWith]
    exact hR.bind (evalWith hR hc e) fun v => evalSequenceWith hR hc es v

theorem evalEachWith (hR : Congruence R)
    (hc : ∀ name args, R Value (c name args) (d name args)) :
    ∀ es : List Expr, R (List Value) (Run.evalEachWith c es) (Run.evalEachWith d es)
  | [] => by
    rw [Run.evalEachWith, Run.evalEachWith]
    exact hR.pure []
  | e :: es => by
    rw [Run.evalEachWith, Run.evalEachWith]
    refine hR.bind (evalWith hR hc e) fun v => ?_
    exact hR.bind (evalEachWith hR hc es) fun vs => hR.pure _

end

theorem bindParams (hR : Congruence R) : ∀ (params : List Param) (values : List Value),
    R Unit (Run.bindParams params values) (Run.bindParams params values)
  | param :: params, value :: values =>
    hR.bind (hR.declare param.name value) fun _ => hR.bindParams params values
  | [], _ => hR.pure ()
  | _ :: _, [] => hR.pure ()

end Congruence

/-! ## Calls -/

/-- Refuses to open a call. -/
def refuseCall (name : String) : Run Value := do
  throw (.callDepth (← get).maxCallDepth name)

/-- Opens a call around `body`, unless as many are open as may be. -/
def inCall (name : String) (body : Run Value) : Run Value := do
  let m ← get
  if m.callDepth ≥ m.maxCallDepth then throw (.callDepth m.maxCallDepth name)
  else
    addCalls 1
    thenAlways (inScope .detached body) (addCalls (-1))

/-- Goes on with the function of a name, if there is one. -/
def withFunction (name : String) (next : Option Function → Run Value) : Run Value := do
  next ((← get).function? name)

/-- Runs the function that was found for a name. -/
def callFound (callee : Callee) (name : String) (args : List Value) :
    Option Function → Run Value
  | none => throw (.unknownFunction name)
  | some f =>
    if args.length ≠ f.arity then throw (.arity name f.arity args.length)
    else do
      bindParams f.params args
      note ("call " ++ name ++ "(" ++ ", ".intercalate (args.map Value.display) ++ ")")
      evalSequenceWith callee f.body .unit

theorem callFunctionWith_eq_withFunction (callee : Callee) (name : String) (args : List Value) :
    callFunctionWith callee name args = withFunction name (callFound callee name args) := by
  rw [callFunctionWith, withFunction]
  refine bind_congr fun m => ?_
  cases m.function? name with
  | none => rfl
  | some f => rfl

/-- What a call does in its scope. -/
def callBody (callee : Callee) (name : String) (args : List Value) : Run Value :=
  if name = printName then callPrint args else callFunctionWith callee name args

theorem callWith_eq_inCall (callee : Callee) (name : String) (args : List Value) :
    callWith callee name args = inCall name (callBody callee name args) := rfl

/-- A relation that passes through the opening of a call as well. -/
structure CallCongruence (R : (α : Type) → Run α → Run α → Prop) : Prop extends Congruence R where
  print : ∀ text, R Unit (print text) (print text)
  note : ∀ line, R Unit (note line) (note line)
  refuseCall : ∀ name, R Value (refuseCall name) (refuseCall name)
  withFunction : ∀ (name : String) {f g : Option Function → Run Value},
    (∀ found, R Value (f found) (g found)) → R Value (withFunction name f) (withFunction name g)
  inCall : ∀ (name : String) {p q : Run Value},
    R Value p q → R Value (inCall name p) (inCall name q)

namespace CallCongruence

variable {R : (α : Type) → Run α → Run α → Prop} {c d : Callee}

theorem callPrint (hR : CallCongruence R) (args : List Value) :
    R Value (Run.callPrint args) (Run.callPrint args) := by
  match args with
  | [value] =>
    refine hR.bind (hR.print value.display) fun _ => ?_
    exact hR.bind (hR.print "\n") fun _ => hR.pure _
  | [] => exact hR.throw _
  | _ :: _ :: _ => exact hR.throw _

theorem callFunctionWith (hR : CallCongruence R)
    (hc : ∀ name args, R Value (c name args) (d name args)) (name : String) (args : List Value) :
    R Value (Run.callFunctionWith c name args) (Run.callFunctionWith d name args) := by
  rw [callFunctionWith_eq_withFunction, callFunctionWith_eq_withFunction]
  refine hR.withFunction name fun found => ?_
  cases found with
  | none => exact hR.throw _
  | some f =>
    by_cases h : args.length = f.arity
    · simp only [callFound, ne_eq, h, not_true_eq_false, if_false]
      refine hR.bind (hR.bindParams f.params args) fun _ => ?_
      refine hR.bind (hR.note _) fun _ => ?_
      exact hR.evalSequenceWith hc f.body .unit
    · simp only [callFound, ne_eq, h, not_false_eq_true, if_true]
      exact hR.throw _

theorem callBody (hR : CallCongruence R)
    (hc : ∀ name args, R Value (c name args) (d name args)) (name : String) (args : List Value) :
    R Value (Run.callBody c name args) (Run.callBody d name args) := by
  by_cases h : name = printName
  · simp only [Run.callBody, h, if_true]
    exact hR.callPrint args
  · simp only [Run.callBody, h, if_false]
    exact hR.callFunctionWith hc name args

/-- Such a relation relates every call to itself, however deep calls may go inside it. -/
theorem callUpTo (hR : CallCongruence R) (count : Nat) (name : String) (args : List Value) :
    R Value (Run.callUpTo count name args) (Run.callUpTo count name args) := by
  induction count generalizing name args with
  | zero => exact hR.refuseCall name
  | succ count ih =>
    rw [Run.callUpTo, callWith_eq_inCall]
    exact hR.inCall name (hR.callBody ih name args)

end CallCongruence

/-! ## Letting the machine decide how deep calls may go -/

/-- A run that is given its calls by the machine is the run with as many as that machine allows. -/
theorem withCalls_apply (run : Callee → Run α) (m : Machine) :
    withCalls run m = run (callUpTo (m.callsLeft + 1)) m := rfl

theorem after_withCalls (run : Callee → Run α) (m : Machine) :
    (withCalls run).after m = (run (callUpTo (m.callsLeft + 1))).after m := by
  rw [after, withCalls_apply, after]

end Run
end Scriptlet
