import Scriptlet.Machine.Interpret

/-!
# Driving a machine by hand

The steps that a machine can be asked to take one at a time.  A machine that starts empty is used
for one step after the other, whether they fail or not.
-/

namespace Scriptlet

/-- One step of a machine. -/
inductive Command where
  | load (program : Program)
  | interpret (program : Program)
  | call (name : String) (args : List Value)
  | callFunction (name : String) (args : List Value)
  | callPrint (args : List Value)
  | eval (e : Expr)
  | evalSequence (es : List Expr)
  | expectBool (what : String) (value : Value)
  | enterScope (kind : Scope.Kind)
  | exitScope

/-- Takes a step; some of them give a value. -/
def Command.run : Command → Run (Option Value)
  | .load program => do
    Run.load program
    return none
  | .interpret program => some <$> Run.interpret program
  | .call name args => some <$> Run.call name args
  | .callFunction name args => some <$> Run.callFunction name args
  | .callPrint args => some <$> Run.callPrint args
  | .eval e => some <$> Run.eval e
  | .evalSequence es => some <$> Run.evalSequence es
  | .expectBool what value => do
    let b ← Run.expectBool (.described what) value
    return some (.bool b)
  | .enterScope kind => do
    Run.changeScopes fun stack => .ok (stack.enter kind)
    return none
  | .exitScope => do
    Run.changeScopes ScopeStack.exit
    return none

/-- What one step shows: its outcome, what it printed and logged, and the machine it left. -/
structure Command.Report where
  result : Except Fault (Option Value)
  prints : List String
  log : List String
  machine : Machine

/-- Takes a step and reports on it. -/
def Machine.report (m : Machine) (command : Command) : Command.Report :=
  let since (result : Except Fault (Option Value)) (after : Machine) : Command.Report :=
    { result
      prints := after.prints.toList.drop m.prints.size
      log := after.log.toList.drop m.log.size
      machine := after }
  match command.run m with
  | .ok value after => since (.ok value) after
  | .error fault after => since (.error fault) after

end Scriptlet
