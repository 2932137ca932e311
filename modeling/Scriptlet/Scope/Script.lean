import Scriptlet.Scope.Basic

/-!
# Scripts of scope operations

A script drives a stack of scopes by itself, without a program.  Its steps are single actions and
blocks: `within kind steps` puts a scope on the stack, runs the steps, and takes one scope off
again, also when a step failed.

Every step leaves a record of what it answered and of the stack afterwards.  A failing action ends
the block around it, and its fault becomes the answer of that block, which then counts as done: the
fault goes no further out.  If the steps of a block have emptied the stack, leaving the block is
itself the fault.  Outside of all blocks a failing action is recorded and the script goes on.
-/

namespace Scriptlet.ScopeStack

/-- One operation on the stack. -/
inductive Action where
  | enter (kind : Scope.Kind)
  | exit
  | get (name : String)
  | set (name : String) (value : Value)
  | create (name : String) (value : Value)
  | find (name : String)
  | fail (text : String)

/-- What an action answers. -/
inductive Answer where
  | nothing
  | value (v : Value)
  | changed (found : Bool)
  | place (found : Option (Nat × Scope))

/-- A step of a script. -/
inductive Step where
  | act (action : Action)
  | within (kind : Scope.Kind) (steps : List Step)

/-- What is noted while a script runs. -/
inductive Record where
  /-- A block has put its scope on the stack. -/
  | opened (scope : Scope) (stack : ScopeStack)
  /-- A step is done; `stack` is what it left. -/
  | done (answer : Except Fault Answer) (stack : ScopeStack)

/-- Performs an action; a failing one changes nothing. -/
def perform (stack : ScopeStack) : Action → Except Fault (Answer × ScopeStack)
  | .enter kind => .ok (.nothing, stack.enter kind)
  | .exit => stack.exit.map fun left => (.nothing, left)
  | .get name => .ok (.value (stack.get name), stack)
  | .set name value =>
    match stack.set? name value with
    | some changed => .ok (.changed true, changed)
    | none => .ok (.changed false, stack)
  | .create name value => (stack.create name value).map fun grown => (.nothing, grown)
  | .find name => .ok (.place (stack.find? name), stack)
  | .fail text => .error (.reported text)

/-- What steps have done: their records, the fault that ended them early, and the stack. -/
structure Progress where
  records : List Record
  fault : Option Fault
  stack : ScopeStack

/-- Leaves a block after its steps: one scope is taken off, and if there is none, that fault
stands in for the one of the steps. -/
def leave (inner : Progress) : Except Fault Answer × ScopeStack :=
  match inner.stack.exit, inner.fault with
  | .ok left, none => (.ok .nothing, left)
  | .ok left, some fault => (.error fault, left)
  | .error fault, _ => (.error fault, inner.stack)

mutual

/-- Runs one step of a block. -/
def runStep : Step → ScopeStack → Progress
  | .act action, stack =>
    match stack.perform action with
    | .ok (answer, after) => ⟨[.done (.ok answer) after], none, after⟩
    | .error fault => ⟨[], some fault, stack⟩
  | .within kind steps, stack =>
    let inner := runBlock steps (stack.enter kind)
    let (answer, after) := leave inner
    ⟨.opened { kind } (stack.enter kind) :: inner.records ++ [.done answer after], none, after⟩

/-- Runs the steps of a block up to the first that fails. -/
def runBlock : List Step → ScopeStack → Progress
  | [], stack => ⟨[], none, stack⟩
  | step :: steps, stack =>
    let first := runStep step stack
    match first.fault with
    | some fault => ⟨first.records, some fault, first.stack⟩
    | none =>
      let others := runBlock steps first.stack
      ⟨first.records ++ others.records, others.fault, others.stack⟩

end

/-- Runs a whole script; the records in order, and the stack it leaves. -/
def runScript : List Step → ScopeStack → List Record × ScopeStack
  | [], stack => ([], stack)
  | step :: steps, stack =>
    let first := runStep step stack
    let failure := first.fault.toList.map fun fault => Record.done (.error fault) first.stack
    let (records, after) := runScript steps first.stack
    (first.records ++ failure ++ records, after)

end Scriptlet.ScopeStack
