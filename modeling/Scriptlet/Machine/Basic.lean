import Scriptlet.Operator
import Scriptlet.Scope.Basic
import Scriptlet.Syntax.Basic

/-!
# The machine that runs a program

A machine holds what a run reads and changes: the table of functions, the stack of scopes, how many
calls are open and how many may be, and what has been printed and logged.

A step of a run is a function from machines to machines that gives a value or fails with a `Fault`.
A failing step keeps what it has done: what was printed before a fault stays printed.
-/

namespace Scriptlet

/-- Where a bool is required. -/
inductive Fault.Role where
  | condition
  | leftOperand (op : Conditional)
  | negated
  /-- A place with a description of its own. -/
  | described (text : String)
  deriving DecidableEq, Repr

/-- Why a run cannot go on. -/
inductive Fault where
  /-- A name is read that no visible scope binds. -/
  | undefinedVariable (name : String)
  /-- A name is assigned to that no visible scope binds. -/
  | undeclaredVariable (name : String)
  | unknownFunction (name : String)
  /-- A program defines a function twice. -/
  | redefinedFunction (name : String)
  /-- `print` takes one argument. -/
  | printArity (given : Nat)
  | arity (name : String) (takes given : Nat)
  | notBool (role : Fault.Role) (found : Value)
  | operator (fault : Operator.Fault)
  /-- As many calls are open as may be. -/
  | callDepth (limit : Int) (name : String)
  /-- The stack of scopes is misused; no program does that. -/
  | scopes (fault : ScopeStack.Fault)
  /-- A tree has no expression where one is needed. -/
  | missingExpression
  deriving DecidableEq, Repr

namespace Fault

/-- How messages name a place where a bool is required. -/
def Role.text : Role → String
  | .condition => "Condition of if"
  | .leftOperand op => "Left operand of " ++ op.text
  | .negated => "Operand of !"
  | .described text => text

/-- The text of a fault. -/
def message : Fault → String
  | .undefinedVariable name => s!"Undefined variable {name}"
  | .undeclaredVariable name => s!"Assignment to undeclared variable {name}"
  | .unknownFunction name => s!"Trying to call unknown function {name}"
  | .redefinedFunction name => s!"Function {name} is defined more than once"
  | .printArity given => s!"not enough arguments to print: expected 1, got {given}"
  | .arity name takes given => s!"Function {name} takes {takes} argument(s) but {given} were given"
  | .notBool role found => s!"{role.text} must be a bool, got {found.typeName}"
  | .operator fault => fault.message
  | .callDepth limit name => s!"Maximum call depth of {limit} exceeded calling {name}"
  | .scopes fault => fault.message
  | .missingExpression => "Cannot evaluate None"

/-- Whether the fault is the program's own: all are but those that only misuse of the machine or a
tree put together by hand brings about. -/
def isOfProgram : Fault → Bool
  | .scopes _ | .missingExpression => false
  | _ => true

end Fault

/-- The state of a run. -/
structure Machine where
  /-- The function table, in the order of definition. -/
  functions : List Function := []
  scopes : ScopeStack := []
  /-- How many calls are open. -/
  callDepth : Int := 0
  /-- How many calls may be open. -/
  maxCallDepth : Int
  /-- What was printed, piece by piece. -/
  prints : Array String := #[]
  /-- What was logged. -/
  log : Array String := #[]

/-- A step of a run. -/
abbrev Run := EStateM Fault Machine

namespace Machine

/-- The function of that name. -/
def function? (m : Machine) (name : String) : Option Function :=
  m.functions.find? (·.name == name)

/-- How many calls may still be opened. -/
def callsLeft (m : Machine) : Nat :=
  (m.maxCallDepth - m.callDepth).toNat

/-- All that was printed. -/
def output (m : Machine) : String :=
  String.join m.prints.toList

end Machine

namespace Run

/-- Prints a piece of text. -/
def print (text : String) : Run Unit := fun m =>
  .ok () { m with prints := m.prints.push text }

/-- Logs a line. -/
def note (line : String) : Run Unit := fun m =>
  .ok () { m with log := m.log.push line }

/-- Takes the outcome of an operator over. -/
def ofOperator : Except Operator.Fault Value → Run Value
  | .ok value => pure value
  | .error fault => throw (.operator fault)

/-- Changes the stack of scopes, if that is possible. -/
def changeScopes (change : ScopeStack → Except ScopeStack.Fault ScopeStack) : Run Unit := fun m =>
  match change m.scopes with
  | .ok scopes => .ok () { m with scopes }
  | .error fault => .error (.scopes fault) m

/-- Changes the number of open calls. -/
def addCalls (change : Int) : Run Unit := fun m =>
  .ok () { m with callDepth := m.callDepth + change }

/-- Runs `body` and then `cleanup`, also when `body` fails.  If `cleanup` fails, its fault stands in
for whatever came of `body`. -/
def thenAlways (body : Run α) (cleanup : Run Unit) : Run α := fun m =>
  match body m with
  | .ok a after =>
    match cleanup after with
    | .ok () last => .ok a last
    | .error fault last => .error fault last
  | .error fault after =>
    match cleanup after with
    | .ok () last => .error fault last
    | .error other last => .error other last

/-- Runs `body` in a new scope on top of the stack, and takes a scope off afterwards. -/
def inScope (kind : Scope.Kind) (body : Run α) : Run α := do
  changeScopes fun stack => .ok (stack.enter kind)
  thenAlways body (changeScopes ScopeStack.exit)

/-- Reads a variable. -/
def readVariable (name : String) : Run Value := fun m =>
  match m.scopes.get name with
  | .absent => .error (.undefinedVariable name) m
  | value => .ok value m

/-- Binds a variable in the active scope; gives its value. -/
def declare (name : String) (value : Value) : Run Value := do
  changeScopes fun stack => stack.create name value
  return value

/-- Gives a visible variable another value; gives that value. -/
def assign (name : String) (value : Value) : Run Value := fun m =>
  match m.scopes.set? name value with
  | some scopes => .ok value { m with scopes }
  | none => .error (.undeclaredVariable name) m

/-- The bool that a value is, where one is required. -/
def expectBool (role : Fault.Role) (value : Value) : Run Bool :=
  match value with
  | .bool b => pure b
  | _ => throw (.notBool role value)

end Run
end Scriptlet
