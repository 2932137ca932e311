import Scriptlet.Machine.Eval

/-!
# Running programs

A program is loaded into the function table and its `main` is called.  A program that defines a
function twice is not loaded: the table stays as it was, and nothing runs.
-/

namespace Scriptlet

/-- The first name that has occurred before, in a list and after the names `seen`. -/
def firstRepeated? (seen : List String) : List String → Option String
  | [] => none
  | name :: names =>
    if seen.contains name then some name else firstRepeated? (name :: seen) names

namespace Run

/-- The name of the function that a run begins with. -/
def mainName : String := "main"

/-- Fills the function table. -/
def load (program : Program) : Run Unit := do
  let names := program.map Function.name
  match firstRepeated? [] names with
  | some name => throw (.redefinedFunction name)
  | none =>
    modify fun m => { m with functions := program }
    note (s!"loaded {names.length} function(s): " ++ ", ".intercalate names)

/-- Loads a program and calls its `main`. -/
def interpret (program : Program) : Run Value := do
  load program
  note ("running " ++ mainName)
  call mainName []

/-- Loads a program and calls its `main`, logging a fault of the program. -/
def interpretLogged (program : Program) : Run Value := fun m =>
  match interpret program m with
  | .ok value after => .ok value after
  | .error fault after =>
    if fault.isOfProgram then
      .error fault { after with log := after.log.push ("program failed: " ++ fault.message) }
    else .error fault after

end Run
end Scriptlet
