import Scriptlet.Machine.Interpret
import Scriptlet.Settings.HostLimit
import Scriptlet.Syntax.Parser

/-!
# From source text to outcome

The whole way: a source text is read, and the program that it spells is run on a machine of its own.
A text that cannot be read prints and logs nothing.  Texts that are run one after the other share
nothing but the place where they print.

Before anything of a program is run, the limit of the host is raised for the calls that are allowed.
If the host takes no limit as high as that, this is the failure of the run, whatever the program is.
-/

namespace Scriptlet

/-- Why running a source text gave no value. -/
inductive Failure where
  | reading (e : ReadError)
  /-- The host has no limit for so many calls. -/
  | hostLimit
  | running (fault : Fault)
  deriving DecidableEq, Repr

/-- What comes of running a source text or a program. -/
structure Outcome where
  result : Except Failure Value
  /-- What was printed, piece by piece, also before. -/
  prints : Array String
  log : Array String

namespace Outcome

open Settings

/-- All that was printed. -/
def output (outcome : Outcome) : String :=
  String.join outcome.prints.toList

/-- Runs a program on a machine of its own, with room enough for all calls that are allowed. -/
def ofRun (maxCallDepth : Int) (program : Program) (prints : Array String) : Outcome :=
  match Run.interpretLogged program { maxCallDepth, prints } with
  | .ok value m => ⟨.ok value, m.prints, m.log⟩
  | .error fault m => ⟨.error (.running fault), m.prints, m.log⟩

/-- Makes room for the calls and runs a program that may print behind `prints`. -/
def ofProgram (maxCallDepth : Int) (program : Program) (prints : Array String) : Outcome :=
  match HostLimit.raise? HostLimit.usual maxCallDepth with
  | none => ⟨.error .hostLimit, prints, #[]⟩
  | some _ => ofRun maxCallDepth program prints

theorem ofProgram_of_takes {maxCallDepth : Int} (h : HostLimit.Takes maxCallDepth)
    (program : Program) (prints : Array String) :
    ofProgram maxCallDepth program prints = ofRun maxCallDepth program prints := by
  rw [ofProgram]
  cases hlimit : HostLimit.raise? HostLimit.usual maxCallDepth with
  | none => exact absurd h ((HostLimit.raise?_eq_none_iff (by decide) maxCallDepth).mp hlimit)
  | some limit => rfl

/-- Without room for the calls nothing is run. -/
theorem ofProgram_of_not_takes {maxCallDepth : Int} (h : ¬HostLimit.Takes maxCallDepth)
    (program : Program) (prints : Array String) :
    ofProgram maxCallDepth program prints = ⟨.error .hostLimit, prints, #[]⟩ := by
  rw [ofProgram, (HostLimit.raise?_eq_none_iff (by decide) maxCallDepth).mpr h]

/-- Runs a source text that may print behind `prints`. -/
def ofSource (maxCallDepth : Int) (source : String) (prints : Array String) : Outcome :=
  match Program.parse source with
  | .ok program => ofProgram maxCallDepth program prints
  | .error e => ⟨.error (.reading e), prints, #[]⟩

/-- Runs source texts one after the other. -/
def ofSources (maxCallDepth : Int) : List String → (prints : Array String) → List Outcome
  | [], _ => []
  | source :: sources, prints =>
    let first := ofSource maxCallDepth source prints
    first :: ofSources maxCallDepth sources first.prints

end Outcome
end Scriptlet
