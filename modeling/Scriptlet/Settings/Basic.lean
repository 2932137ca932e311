import Scriptlet.Text.Characters
import Scriptlet.Text.Decimal

/-!
# Settings

Two settings can be given from outside as texts: how many calls may be open at once, and from which
level on log lines are shown.  A text that makes no sense counts as not given.

An integer is written as people write integers: blanks around it, a sign, decimal digits of any
script, even mixed, and single underscores between digits.
-/

namespace Scriptlet.Settings

open Scriptlet.Text

/-- The setting texts that were given. -/
structure Texts where
  maxCallDepth : Option String := none
  logLevel : Option String := none

/-! ## Integers -/

/-- The digits of a numeral: at least one, with single underscores allowed between them. -/
def digits? : List Char → Option (List Nat)
  | [] => none
  | [c] => (decimalDigit? c).map ([·])
  | c :: '_' :: text => do return (← decimalDigit? c) :: (← digits? text)
  | c :: text => do return (← decimalDigit? c) :: (← digits? text)

/-- The number of a numeral without a sign. -/
def natural? (text : List Char) : Option Nat := do
  let digits ← digits? text
  if digits.length > Decimal.maxDigits then none
  else return digits.foldl (fun n d => 10 * n + d) 0

/-- The integer that a text stands for. -/
def integer? (text : String) : Option Int :=
  match trimBlanks text.toList with
  | '-' :: numeral => (natural? numeral).map fun n => -(n : Int)
  | '+' :: numeral => (natural? numeral).map Int.ofNat
  | numeral => (natural? numeral).map Int.ofNat

/-- The positive integer that a text stands for; `default` if there is none. -/
def positiveOr (default : Int) (text : Option String) : Int :=
  match text.bind integer? with
  | some n => if n > 0 then n else default
  | none => default

/-- How many calls may be open if the settings do not say. -/
def defaultMaxCallDepth : Int := 1000

/-- How many calls may be open. -/
def Texts.callDepth (texts : Texts) : Int :=
  positiveOr defaultMaxCallDepth texts.maxCallDepth

/-! ## Log levels -/

/-- The capital of a letter that can occur in the name of a level.  Besides the ASCII letters these
are the dotless i and the long s. -/
def capital (c : Char) : Char :=
  if c = 'ı' then 'I' else if c = 'ſ' then 'S' else c.toUpper

/-- The levels by name, in capitals. -/
def levels : List (String × Int) :=
  [("NOTSET", 0), ("DEBUG", 10), ("INFO", 20), ("WARN", 30), ("WARNING", 30), ("ERROR", 40),
   ("CRITICAL", 50), ("FATAL", 50)]

/-- The level if the settings do not say. -/
def defaultLevel : Int := 30

/-- The level that a text names, in capitals or not. -/
def level? (text : String) : Option Int :=
  levels.lookup (String.ofList ((trimBlanks text.toList).map capital))

/-- The level from which on log lines are shown. -/
def Texts.level (texts : Texts) : Int :=
  (texts.logLevel.bind level?).getD defaultLevel

end Scriptlet.Settings
