import Scriptlet.Outcome

/-!
# Diagnostics

Every failure is reported in one form: its kind, a message, and for failures of reading the place in
the source text.  The kinds form families: a lexical failure, a failure of grammar, a failure inside
the interpreter, and the many kinds of failure that a program can bring about by running.

Two reports are taken for the same in two cases: lexical ones with the same message and place, and
ones about a running program with the same kind and message.  All others are only the same as
themselves.
-/

namespace Scriptlet

/-- What kind of failure is reported. -/
inductive Diagnostic.Kind where
  | general
  | lexical
  | grammar
  | internal
  /-- A failure of a running program, no more being said. -/
  | running
  | name
  | redefinition
  | arity
  | typing
  | zeroDivision
  | overflow
  | recursion
  /-- A numeral is too long to be read. -/
  | overlong
  /-- A tree has no expression where one is needed. -/
  | unevaluable
  /-- More calls are allowed than the host has a limit for. -/
  | hostLimit
  deriving DecidableEq, Repr, Hashable

/-- The families that a kind of failure can belong to. -/
inductive Diagnostic.Family where
  | every
  | running
  | lexical
  | grammar
  | internal
  deriving DecidableEq, Repr

/-- A report of a failure. -/
structure Diagnostic where
  kind : Diagnostic.Kind
  message : String
  position : Option Int := none
  deriving DecidableEq, Repr

namespace Diagnostic

/-- Whether failures of the kind are those of a running program. -/
def Kind.isRunning : Kind → Bool
  | .running | .name | .redefinition | .arity | .typing | .zeroDivision | .overflow
  | .recursion => true
  | _ => false

/-- The families of a kind, the widest first. -/
def Kind.families : Kind → List Family
  | .general => [.every]
  | .lexical => [.every, .lexical]
  | .grammar => [.every, .grammar]
  | .internal => [.every, .internal]
  | .overlong | .unevaluable | .hostLimit => []
  | _ => [.every, .running]

/-- Whether reports of the kind tell a place, be it that there is none. -/
def Kind.hasPosition : Kind → Bool
  | .lexical | .grammar => true
  | _ => false

/-- A lexical failure. -/
def lexical (message : String) (position : Option Int) : Diagnostic :=
  { kind := .lexical, message, position }

/-- A failure of grammar; its message ends with the place, if there is one. -/
def grammar (problem : String) (position : Option Int) : Diagnostic :=
  let message := match position with
    | none => problem
    | some p => s!"{problem} at position {p}"
  { kind := .grammar, message, position }

/-! ## Sameness -/

/-- What is compared of a report, if anything is. -/
def content? (d : Diagnostic) : Option (Kind × String × Option Int) :=
  if d.kind = .lexical then some (d.kind, d.message, d.position)
  else if d.kind.isRunning then some (d.kind, d.message, none)
  else none

/-- Whether two different reports are taken for the same. -/
def agrees (a b : Diagnostic) : Bool :=
  a.content?.isSome && a.content? == b.content?

/-- A number that is equal for reports taken for the same. -/
def digest (d : Diagnostic) : UInt64 :=
  hash d.content?

/-- Which of some reports are taken for the same: a row for each. -/
def agreements (ds : List Diagnostic) : List (List Bool) :=
  ds.zipIdx.map fun (a, i) => ds.zipIdx.map fun (b, j) => i == j || a.agrees b

/-- Whether reports taken for the same have the same number. -/
def digestsAgree (ds : List Diagnostic) : Bool :=
  ds.all fun a => ds.all fun b => !a.agrees b || a.digest == b.digest

/-- Reports taken for the same have the same number. -/
theorem digest_eq_of_agrees {a b : Diagnostic} (h : a.agrees b = true) : a.digest = b.digest := by
  simp only [agrees, Bool.and_eq_true, beq_iff_eq] at h
  rw [digest, digest, h.2]

end Diagnostic

/-! ## The report of a failure -/

/-- The report of text that is no token. -/
def LexError.diagnostic (e : LexError) : Diagnostic :=
  .lexical e.message (some e.position)

/-- The report of a numeral that is too long. -/
def Diagnostic.overlong (digits : Nat) : Diagnostic :=
  { kind := .overlong
    message :=
      s!"Exceeds the limit ({Text.Decimal.maxDigits} digits) for integer string conversion: " ++
      s!"value has {digits} digits; use sys.set_int_max_str_digits() to increase the limit" }

/-- The report of a source text that cannot be read. -/
def ReadError.diagnostic : ReadError → Diagnostic
  | .lexical e => e.diagnostic
  | .overlong digits => .overlong digits
  | .grammar cause position => .grammar cause.message (some position)
  | .nestedTooDeeply position => .grammar "Expression nested too deeply" (some position)

/-- The report of a misused stack of scopes. -/
def ScopeStack.Fault.diagnostic (fault : ScopeStack.Fault) : Diagnostic :=
  { kind := .internal, message := fault.message }

/-- The kind of an operator's fault. -/
def Operator.Fault.kind : Operator.Fault → Diagnostic.Kind
  | .operands .. => .typing
  | .divisionByZero | .moduloByZero => .zeroDivision
  | .overflow _ => .overflow

/-- The report of an operator's fault. -/
def Operator.Fault.diagnostic (fault : Operator.Fault) : Diagnostic :=
  { kind := fault.kind, message := fault.message }

/-- The kind of a fault. -/
def Fault.kind : Fault → Diagnostic.Kind
  | .undefinedVariable _ | .undeclaredVariable _ | .unknownFunction _ => .name
  | .redefinedFunction _ => .redefinition
  | .printArity _ | .arity .. => .arity
  | .notBool .. => .typing
  | .operator fault => fault.kind
  | .callDepth .. => .recursion
  | .scopes _ => .internal
  | .missingExpression => .unevaluable

/-- The report of a fault. -/
def Fault.diagnostic (fault : Fault) : Diagnostic :=
  { kind := fault.kind, message := fault.message }

/-- A fault is the program's own exactly when its report is about a running program. -/
theorem Fault.isRunning_kind (fault : Fault) : fault.kind.isRunning = fault.isOfProgram := by
  cases fault with
  | operator f => cases f <;> rfl
  | _ => rfl

/-- The report of a failed run. -/
def Failure.diagnostic : Failure → Diagnostic
  | .reading e => e.diagnostic
  | .hostLimit => { kind := .hostLimit, message := "Python int too large to convert to C int" }
  | .running fault => fault.diagnostic

end Scriptlet
