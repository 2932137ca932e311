import Scriptlet.Proofs.Contract
import Scriptlet.Proofs.Tasks

/-!
# Values stay in the language's domain

Integers are unbounded and a variable can be bound to nothing, as far as the types go.  Only
operators check their results, and only the scanner checks literals.  That no other value comes up
is a property of whole runs: it has to pass through scopes, arguments, tuples and the results of
`&&` and `||`.

For the values that come back, the contract of evaluation is enough.  "At any time" is made precise
by the tasks of a run: `Good` says what must hold where a task begins, each way that leads from one
task to another keeps it (`Leads.good`), and so do many of them (`good_of_reflTransGen`).  What is
printed follows from there, since it is printed by calls that come up (`shows_interpret`).
-/

namespace Scriptlet

/-! ## The domain -/

namespace Value

mutual

/-- The value is one of the language: a string, a bool, an integer of 64 bits, or a tuple of such
values. -/
def InDomain : Value → Prop
  | .int n => Word64.InRange n
  | .string _ | .bool _ => True
  | .tuple items => InDomainEach items
  | .absent => False

/-- Each of the values is one of the language. -/
def InDomainEach : List Value → Prop
  | [] => True
  | v :: vs => InDomain v ∧ InDomainEach vs

end

theorem inDomainEach_iff {values : List Value} :
    InDomainEach values ↔ ∀ v ∈ values, v.InDomain := by
  induction values with
  | nil => simp [InDomainEach]
  | cons v vs ih => rw [InDomainEach, ih, List.forall_mem_cons]

theorem closed_inDomain : Closed InDomain where
  bool _ := trivial
  int _ h := h
  tuple _ h := inDomainEach_iff.mpr h

theorem IsLiteral.inDomain {value : Value} (h : value.IsLiteral) : value.InDomain := by
  cases value with
  | int | absent => exact h
  | string | bool => trivial
  | tuple => exact h.elim

end Value

/-- Every literal of the program is a value of the language. -/
def Program.InDomain (program : Program) : Prop :=
  program.BuiltFrom Value.InDomain True

/-! ## Looking up a name -/

namespace ScopeStack

/-- A lookup fails exactly if no visible scope binds the name. -/
theorem get?_eq_none_iff {s : ScopeStack} {name : String} :
    s.get? name = none ↔ ∀ scope ∈ s.visible, scope.binds name = false := by
  induction s with
  | nil => simp [get?, visible]
  | cons scope below ih =>
    rw [get?]
    cases hget : scope.get? name with
    | some v =>
      have hbinds : scope.binds name = true := by rw [Scope.binds, hget]; rfl
      cases hk : scope.kind with
      | nested => simp [visible_cons_of_nested hk, hbinds]
      | detached => simp [visible_cons_of_detached hk, hbinds]
    | none =>
      have hbinds : scope.binds name = false := by rw [Scope.binds, hget]; rfl
      cases hk : scope.kind with
      | nested => simp [visible_cons_of_nested hk, hbinds, ih]
      | detached => simp [visible_cons_of_detached hk, hbinds]

end ScopeStack

/-- Where every variable has a value of the language, reading a name fails exactly if no visible
scope binds it. -/
theorem Run.result_eval_name_iff {m : Machine} (h : m.scopes.Holds Value.InDomain) (name : String) :
    (Run.eval (.name name)).result m = .error (.undefinedVariable name) ↔
      ∀ scope ∈ m.scopes.visible, scope.binds name = false := by
  have heval : (Run.eval (.name name)).result m = (Run.readVariable name).result m := by
    rw [Run.eval_eq_evalParts, Run.evalParts]
  rw [heval, ← ScopeStack.get?_eq_none_iff]
  cases hget : m.scopes.get? name with
  | none => simp [Run.result, Run.readVariable, ScopeStack.get, hget]
  | some v =>
    have hv : v.InDomain := h.get? hget
    cases v with
    | absent => exact hv.elim
    | int | string | bool | tuple => simp [Run.result, Run.readVariable, ScopeStack.get, hget]

/-! ## What holds where a task begins -/

section Good

variable {D : Value → Prop} {M : Prop}

/-- What must hold where a task begins: the values in it have the property, its trees are built from
such values, and the machine can do it. -/
def Task.Good (D : Value → Prop) (M : Prop) : Task × Machine → Prop
  | (.interpret program, m) => program.BuiltFrom D M ∧ m.scopes.Holds D
  | (.call _ args, m) => (∀ v ∈ args, D v) ∧ m.Ready D M
  | (.opened _ args, m) => (∀ v ∈ args, D v) ∧ m.Active D M
  | (.bind _ values, m) => (∀ v ∈ values, D v) ∧ m.Active D M
  | (.eval e, m) => e.BuiltFrom D M ∧ m.Active D M
  | (.sequence es last, m) => (Expr.BuiltFromEach D M es ∧ D last) ∧ m.Active D M
  | (.each es, m) => Expr.BuiltFromEach D M es ∧ m.Active D M

theorem Run.upholds_eval (hD : Value.Closed D) {e : Expr} (h : e.BuiltFrom D M) :
    Upholds (Machine.Active D M) M D (eval e) :=
  upholds_withCalls fun count => upholds_evalWith hD (sound_callUpTo hD count) e h

theorem Run.upholds_evalSequenceFrom (hD : Value.Closed D) {es : List Expr} {last : Value}
    (h : Expr.BuiltFromEach D M es) (hlast : D last) :
    Upholds (Machine.Active D M) M D (evalSequenceFrom es last) :=
  upholds_withCalls fun count => upholds_evalSequenceWith hD (sound_callUpTo hD count) es h hlast

theorem Run.upholds_evalEach (hD : Value.Closed D) {es : List Expr}
    (h : Expr.BuiltFromEach D M es) :
    Upholds (Machine.Active D M) M (fun values => ∀ v ∈ values, D v) (evalEach es) :=
  upholds_withCalls fun count => upholds_evalEachWith hD (sound_callUpTo hD count) es h

theorem Run.upholds_callOpened (hD : Value.Closed D) (name : String) {args : List Value}
    (h : ∀ v ∈ args, D v) : Upholds (Machine.Active D M) M D (callOpened name args) := by
  by_cases hprint : name = printName
  · simp only [callOpened, hprint, if_true]
    exact upholds_callPrint hD args
  · simp only [callOpened, hprint, if_false]
    exact upholds_withCalls fun count =>
      upholds_callFunctionWith hD (sound_callUpTo hD count) name h

/-- What a task that begins well leaves. -/
theorem Task.Good.after (hD : Value.Closed D) {task : Task} {m : Machine}
    (h : Task.Good D M (task, m)) : (task.after m).scopes.Holds D := by
  cases task with
  | interpret program => exact (Run.upholds_interpret hD h.1 m h.2).left
  | call name args => exact (Run.upholds_call hD name h.1 m h.2).left.scopes
  | opened name args => exact (Run.upholds_callOpened hD name h.1 m h.2).left.scopes
  | bind params values => exact (Run.upholds_bindParams params h.1 m h.2).left.scopes
  | eval e => exact (Run.upholds_eval hD h.1 m h.2).left.scopes
  | sequence es last => exact (Run.upholds_evalSequenceFrom hD h.1.1 h.1.2 m h.2).left.scopes
  | each es => exact (Run.upholds_evalEach hD h.1 m h.2).left.scopes

theorem Task.Good.holds {task : Task} {m : Machine} (h : Task.Good D M (task, m)) :
    m.scopes.Holds D := by
  cases task with
  | interpret program => exact h.2
  | call name args => exact h.2.scopes
  | opened | bind | eval | sequence | each => exact h.2.scopes

/-- A task that begins well leads to tasks that begin well. -/
theorem Leads.good (hD : Value.Closed D) {point next : Task × Machine} (h : Leads point next)
    (hgood : Task.Good D M point) : Task.Good D M next := by
  cases h with
  | main =>
    exact ⟨fun _ hv => absurd hv List.not_mem_nil, ⟨hgood.2, hgood.1⟩⟩
  | opened =>
    exact ⟨hgood.1, { hgood.2 with
      scopes := hgood.2.scopes.enter .detached
      active := List.cons_ne_nil _ _ }⟩
  | params => exact hgood
  | nextParam hdeclare =>
    obtain ⟨hvalue, hvalues⟩ := List.forall_mem_cons.mp hgood.1
    exact ⟨hvalues, ((Run.upholds_declare _ hvalue _ hgood.2).of_apply_ok hdeclare).2⟩
  | @body name args f line m bound hruns _ hbind =>
    have hbody := hgood.2.functions f (List.mem_of_find?_eq_some hruns.found)
    have hbinds : Run.Upholds (Machine.Active D M) M (fun _ => True)
        (Run.bindParams f.params args >>= fun _ => Run.note line) :=
      (Run.upholds_bindParams f.params hgood.1).bind fun _ _ => Run.upholds_note line
    exact ⟨⟨hbody, hD.unit⟩, ((hbinds _ hgood.2).of_apply_ok hbind).2⟩
  | arguments | items | declared | assigned | negated => exact hgood
  | call hargs =>
    have hvalues := (Run.upholds_evalEach hD hgood.1 _ hgood.2).of_apply_ok hargs
    exact ⟨hvalues.1, hvalues.2.toReady⟩
  | block => exact ⟨⟨hgood.1, hD.unit⟩, hgood.2.enter .nested⟩
  | left | first | condition => exact ⟨hgood.1.1, hgood.2⟩
  | right hleft | second hleft =>
    exact ⟨hgood.1.2, ((Run.upholds_eval hD hgood.1.1 _ hgood.2).of_apply_ok hleft).2⟩
  | @branch condition thenBody elseBody b m after hcondition =>
    have hafter := ((Run.upholds_eval hD hgood.1.1 _ hgood.2).of_apply_ok hcondition).2
    cases b with
    | true => exact ⟨⟨hgood.1.2.1, hD.unit⟩, hafter⟩
    | false => exact ⟨⟨hgood.1.2.2, hD.unit⟩, hafter⟩
  | inSequence => exact ⟨hgood.1.1.1, hgood.2⟩
  | restOfSequence hfirst =>
    have hv := (Run.upholds_eval hD hgood.1.1.1 _ hgood.2).of_apply_ok hfirst
    exact ⟨⟨hgood.1.1.2, hv.1⟩, hv.2⟩
  | inEach => exact ⟨hgood.1.1, hgood.2⟩
  | restOfEach hfirst =>
    exact ⟨hgood.1.2, ((Run.upholds_eval hD hgood.1.1 _ hgood.2).of_apply_ok hfirst).2⟩

theorem good_of_reflTransGen (hD : Value.Closed D) {start point : Task × Machine}
    (h : Relation.ReflTransGen Leads start point) (hgood : Task.Good D M start) :
    Task.Good D M point := by
  induction h with
  | refl => exact hgood
  | tail _ hleads ih => exact hleads.good hD ih

end Good

/-- **Values stay in the domain.**  What is read from a source text has literals of the language
only.  For every program of that kind, run on a machine whose variables have values of the language:
the value that the run returns is one, what it prints are such values, and at every task that comes
up on the way, all variables in all scopes have such values before and after it, and so has every
argument of a call.  Therefore reading a name fails exactly where no visible scope binds it. -/
theorem interpret_stays_in_domain :
    (∀ (source : String) (program : Program), Program.parse source = .ok program →
      program.InDomain) ∧
    ∀ (program : Program) (m : Machine), program.InDomain → m.scopes.Holds Value.InDomain →
      (∀ value, (Run.interpret program).result m = .ok value → value.InDomain) ∧
      (∃ shown : List Value, (∀ v ∈ shown, v.InDomain ∧ Prints (.interpret program, m) v) ∧
        ((Run.interpret program).after m).prints = m.prints ++ Value.printed shown) ∧
      ∀ (task : Task) (point : Machine),
        Relation.ReflTransGen Leads (.interpret program, m) (task, point) →
        point.scopes.Holds Value.InDomain ∧ (task.after point).scopes.Holds Value.InDomain ∧
        (∀ name args, task = .call name args → ∀ v ∈ args, v.InDomain) ∧
        ∀ name, (Run.eval (.name name)).result point = .error (.undefinedVariable name) ↔
          ∀ scope ∈ point.scopes.visible, scope.binds name = false := by
  have hD := Value.closed_inDomain
  refine ⟨fun source program hparse => ?_, fun program m hprogram hscopes => ⟨?_, ?_, ?_⟩⟩
  · exact Program.builtFrom_of_parse (fun _ hliteral => hliteral.inDomain) hparse
  · exact (Run.upholds_interpret hD hprogram m hscopes).value
  · obtain ⟨shown, hshown, hprints⟩ := shows_interpret program m
    refine ⟨shown, fun v hv => ⟨?_, hshown v hv⟩, hprints⟩
    obtain ⟨point, hleads⟩ := hshown v hv
    have hgood := good_of_reflTransGen hD hleads ⟨hprogram, hscopes⟩
    exact hgood.1 v List.mem_cons_self
  · intro task point hleads
    have hgood := good_of_reflTransGen hD hleads ⟨hprogram, hscopes⟩
    refine ⟨hgood.holds, hgood.after hD, ?_, Run.result_eval_name_iff hgood.holds⟩
    rintro name args rfl
    exact hgood.1

/-- A program whose `main` prints a tuple with the largest integer. -/
def largestProgram : Program :=
  [⟨"main", [], [.call "print" [.tuple [.lit (.int 9223372036854775807), .lit (.bool true)]]]⟩]

theorem largestProgram_prints_in_domain :
    Program.parse "func main() \x7b print((9223372036854775807, true)) \x7d" = .ok largestProgram ∧
    largestProgram.InDomain ∧
    ∃ point, Relation.ReflTransGen Leads (.interpret largestProgram, { maxCallDepth := 5 })
        (.call "print" [.tuple [.int 9223372036854775807, .bool true]], point) ∧
      point.scopes.Holds Value.InDomain ∧
      Value.InDomain (.tuple [.int 9223372036854775807, .bool true]) ∧
      (Run.eval (.name "x")).result point = .error (.undefinedVariable "x") := by
  obtain ⟨hread, hstays⟩ := interpret_stays_in_domain
  have hparse : Program.parse "func main() \x7b print((9223372036854775807, true)) \x7d" =
      .ok largestProgram := by decide +kernel
  have hprogram : largestProgram.InDomain := hread _ _ hparse
  -- the run opens the call of `main`, begins its body and evaluates the argument of `print`
  have hpath : Relation.ReflTransGen Leads (.interpret largestProgram, { maxCallDepth := 5 })
      (.call "print" [.tuple [.int 9223372036854775807, .bool true]], _) :=
    .head (.main rfl) <| .head (.opened (by decide)) <|
      .head (.body ⟨by decide, rfl, rfl⟩ rfl rfl) <| .head .inSequence <| .single (.call rfl)
  obtain ⟨hpoint, _, hargs, hname⟩ :=
    (hstays _ { maxCallDepth := 5 } hprogram ScopeStack.holds_nil).2.2 _ _ hpath
  refine ⟨hparse, hprogram, _, hpath, hpoint, hargs _ _ rfl _ List.mem_cons_self,
    (hname "x").mpr ?_⟩
  decide

end Scriptlet
