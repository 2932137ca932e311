import Mathlib.Logic.Relation
import Scriptlet.Proofs.CallLimit
import Scriptlet.Proofs.Equations

/-!
# What comes up in a run

Statements about all points of a run need a name for these points.  A run is made of tasks: calling
`main`, binding parameters, evaluating an expression, evaluating several.  Doing one task on a
machine leads to other tasks on other machines, and `Leads` has one constructor for each of the
ways, stated by what the tasks before it come to.  The stack of scopes changes only where a task
begins or ends: a scope is entered, a parameter is bound, a variable declared or assigned, a scope
is left.

That no way is left out can be seen from the equations of evaluation, and in what is printed.
Everything that a run prints is printed by a call of `print` that comes up in it, in the sense of
`Leads` (`shows_interpret`): a way that was missing would be missed as soon as something is printed
on it.  The induction is on the number of calls that are left, and for each number on expressions.
-/

namespace Scriptlet

/-! ## Tasks -/

/-- What there is to do in a run. -/
inductive Task where
  | interpret (program : Program)
  | call (name : String) (args : List Value)
  /-- What a call does once it is opened, in a scope of its own. -/
  | opened (name : String) (args : List Value)
  /-- Binding parameters to arguments. -/
  | bind (params : List Param) (values : List Value)
  | eval (e : Expr)
  /-- Evaluating expressions one after the other for the value of the last one. -/
  | sequence (es : List Expr) (last : Value)
  /-- Evaluating expressions one after the other for all their values. -/
  | each (es : List Expr)

/-- The machine that a task leaves, whether it fails or not. -/
def Task.after : Task → Machine → Machine
  | .interpret program, m => (Run.interpret program).after m
  | .call name args, m => (Run.call name args).after m
  | .opened name args, m => (Run.callOpened name args).after m
  | .bind params values, m => (Run.bindParams params values).after m
  | .eval e, m => (Run.eval e).after m
  | .sequence es last, m => (Run.evalSequenceFrom es last).after m
  | .each es, m => (Run.evalEach es).after m

/-- The call of a name with some arguments runs the body of a function. -/
structure Machine.Runs (m : Machine) (name : String) (args : List Value) (f : Function) : Prop where
  notPrint : name ≠ Run.printName
  found : m.function? name = some f
  arity : args.length = f.arity

/-- Doing the first task on the first machine leads to doing the second on the second. -/
inductive Leads : Task × Machine → Task × Machine → Prop
  | main {program : Program} {m : Machine} :
    firstRepeated? [] (program.map Function.name) = none →
    Leads (.interpret program, m) (.call Run.mainName [], Run.loaded program m)
  | opened {name : String} {args : List Value} {m : Machine} : m.callDepth < m.maxCallDepth →
    Leads (.call name args, m) (.opened name args,
      { m with callDepth := m.callDepth + 1, scopes := m.scopes.enter .detached })
  | params {name : String} {args : List Value} {f : Function} {m : Machine} :
    m.Runs name args f → Leads (.opened name args, m) (.bind f.params args, m)
  | nextParam {param : Param} {params : List Param} {value v : Value} {values : List Value}
    {m left : Machine} : Run.declare param.name value m = .ok v left →
    Leads (.bind (param :: params) (value :: values), m) (.bind params values, left)
  | body {name : String} {args : List Value} {f : Function} {line : String}
    {m bound : Machine} : m.Runs name args f →
    line = "call " ++ name ++ "(" ++ ", ".intercalate (args.map Value.display) ++ ")" →
    (Run.bindParams f.params args >>= fun _ => Run.note line) m = .ok () bound →
    Leads (.opened name args, m) (.sequence f.body .unit, bound)
  | arguments {name : String} {args : List Expr} {m : Machine} :
    Leads (.eval (.call name args), m) (.each args, m)
  | call {name : String} {args : List Expr} {values : List Value} {m left : Machine} :
    Run.evalEach args m = .ok values left →
    Leads (.eval (.call name args), m) (.call name values, left)
  | declared {name : String} {value : Expr} {m : Machine} :
    Leads (.eval (.declare name value), m) (.eval value, m)
  | assigned {name : String} {value : Expr} {m : Machine} :
    Leads (.eval (.assign name value), m) (.eval value, m)
  | block {body : List Expr} {m : Machine} :
    Leads (.eval (.block body), m)
      (.sequence body .unit, { m with scopes := m.scopes.enter .nested })
  | left {op : Operator} {left right : Expr} {m : Machine} :
    Leads (.eval (.binary op left right), m) (.eval left, m)
  | right {op : Operator} {left right : Expr} {l : Value} {m after : Machine} :
    Run.eval left m = .ok l after → Leads (.eval (.binary op left right), m) (.eval right, after)
  | first {op : Conditional} {left right : Expr} {m : Machine} :
    Leads (.eval (.conditional op left right), m) (.eval left, m)
  | second {op : Conditional} {left right : Expr} {b : Bool} {m after : Machine} :
    Run.eval left m = .ok (.bool b) after → (op, b) ∈ [(.and, true), (.or, false)] →
    Leads (.eval (.conditional op left right), m) (.eval right, after)
  | condition {condition : Expr} {thenBody elseBody : List Expr} {m : Machine} :
    Leads (.eval (.ifElse condition thenBody elseBody), m) (.eval condition, m)
  | branch {condition : Expr} {thenBody elseBody : List Expr} {b : Bool} {m after : Machine} :
    Run.eval condition m = .ok (.bool b) after →
    Leads (.eval (.ifElse condition thenBody elseBody), m)
      (.sequence (if b then thenBody else elseBody) .unit, after)
  | negated {operand : Expr} {m : Machine} :
    Leads (.eval (.not operand), m) (.eval operand, m)
  | items {items : List Expr} {m : Machine} :
    Leads (.eval (.tuple items), m) (.each items, m)
  | inSequence {e : Expr} {es : List Expr} {last : Value} {m : Machine} :
    Leads (.sequence (e :: es) last, m) (.eval e, m)
  | restOfSequence {e : Expr} {es : List Expr} {last v : Value} {m after : Machine} :
    Run.eval e m = .ok v after → Leads (.sequence (e :: es) last, m) (.sequence es v, after)
  | inEach {e : Expr} {es : List Expr} {m : Machine} : Leads (.each (e :: es), m) (.eval e, m)
  | restOfEach {e : Expr} {es : List Expr} {v : Value} {m after : Machine} :
    Run.eval e m = .ok v after → Leads (.each (e :: es), m) (.each es, after)

/-! ## Steps that print nothing -/

namespace Run

/-- A step that prints nothing. -/
def Quiet (run : Run α) : Prop :=
  ∀ m, (run.after m).prints = m.prints

/-- Opening and leaving a scope prints nothing. -/
theorem prints_after_inScope (kind : Scope.Kind) (body : Run α) (m : Machine) :
    ((inScope kind body).after m).prints =
      (body.after { m with scopes := m.scopes.enter kind }).prints := by
  have henter : inScope kind body m =
      thenAlways body (changeScopes ScopeStack.exit) { m with scopes := m.scopes.enter kind } := rfl
  rw [after, henter, thenAlways, after]
  cases body { m with scopes := m.scopes.enter kind } with
  | ok a left => cases hexit : left.scopes.exit <;> simp [changeScopes, hexit]
  | error fault left => cases hexit : left.scopes.exit <;> simp [changeScopes, hexit]

/-- An opened call prints what its body prints. -/
theorem prints_after_inCall (name : String) (body : Run Value) {m : Machine}
    (h : m.callDepth < m.maxCallDepth) :
    ((inCall name body).after m).prints = (body.after { m with
      callDepth := m.callDepth + 1
      scopes := m.scopes.enter .detached }).prints := by
  rw [(inCall_of_lt name body h).2]
  exact prints_after_inScope .detached body { m with callDepth := m.callDepth + 1 }

theorem Quiet.bind {run : Run α} {f : α → Run β} (h : Quiet run) (hf : ∀ a, Quiet (f a)) :
    Quiet (run >>= f) := by
  intro m
  have hrun := h m
  cases hm : run m with
  | ok a left =>
    rw [after_of_ok hm] at hrun
    rw [after_bind_of_ok hm, hf a left, hrun]
  | error fault left =>
    rw [after_of_error hm] at hrun
    rw [after_bind_of_error hm, hrun]

theorem quiet_changeScopes (change : ScopeStack → Except ScopeStack.Fault ScopeStack) :
    Quiet (changeScopes change) := by
  intro m
  rw [after, changeScopes]
  cases change m.scopes <;> rfl

/-- Evaluation prints nothing but in calls. -/
theorem congruence_quiet : Congruence fun _ p q => p = q ∧ Quiet p where
  pure _ := ⟨rfl, fun _ => rfl⟩
  throw _ := ⟨rfl, fun _ => rfl⟩
  bind hp hf := ⟨by rw [hp.1, funext fun a => (hf a).1], hp.2.bind fun a => (hf a).2⟩
  readVariable name := by
    refine ⟨rfl, fun m => ?_⟩
    rw [after, readVariable]
    cases m.scopes.get name <;> rfl
  declare name value := ⟨rfl, (quiet_changeScopes _).bind fun _ _ => rfl⟩
  assign name value := by
    refine ⟨rfl, fun m => ?_⟩
    rw [after, assign]
    cases m.scopes.set? name value <;> rfl
  inBlock {_ p _} hp := ⟨by rw [hp.1], fun m => by rw [prints_after_inScope, hp.2]⟩

end Run

/-! ## What is printed -/

/-- What is printed when some values are printed one after the other. -/
def Value.printed (values : List Value) : Array String :=
  (values.flatMap fun value => [value.display, "\n"]).toArray

theorem Value.printed_append (values others : List Value) :
    Value.printed (values ++ others) = Value.printed values ++ Value.printed others := by
  simp [Value.printed]

/-- The call of `print` with the value comes up. -/
def Prints (start : Task × Machine) (value : Value) : Prop :=
  ∃ point, Relation.ReflTransGen Leads start (.opened Run.printName [value], point)

/-- What the second machine has printed more than the first was printed by calls that come up. -/
def Shown (start : Task × Machine) (m left : Machine) : Prop :=
  ∃ values : List Value, (∀ v ∈ values, Prints start v) ∧
    left.prints = m.prints ++ Value.printed values

namespace Shown

variable {start next : Task × Machine} {m left last : Machine}

theorem of_prints_eq (h : left.prints = m.prints) : Shown start m left :=
  ⟨[], fun _ hv => absurd hv List.not_mem_nil, h.trans Array.append_empty.symm⟩

theorem trans (h : Shown start m left) (h' : Shown start left last) : Shown start m last := by
  obtain ⟨values, hvalues, hprints⟩ := h
  obtain ⟨others, hothers, hprints'⟩ := h'
  refine ⟨values ++ others, List.forall_mem_append.mpr ⟨hvalues, hothers⟩, ?_⟩
  rw [hprints', hprints, Value.printed_append, Array.append_assoc]

/-- What comes up in a task comes up in those that lead to it. -/
theorem of_leads (hleads : Leads start next) (h : Shown next m left) : Shown start m left := by
  obtain ⟨values, hvalues, hprints⟩ := h
  refine ⟨values, fun v hv => ?_, hprints⟩
  obtain ⟨point, hpath⟩ := hvalues v hv
  exact ⟨point, .head hleads hpath⟩

theorem of_quiet {run : Run α} (h : Run.Quiet run) (m : Machine) : Shown start m (run.after m) :=
  of_prints_eq (h m)

theorem bind {run : Run α} {f : α → Run β} (h : Shown start m (run.after m))
    (hf : ∀ a left, run m = .ok a left → Shown start left ((f a).after left)) :
    Shown start m ((run >>= f).after m) := by
  cases hrun : run m with
  | ok a left =>
    rw [Run.after_of_ok hrun] at h
    rw [Run.after_bind_of_ok hrun]
    exact h.trans (hf a left hrun)
  | error fault left =>
    rw [Run.after_of_error hrun] at h
    rw [Run.after_bind_of_error hrun]
    exact h

end Shown

/-- A task prints by calls that come up in it. -/
def Task.Shows (task : Task) (m : Machine) : Prop :=
  Shown (task, m) m (task.after m)

/-- Every call prints so, on machines with that many calls left. -/
def CallsShow (count : Nat) : Prop :=
  ∀ (name : String) (args : List Value) (m : Machine), m.callsLeft = count →
    (Task.call name args).Shows m

section

variable {count : Nat}

mutual

/-- Evaluation prints only in its calls. -/
theorem shows_eval (hcalls : CallsShow count) : ∀ (e : Expr) (m : Machine), m.callsLeft = count →
    (Task.eval e).Shows m
  | .lit _, m, _ => .of_prints_eq rfl
  | .missing, m, _ => .of_prints_eq rfl
  | .name name, m, _ => by
    rw [Task.Shows, Task.after, Run.eval_eq_evalParts]
    exact .of_quiet (Run.congruence_quiet.readVariable name).2 m
  | .call name args, m, hm => by
    rw [Task.Shows, Task.after, Run.eval_eq_evalParts]
    refine .bind ((shows_each hcalls args m hm).of_leads .arguments) fun values left hvalues => ?_
    have hleft := (Run.keepsFrame_evalEach args).callsLeft_of_ok hvalues
    exact (hcalls name values left (hleft.trans hm)).of_leads (.call hvalues)
  | .declare name value, m, hm => by
    rw [Task.Shows, Task.after, Run.eval_eq_evalParts]
    refine .bind ((shows_eval hcalls value m hm).of_leads .declared) fun v left _ => ?_
    exact .of_quiet (Run.congruence_quiet.declare name v).2 left
  | .assign name value, m, hm => by
    rw [Task.Shows, Task.after, Run.eval_eq_evalParts]
    refine .bind ((shows_eval hcalls value m hm).of_leads .assigned) fun v left _ => ?_
    exact .of_quiet (Run.congruence_quiet.assign name v).2 left
  | .block body, m, hm => by
    have hbody := (shows_sequence hcalls body .unit { m with scopes := m.scopes.enter .nested }
      hm).of_leads .block
    obtain ⟨values, hvalues, hprints⟩ := hbody
    refine ⟨values, hvalues, ?_⟩
    rw [Task.after, Run.eval_eq_evalParts, Run.evalParts, Run.prints_after_inScope]
    exact hprints
  | .binary op left right, m, hm => by
    rw [Task.Shows, Task.after, Run.eval_eq_evalParts]
    refine .bind ((shows_eval hcalls left m hm).of_leads .left) fun l after hl => ?_
    have hafter := (Run.keepsFrame_eval left).callsLeft_of_ok hl
    refine .bind ((shows_eval hcalls right after (hafter.trans hm)).of_leads (.right hl)) ?_
    exact fun r last _ => .of_quiet (Run.congruence_quiet.ofOperator (op.apply l r)).2 last
  | .conditional op left right, m, hm => by
    rw [Task.Shows, Task.after, Run.eval_eq_evalParts]
    refine .bind ((shows_eval hcalls left m hm).of_leads .first) fun l after hl => ?_
    have hafter := (Run.keepsFrame_eval left).callsLeft_of_ok hl
    have hright := shows_eval hcalls right after (hafter.trans hm)
    cases l with
    | bool b =>
      -- the right operand is evaluated in two of the four cases
      cases op with
      | and =>
        cases b with
        | true => exact hright.of_leads (.second hl (by decide))
        | false => exact .of_prints_eq rfl
      | or =>
        cases b with
        | true => exact .of_prints_eq rfl
        | false => exact hright.of_leads (.second hl (by decide))
    | int | string | tuple | absent => exact .of_prints_eq rfl
  | .ifElse condition thenBody elseBody, m, hm => by
    rw [Task.Shows, Task.after, Run.eval_eq_evalParts]
    refine .bind ((shows_eval hcalls condition m hm).of_leads .condition) fun c after hc => ?_
    have hafter := (Run.keepsFrame_eval condition).callsLeft_of_ok hc
    cases c with
    | bool b =>
      cases b with
      | true =>
        exact (shows_sequence hcalls thenBody .unit after (hafter.trans hm)).of_leads (.branch hc)
      | false =>
        exact (shows_sequence hcalls elseBody .unit after (hafter.trans hm)).of_leads (.branch hc)
    | int | string | tuple | absent => exact .of_prints_eq rfl
  | .not operand, m, hm => by
    rw [Task.Shows, Task.after, Run.eval_eq_evalParts]
    refine .bind ((shows_eval hcalls operand m hm).of_leads .negated) fun v left _ => ?_
    exact .bind (.of_quiet (Run.congruence_quiet.expectBool _ v).2 left) fun _ _ _ =>
      .of_prints_eq rfl
  | .tuple items, m, hm => by
    rw [Task.Shows, Task.after, Run.eval_eq_evalParts]
    exact .bind ((shows_each hcalls items m hm).of_leads .items) fun _ _ _ => .of_prints_eq rfl

theorem shows_sequence (hcalls : CallsShow count) : ∀ (es : List Expr) (last : Value) (m : Machine),
    m.callsLeft = count → (Task.sequence es last).Shows m
  | [], _, m, _ => .of_prints_eq rfl
  | e :: es, last, m, hm => by
    rw [Task.Shows, Task.after, Run.evalSequenceFrom_eq]
    refine .bind ((shows_eval hcalls e m hm).of_leads .inSequence) fun v left hv => ?_
    have hleft := (Run.keepsFrame_eval e).callsLeft_of_ok hv
    exact (shows_sequence hcalls es v left (hleft.trans hm)).of_leads (.restOfSequence hv)

theorem shows_each (hcalls : CallsShow count) : ∀ (es : List Expr) (m : Machine),
    m.callsLeft = count → (Task.each es).Shows m
  | [], m, _ => .of_prints_eq rfl
  | e :: es, m, hm => by
    rw [Task.Shows, Task.after, Run.evalEach_eq]
    refine .bind ((shows_eval hcalls e m hm).of_leads .inEach) fun v left hv => ?_
    have hleft := (Run.keepsFrame_eval e).callsLeft_of_ok hv
    refine .bind ?_ fun vs last _ => .of_prints_eq rfl
    exact (shows_each hcalls es left (hleft.trans hm)).of_leads (.restOfEach hv)

end

/-- An opened call is a call of `print`, or runs the body of a function, or prints nothing. -/
theorem shows_opened (hcalls : CallsShow count) (name : String) (args : List Value) (m : Machine)
    (hm : m.callsLeft = count) : (Task.opened name args).Shows m := by
  have hbinds : ∀ params line, Run.Quiet (Run.bindParams params args >>= fun _ => Run.note line) :=
    fun params _ => (Run.congruence_quiet.bindParams params args).2.bind fun _ _ => rfl
  have hframe : ∀ params line,
      Run.KeepsFrame (Run.bindParams params args >>= fun _ => Run.note line) :=
    fun params line =>
      (Run.keepsFrame_bindParams params args).bind fun _ => Run.keepsFrame_note line
  rw [Task.Shows, Task.after, Run.callOpened]
  by_cases hprint : name = Run.printName
  · subst hprint
    rw [if_pos rfl]
    rcases args with _ | ⟨value, _ | ⟨other, others⟩⟩
    · exact .of_prints_eq rfl
    · exact ⟨[value], List.forall_mem_singleton.mpr ⟨m, .refl⟩, by rfl⟩
    · exact .of_prints_eq rfl
  · rw [if_neg hprint, Run.callFunction_eq_withFunction]
    have hwith : (Run.withFunction name (Run.runFound name args)).after m =
      (Run.runFound name args (m.function? name)).after m := rfl
    rw [hwith]
    cases hfound : m.function? name with
    | none => exact .of_prints_eq rfl
    | some f =>
      by_cases harity : args.length = f.arity
      · have hruns : m.Runs name args f := ⟨hprint, hfound, harity⟩
        simp only [Run.runFound, ne_eq, harity, not_true_eq_false, if_false]
        rw [← bind_assoc]
        refine .bind (.of_quiet (hbinds f.params _) m) fun _ bound hbound => ?_
        have hleft := (hframe f.params _).callsLeft_of_ok hbound
        exact (shows_sequence hcalls f.body .unit bound (hleft.trans hm)).of_leads
          (.body hruns rfl hbound)
      · simp only [Run.runFound, ne_eq, harity, not_false_eq_true, if_true]
        exact .of_prints_eq rfl

/-- A call prints what it prints once it is opened, with one call less left. -/
theorem callsShow (count : Nat) : CallsShow count := by
  induction count with
  | zero =>
    intro name args m hm
    have hfull : m.callDepth ≥ m.maxCallDepth := by
      rw [Machine.callsLeft] at hm
      omega
    rw [Task.Shows, Task.after, Run.call_eq_inCall]
    rw [Run.after_of_error (Run.inCall_of_ge name _ hfull)]
    exact .of_prints_eq rfl
  | succ count ih =>
    intro name args m hm
    have hdepth : m.callDepth < m.maxCallDepth := by
      rw [Machine.callsLeft] at hm
      omega
    have hopened := shows_opened ih name args
      { m with callDepth := m.callDepth + 1, scopes := m.scopes.enter .detached }
      (Nat.succ.inj ((Run.callsLeft_opened hdepth).trans hm))
    obtain ⟨values, hvalues, hprints⟩ := hopened.of_leads (.opened hdepth)
    refine ⟨values, hvalues, ?_⟩
    rw [Task.after, Run.call_eq_inCall, Run.prints_after_inCall name _ hdepth]
    exact hprints

/-- **Everything that a run prints is printed by a call that comes up in it.** -/
theorem shows_interpret (program : Program) (m : Machine) : (Task.interpret program).Shows m := by
  rw [Task.Shows, Task.after]
  cases hnames : firstRepeated? [] (program.map Function.name) with
  | some name =>
    rw [Run.after_of_error (Run.interpret_of_repeated hnames m)]
    exact .of_prints_eq rfl
  | none =>
    have hcall := (callsShow _ Run.mainName [] (Run.loaded program m) rfl).of_leads (.main hnames)
    rw [Run.after, Run.interpret_of_distinct hnames]
    exact hcall

end

end Scriptlet
