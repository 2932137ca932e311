import Mathlib.Algebra.Order.BigOperators.Group.List
import Mathlib.Algebra.Order.Ring.Nat
import Scriptlet.Proofs.Frame

/-!
# Every run ends

A program may call itself without end, and what it is given decides how far it goes.  The one thing
that ends every run is the number of open calls, which goes up and down with sibling calls and with
faults.  `Run.eval` is total by construction: it is told beforehand how deep calls may go.  Here
evaluation is written down again without that knowledge, as plain recursion in which a call simply
runs the body of a function, and it is shown that it ends, how soon, and with the same outcome.

## Evaluation on fuel

The recursive functions `evalFor`, `evalSequenceFor`, `evalEachFor`, `callFor` and
`callFunctionFor` take a number, the fuel, and hand one less to whatever they ask; without fuel they
give up.  Beside its outcome each run reports the machines that it went through, before and after
every single step (`Journey`), so that statements about all points of a run can be made.

## The bound

With `n` the size of what is evaluated, `c` the calls that are left and `B` the sizes of all bodies
together, `n + 1 + c * (B + 2)` is enough.  A call uses two units, for the opening and the look-up
of the function, and leaves a body, not larger than `B`, to be run with one call less.  The measure
is lexicographic: calls left first, size second.

## One induction

`Mirrors lax p q` says that the run on fuel `p` does what `q` does, and stays within the limit on
its way.  If `lax` holds it may also give up.  The induction on the fuel is done once, under the
hypothesis that `lax` holds or there is fuel enough; with `lax` true it says that no amount of fuel
gives another outcome, and with `lax` false that the bound suffices.
-/

namespace Scriptlet

/-! ## Sizes -/

namespace Expr

mutual

/-- The size of an expression. -/
def size : Expr → Nat
  | .lit _ | .name _ | .missing => 1
  | .call _ args => 1 + sizeOfAll args
  | .declare _ value | .assign _ value => 1 + size value
  | .block body => 1 + sizeOfAll body
  | .binary _ left right | .conditional _ left right => 1 + size left + size right
  | .ifElse condition thenBody elseBody =>
    1 + size condition + sizeOfAll thenBody + sizeOfAll elseBody
  | .not operand => 1 + size operand
  | .tuple items => 1 + sizeOfAll items

/-- The size of a list of expressions. -/
def sizeOfAll : List Expr → Nat
  | [] => 0
  | e :: es => 1 + size e + sizeOfAll es

end

end Expr

/-- The size of a function is that of its body. -/
def Function.size (f : Function) : Nat :=
  Expr.sizeOfAll f.body

/-- An amount of fuel, from the number of calls that may still be opened, the size of what is
evaluated and the sizes of the bodies of functions. -/
def fuelBound (callsLeft size : Nat) (bodies : List Nat) : Nat :=
  size + 1 + callsLeft * (bodies.sum + 2)

theorem fuelBound_pos (callsLeft size : Nat) (bodies : List Nat) :
    0 < fuelBound callsLeft size bodies := by
  rw [fuelBound]
  omega

/-- One unit more for each unit of size. -/
theorem fuelBound_add (callsLeft size more : Nat) (bodies : List Nat) :
    fuelBound callsLeft (size + more) bodies = fuelBound callsLeft size bodies + more := by
  rw [fuelBound, fuelBound]
  omega

/-- One call more costs a whole table of bodies and two units for opening it. -/
theorem fuelBound_succ (callsLeft size : Nat) (bodies : List Nat) :
    fuelBound (callsLeft + 1) size bodies =
      fuelBound callsLeft bodies.sum bodies + size + 2 := by
  rw [fuelBound, fuelBound, Nat.succ_mul]
  omega

theorem fuelBound_le {size size' : Nat} (h : size ≤ size') (callsLeft : Nat) (bodies : List Nat) :
    fuelBound callsLeft size bodies ≤ fuelBound callsLeft size' bodies := by
  rw [fuelBound, fuelBound]
  omega

/-! ## Runs on fuel -/

/-- The course of a run: the machines before and after each of its steps, and what it comes to,
unless the fuel runs out. -/
structure Journey (α : Type) where
  points : List Machine
  ending : Option (EStateM.Result Fault Machine α)

/-- A run that may run out of fuel. -/
def Fueled (α : Type) : Type :=
  Machine → Journey α

namespace Fueled

instance : Monad Fueled where
  pure a := fun m => ⟨[], some (.ok a m)⟩
  bind p f := fun m =>
    match (p m).ending with
    | none => ⟨(p m).points, none⟩
    | some (.error fault left) => ⟨(p m).points, some (.error fault left)⟩
    | some (.ok a left) => ⟨(p m).points ++ (f a left).points, (f a left).ending⟩

/-- A run that has no fuel. -/
def outOfFuel : Fueled α := fun m => ⟨[m], none⟩

/-- A single step. -/
def step (run : Run α) : Fueled α := fun m => ⟨[m, run.after m], some (run m)⟩

/-- Runs `body` and then, whatever came of it, the step `cleanup`. -/
def thenAlways (body : Fueled α) (cleanup : Run Unit) : Fueled α := fun m =>
  match (body m).ending with
  | none => ⟨(body m).points, none⟩
  | some ended =>
    let last := Run.thenAlways (fun _ => ended) cleanup
    ⟨(body m).points ++ [last.after m], some (last m)⟩

/-- Runs `body` in a new scope on top of the stack, and takes a scope off afterwards. -/
def inScope (kind : Scope.Kind) (body : Fueled α) : Fueled α := do
  step (Run.changeScopes fun stack => .ok (stack.enter kind))
  thenAlways body (Run.changeScopes ScopeStack.exit)

/-- Prints the only argument and a line feed. -/
def callPrint (args : List Value) : Fueled Value := do
  match args with
  | [value] =>
    step (Run.print value.display)
    step (Run.print "\n")
    return .unit
  | _ => step (throw (.printArity args.length))

/-- Binds parameters to arguments in the active scope. -/
def bindParams : List Param → List Value → Fueled Unit
  | param :: params, value :: values => do
    let _ ← step (Run.declare param.name value)
    bindParams params values
  | _, _ => pure ()

/-- Opens a call around `body`, unless as many are open as may be. -/
def inCall (name : String) (body : Fueled Value) : Fueled Value := fun m =>
  if m.callDepth ≥ m.maxCallDepth then step (throw (.callDepth m.maxCallDepth name)) m
  else
    (do
      step (Run.addCalls 1)
      thenAlways (inScope .detached body) (Run.addCalls (-1))) m

/-- Goes on with the function of a name, if there is one. -/
def withFunction (name : String) (next : Option Function → Fueled Value) : Fueled Value := fun m =>
  next (m.function? name) m

mutual

/-- Evaluates an expression. -/
def evalFor : (fuel : Nat) → Expr → Fueled Value
  | 0, _ => outOfFuel
  | _ + 1, .lit value => pure value
  | _ + 1, .name name => step (Run.readVariable name)
  | fuel + 1, .call name args => do
    let values ← evalEachFor fuel args
    callFor fuel name values
  | fuel + 1, .declare name value => do
    let v ← evalFor fuel value
    step (Run.declare name v)
  | fuel + 1, .assign name value => do
    let v ← evalFor fuel value
    step (Run.assign name v)
  | fuel + 1, .block body => inScope .nested (evalSequenceFor fuel body .unit)
  | fuel + 1, .binary op left right => do
    let l ← evalFor fuel left
    let r ← evalFor fuel right
    step (Run.ofOperator (op.apply l r))
  | fuel + 1, .conditional op left right => do
    let l ← evalFor fuel left
    let b ← step (Run.expectBool (.leftOperand op) l)
    match op, b with
    | .and, false => return .bool false
    | .or, true => return .bool true
    | .and, true | .or, false => evalFor fuel right
  | fuel + 1, .ifElse condition thenBody elseBody => do
    let c ← evalFor fuel condition
    let b ← step (Run.expectBool .condition c)
    if b then evalSequenceFor fuel thenBody .unit else evalSequenceFor fuel elseBody .unit
  | fuel + 1, .not operand => do
    let v ← evalFor fuel operand
    let b ← step (Run.expectBool .negated v)
    return .bool (!b)
  | fuel + 1, .tuple items => do
    let values ← evalEachFor fuel items
    return .tuple values
  | _ + 1, .missing => step (throw .missingExpression)

/-- Evaluates expressions one after the other in the current scope; the value is that of the last
one, and `last` if there is none. -/
def evalSequenceFor : (fuel : Nat) → List Expr → (last : Value) → Fueled Value
  | 0, _, _ => outOfFuel
  | _ + 1, [], last => pure last
  | fuel + 1, e :: es, _ => do
    let v ← evalFor fuel e
    evalSequenceFor fuel es v

/-- Evaluates expressions one after the other; gives all their values. -/
def evalEachFor : (fuel : Nat) → List Expr → Fueled (List Value)
  | 0, _ => outOfFuel
  | _ + 1, [] => pure []
  | fuel + 1, e :: es => do
    let v ← evalFor fuel e
    let vs ← evalEachFor fuel es
    return v :: vs

/-- Calls a function in a detached scope. -/
def callFor : (fuel : Nat) → (name : String) → (args : List Value) → Fueled Value
  | 0, _, _ => outOfFuel
  | fuel + 1, name, args =>
    inCall name (if name = Run.printName then callPrint args else callFunctionFor fuel name args)

/-- Runs the body of a function from the table in the current scope. -/
def callFunctionFor : (fuel : Nat) → (name : String) → (args : List Value) → Fueled Value
  | 0, _, _ => outOfFuel
  | fuel + 1, name, args => withFunction name fun found =>
    match found with
    | none => step (throw (.unknownFunction name))
    | some f =>
      if args.length ≠ f.arity then step (throw (.arity name f.arity args.length))
      else do
        bindParams f.params args
        step (Run.note ("call " ++ name ++ "(" ++ ", ".intercalate (args.map Value.display) ++ ")"))
        evalSequenceFor fuel f.body .unit

end

/-! ## Doing the same -/

end Fueled

/-- The machine has the limit of `m` and keeps to it. -/
structure Machine.Within (point m : Machine) : Prop where
  maxCallDepth : point.maxCallDepth = m.maxCallDepth
  callDepth : point.callDepth ≤ m.maxCallDepth

theorem Machine.Within.of_frame {m left : Machine} (h : m.Frame left)
    (hdepth : m.callDepth ≤ m.maxCallDepth) : left.Within m :=
  ⟨h.maxCallDepth, h.callDepth ▸ hdepth⟩

theorem Machine.Within.trans {m m' point : Machine} (h : point.Within m') (h' : m'.Within m) :
    point.Within m :=
  ⟨h.maxCallDepth.trans h'.maxCallDepth, h'.maxCallDepth ▸ h.callDepth⟩

theorem Machine.Frame.callsLeft {m left : Machine} (h : m.Frame left) :
    left.callsLeft = m.callsLeft := by
  rw [Machine.callsLeft, Machine.callsLeft, h.maxCallDepth, h.callDepth]

namespace Fueled

/-- From `m`, the run on fuel comes to what `q` comes to, or gives up if `lax`, and no machine on
its way has more calls open than it may. -/
structure MirrorsAt (lax : Prop) (p : Fueled α) (q : Run α) (m : Machine) : Prop where
  ending : lax ∧ (p m).ending = none ∨ (p m).ending = some (q m)
  points : m.callDepth ≤ m.maxCallDepth → ∀ point ∈ (p m).points, point.Within m

/-- The run on fuel mirrors `q` from every machine with these functions and so many calls left. -/
structure Mirrors (lax : Prop) (functions : List Function) (calls : Nat) (p : Fueled α)
    (q : Run α) : Prop where
  keepsFrame : Run.KeepsFrame q
  mirrorsAt : ∀ m : Machine, m.functions = functions → m.callsLeft = calls → MirrorsAt lax p q m

variable {lax : Prop} {functions : List Function} {calls : Nat}

theorem mirrors_outOfFuel {q : Run α} (h : lax) (hq : Run.KeepsFrame q) :
    Mirrors lax functions calls outOfFuel q := by
  refine ⟨hq, fun m _ _ => ⟨Or.inl ⟨h, rfl⟩, fun hdepth point hpoint => ?_⟩⟩
  rw [List.mem_singleton.mp hpoint]
  exact .of_frame (.refl m) hdepth

theorem mirrors_pure (a : α) : Mirrors lax functions calls (pure a) (pure a) :=
  ⟨Run.keepsFrame_pure a, fun _ _ _ => ⟨Or.inr rfl, fun _ _ hpoint => nomatch hpoint⟩⟩

theorem mirrorsAt_step {q : Run α} (hq : Run.KeepsFrame q) (m : Machine) :
    MirrorsAt lax (step q) q m := by
  refine ⟨Or.inr rfl, fun hdepth point hpoint => ?_⟩
  have hcases : point = m ∨ point = q.after m := by simpa [step] using hpoint
  rcases hcases with rfl | rfl
  · exact .of_frame (.refl point) hdepth
  · exact .of_frame (hq m) hdepth

theorem mirrors_step {q : Run α} (hq : Run.KeepsFrame q) :
    Mirrors lax functions calls (step q) q :=
  ⟨hq, fun m _ _ => mirrorsAt_step hq m⟩

theorem bind_of_none {p : Fueled α} {m : Machine} (h : (p m).ending = none) (f : α → Fueled β) :
    (p >>= f) m = ⟨(p m).points, none⟩ := by
  show (match (p m).ending with | none => _ | some (.error _ _) => _ | some (.ok _ _) => _) = _
  rw [h]

theorem bind_of_error {p : Fueled α} {m left : Machine} {fault : Fault}
    (h : (p m).ending = some (.error fault left)) (f : α → Fueled β) :
    (p >>= f) m = ⟨(p m).points, some (.error fault left)⟩ := by
  show (match (p m).ending with | none => _ | some (.error _ _) => _ | some (.ok _ _) => _) = _
  rw [h]

theorem bind_of_ok {p : Fueled α} {m left : Machine} {a : α}
    (h : (p m).ending = some (.ok a left)) (f : α → Fueled β) :
    (p >>= f) m = ⟨(p m).points ++ (f a left).points, (f a left).ending⟩ := by
  show (match (p m).ending with | none => _ | some (.error _ _) => _ | some (.ok _ _) => _) = _
  rw [h]

theorem Mirrors.bind {p : Fueled α} {q : Run α} {f : α → Fueled β} {g : α → Run β}
    (h : Mirrors lax functions calls p q) (hf : ∀ a, Mirrors lax functions calls (f a) (g a)) :
    Mirrors lax functions calls (p >>= f) (q >>= g) := by
  refine ⟨h.keepsFrame.bind fun a => (hf a).keepsFrame, fun m hfunctions hcalls => ?_⟩
  obtain ⟨hending, hpoints⟩ := h.mirrorsAt m hfunctions hcalls
  have hframe := h.keepsFrame m
  rcases hending with ⟨hlax, hnone⟩ | hsome
  · refine ⟨Or.inl ⟨hlax, ?_⟩, fun hdepth => ?_⟩
    · rw [bind_of_none hnone]
    · rw [bind_of_none hnone]
      exact hpoints hdepth
  · cases hq : q m with
    | error fault left =>
      rw [hq] at hsome
      refine ⟨Or.inr ?_, fun hdepth => ?_⟩
      · rw [bind_of_error hsome, Run.bind_of_error hq]
      · rw [bind_of_error hsome]
        exact hpoints hdepth
    | ok a left =>
      rw [hq] at hsome
      rw [Run.after_of_ok hq] at hframe
      have hnext := (hf a).mirrorsAt left (hframe.functions.trans hfunctions)
        (hframe.callsLeft.trans hcalls)
      refine ⟨?_, fun hdepth point hpoint => ?_⟩
      · rw [bind_of_ok hsome, Run.bind_of_ok hq]
        exact hnext.ending
      · rw [bind_of_ok hsome] at hpoint
        have hleft : left.Within m := .of_frame hframe hdepth
        rcases List.mem_append.mp hpoint with hfirst | hsecond
        · exact hpoints hdepth point hfirst
        · have hdepth' : left.callDepth ≤ left.maxCallDepth := by
            rw [hleft.maxCallDepth]
            exact hleft.callDepth
          exact (hnext.points hdepth' point hsecond).trans hleft

/-! ### Scopes and calls -/

theorem thenAlways_of_some {p : Fueled α} {m : Machine} {ended : EStateM.Result Fault Machine α}
    (h : (p m).ending = some ended) (cleanup : Run Unit) :
    thenAlways p cleanup m =
      ⟨(p m).points ++ [(Run.thenAlways (fun _ => ended) cleanup).after m],
        some (Run.thenAlways (fun _ => ended) cleanup m)⟩ := by
  rw [thenAlways, h]

theorem MirrorsAt.thenAlways {p : Fueled α} {q : Run α} {cleanup : Run Unit} {m : Machine}
    (h : MirrorsAt lax p q m)
    (hlast : m.callDepth ≤ m.maxCallDepth → ((Run.thenAlways q cleanup).after m).Within m) :
    MirrorsAt lax (thenAlways p cleanup) (Run.thenAlways q cleanup) m := by
  rcases h.ending with ⟨hlax, hnone⟩ | hsome
  · have hrun : Fueled.thenAlways p cleanup m = ⟨(p m).points, none⟩ := by
      rw [Fueled.thenAlways, hnone]
    refine ⟨Or.inl ⟨hlax, ?_⟩, fun hdepth => ?_⟩
    · rw [hrun]
    · rw [hrun]
      exact h.points hdepth
  · refine ⟨Or.inr ?_, fun hdepth point hpoint => ?_⟩
    · rw [thenAlways_of_some hsome]
      rfl
    · rw [thenAlways_of_some hsome] at hpoint
      rcases List.mem_append.mp hpoint with hinner | houter
      · exact h.points hdepth point hinner
      · rw [List.mem_singleton.mp houter]
        exact hlast hdepth

/-- A step that succeeds, before a run from where it leads. -/
theorem MirrorsAt.after_step {run : Run Unit} {p : Fueled α} {q : Run α} {m m' : Machine}
    (hrun : run m = .ok () m') (h : MirrorsAt lax p q m')
    (hwithin : m.callDepth ≤ m.maxCallDepth → m'.Within m) :
    MirrorsAt lax (step run >>= fun _ => p) (run >>= fun _ => q) m := by
  have hstep : (step run m).ending = some (.ok () m') := congrArg some hrun
  refine ⟨?_, fun hdepth point hpoint => ?_⟩
  · rw [bind_of_ok hstep, Run.bind_of_ok hrun]
    exact h.ending
  · rw [bind_of_ok hstep] at hpoint
    have hm' := hwithin hdepth
    rcases List.mem_append.mp hpoint with hfirst | hrest
    · have hcases : point = m ∨ point = run.after m := by simpa [step] using hfirst
      rcases hcases with rfl | rfl
      · exact .of_frame (.refl point) hdepth
      · rw [Run.after_of_ok hrun]
        exact hm'
    · have hdepth' : m'.callDepth ≤ m'.maxCallDepth := by
        rw [hm'.maxCallDepth]
        exact hm'.callDepth
      exact (h.points hdepth' point hrest).trans hm'

theorem Mirrors.inScope {p : Fueled α} {q : Run α} (h : Mirrors lax functions calls p q)
    (kind : Scope.Kind) : Mirrors lax functions calls (inScope kind p) (Run.inScope kind q) := by
  have hkeeps : Run.KeepsFrame (Run.inScope kind q) := by
    cases kind with
    | nested => exact h.keepsFrame.inBlock
    | detached => exact h.keepsFrame.inScope_detached
  refine ⟨hkeeps, fun m hfunctions hcalls => ?_⟩
  have henter : Run.changeScopes (fun stack => .ok (stack.enter kind)) m =
    .ok () { m with scopes := m.scopes.enter kind } := rfl
  refine MirrorsAt.after_step henter ?_ fun hdepth => ⟨rfl, hdepth⟩
  refine (h.mirrorsAt { m with scopes := m.scopes.enter kind } hfunctions hcalls).thenAlways
    fun hdepth => ?_
  have hlast : ((Run.inScope kind q).after m).Within m := .of_frame (hkeeps m) hdepth
  exact ⟨hlast.maxCallDepth, hlast.callDepth⟩

/-- A call that opens leaves one call less to its body. -/
theorem Mirrors.inCall {p : Fueled Value} {q : Run Value} (hq : Run.KeepsFrame q)
    (h : ∀ less, calls = less + 1 → Mirrors lax functions less p q) (name : String) :
    Mirrors lax functions calls (inCall name p) (Run.inCall name q) := by
  refine ⟨hq.inCall name, fun m hfunctions hcalls => ?_⟩
  by_cases hdepth : m.callDepth < m.maxCallDepth
  · have hopen : m.callsLeft = { m with callDepth := m.callDepth + 1 : Machine }.callsLeft + 1 := by
      show (m.maxCallDepth - m.callDepth).toNat = (m.maxCallDepth - (m.callDepth + 1)).toNat + 1
      omega
    have hbody := (h _ (hcalls.symm.trans hopen)).inScope .detached
    have hlast := (hq.inCall name) m
    have hp : Fueled.inCall name p m = (step (Run.addCalls 1) >>= fun _ =>
        Fueled.thenAlways (Fueled.inScope .detached p) (Run.addCalls (-1))) m := by
      rw [Fueled.inCall, if_neg (Int.not_le.mpr hdepth)]
    have hq' : Run.inCall name q m = (Run.addCalls 1 >>= fun _ =>
        Run.thenAlways (Run.inScope .detached q) (Run.addCalls (-1))) m := by
      show (ite _ _ _ : Run Value) m = _
      rw [if_neg (Int.not_le.mpr hdepth)]
    have hafter : ((Run.addCalls 1 >>= fun _ =>
        Run.thenAlways (Run.inScope .detached q) (Run.addCalls (-1))).after m).Within m := by
      rw [Run.after, ← hq']
      exact .of_frame hlast (Int.le_of_lt hdepth)
    have hcount : Run.addCalls 1 m = .ok () { m with callDepth := m.callDepth + 1 } := rfl
    have hinner : MirrorsAt lax
        (Fueled.thenAlways (Fueled.inScope .detached p) (Run.addCalls (-1)))
        (Run.thenAlways (Run.inScope .detached q) (Run.addCalls (-1)))
        { m with callDepth := m.callDepth + 1 } := by
      refine (hbody.mirrorsAt { m with callDepth := m.callDepth + 1 } hfunctions rfl).thenAlways ?_
      exact fun _ => ⟨hafter.maxCallDepth, hafter.callDepth⟩
    have hmirrors := hinner.after_step hcount fun _ => ⟨rfl, hdepth⟩
    refine ⟨?_, fun hle => ?_⟩
    · rw [hp, hq']
      exact hmirrors.ending
    · rw [hp]
      exact hmirrors.points hle
  · have hge : m.callDepth ≥ m.maxCallDepth := Int.not_lt.mp hdepth
    have hp : Fueled.inCall name p m = step (throw (.callDepth m.maxCallDepth name)) m := by
      rw [Fueled.inCall, if_pos hge]
    have hrefused : MirrorsAt lax (step (throw (.callDepth m.maxCallDepth name)))
        (throw (.callDepth m.maxCallDepth name) : Run Value) m :=
      mirrorsAt_step (Run.keepsFrame_throw _) m
    refine ⟨?_, fun hle => ?_⟩
    · rw [hp, Run.inCall_of_ge name q hge]
      exact hrefused.ending
    · rw [hp]
      exact hrefused.points hle

theorem Mirrors.withFunction {p : Option Function → Fueled Value} {q : Option Function → Run Value}
    (name : String)
    (h : ∀ found, (∀ f, found = some f → f ∈ functions) →
      Mirrors lax functions calls (p found) (q found))
    (hq : Run.KeepsFrame (Run.withFunction name q)) :
    Mirrors lax functions calls (withFunction name p) (Run.withFunction name q) := by
  refine ⟨hq, fun m hfunctions hcalls => ?_⟩
  have hmem : ∀ f, m.function? name = some f → f ∈ functions := fun f hf =>
    hfunctions ▸ List.mem_of_find?_eq_some hf
  obtain ⟨hending, hpoints⟩ := (h (m.function? name) hmem).mirrorsAt m hfunctions hcalls
  exact ⟨hending, hpoints⟩

theorem mirrors_callPrint (args : List Value) :
    Mirrors lax functions calls (callPrint args) (Run.callPrint args) := by
  match args with
  | [value] =>
    refine (mirrors_step (Run.keepsFrame_print value.display)).bind fun _ => ?_
    exact (mirrors_step (Run.keepsFrame_print "\n")).bind fun _ => mirrors_pure _
  | [] => exact mirrors_step (Run.keepsFrame_throw _)
  | _ :: _ :: _ => exact mirrors_step (Run.keepsFrame_throw _)

theorem mirrors_bindParams : ∀ (params : List Param) (values : List Value),
    Mirrors lax functions calls (bindParams params values) (Run.bindParams params values)
  | param :: params, value :: values =>
    (mirrors_step (Run.keepsFrame_declare param.name value)).bind fun _ =>
      mirrors_bindParams params values
  | [], _ => mirrors_pure ()
  | _ :: _, [] => mirrors_pure ()

theorem mirrors_ofOperator (outcome : Except Operator.Fault Value) :
    Mirrors lax functions calls (step (Run.ofOperator outcome)) (Run.ofOperator outcome) :=
  mirrors_step (Run.callCongruence_keepsFrame.ofOperator outcome).2

theorem mirrors_expectBool (role : Fault.Role) (value : Value) :
    Mirrors lax functions calls (step (Run.expectBool role value)) (Run.expectBool role value) :=
  mirrors_step (Run.callCongruence_keepsFrame.expectBool role value).2

/-! ## The induction on the fuel -/

/-- With so much fuel, all functions that take fuel mirror evaluation, as far as they are allowed to
give up or have fuel enough. -/
structure MirrorsFor (functions : List Function) (fuel : Nat) : Prop where
  eval : ∀ {lax : Prop} {calls : Nat} (e : Expr),
    lax ∨ fuelBound calls e.size (functions.map Function.size) ≤ fuel →
    Mirrors lax functions calls (evalFor fuel e) (Run.evalWith (Run.callUpTo (calls + 1)) e)
  sequence : ∀ {lax : Prop} {calls : Nat} (es : List Expr) (last : Value),
    lax ∨ fuelBound calls (Expr.sizeOfAll es) (functions.map Function.size) ≤ fuel →
    Mirrors lax functions calls (evalSequenceFor fuel es last)
      (Run.evalSequenceWith (Run.callUpTo (calls + 1)) es last)
  each : ∀ {lax : Prop} {calls : Nat} (es : List Expr),
    lax ∨ fuelBound calls (Expr.sizeOfAll es) (functions.map Function.size) ≤ fuel →
    Mirrors lax functions calls (evalEachFor fuel es)
      (Run.evalEachWith (Run.callUpTo (calls + 1)) es)
  call : ∀ {lax : Prop} {calls : Nat} (name : String) (args : List Value),
    lax ∨ fuelBound calls 0 (functions.map Function.size) ≤ fuel →
    Mirrors lax functions calls (callFor fuel name args) (Run.callUpTo (calls + 1) name args)
  callFunction : ∀ {lax : Prop} {calls : Nat} (name : String) (args : List Value),
    lax ∨ fuelBound calls (functions.map Function.size).sum (functions.map Function.size) + 1 ≤
      fuel →
    Mirrors lax functions calls (callFunctionFor fuel name args)
      (Run.callFunctionWith (Run.callUpTo (calls + 1)) name args)

theorem mirrorsFor_zero (functions : List Function) : MirrorsFor functions 0 := by
  -- any bound is positive, so that only `lax` is left
  have hlax : ∀ {lax : Prop} {calls size : Nat},
      lax ∨ fuelBound calls size (functions.map Function.size) ≤ 0 → lax := by
    intro lax calls size h
    have hpos := fuelBound_pos calls size (functions.map Function.size)
    exact h.resolve_right (by omega)
  have hkeeps := fun count => Run.callCongruence_keepsFrame.callUpTo count
  exact
    { eval := fun e h => by
        rw [evalFor]
        exact mirrors_outOfFuel (hlax h) (Run.keepsFrame_evalWith _ e)
      sequence := fun es last h => by
        rw [evalSequenceFor]
        exact mirrors_outOfFuel (hlax h) (Run.keepsFrame_evalSequenceWith _ es last)
      each := fun es h => by
        rw [evalEachFor]
        exact mirrors_outOfFuel (hlax h)
          (Run.callCongruence_keepsFrame.evalEachWith (hkeeps _) es).2
      call := fun name args h => by
        rw [callFor]
        exact mirrors_outOfFuel (hlax h) (Run.keepsFrame_callUpTo _ name args)
      callFunction := fun name args h => by
        rw [callFunctionFor]
        exact mirrors_outOfFuel (hlax (h.imp_right Nat.le_of_succ_le))
          (Run.callCongruence_keepsFrame.callFunctionWith (hkeeps _) name args).2 }

/-- What is left of the fuel is enough for a part. -/
theorem enough_for_part {fuel calls size size' : Nat} {bodies : List Nat} (hsize : size < size')
    (h : lax ∨ fuelBound calls size' bodies ≤ fuel + 1) :
    lax ∨ fuelBound calls size bodies ≤ fuel := by
  refine h.imp_right fun hfuel => ?_
  have hle := fuelBound_le hsize calls bodies
  rw [Nat.succ_eq_add_one, fuelBound_add] at hle
  omega

variable {fuel : Nat}

theorem MirrorsFor.eval_succ (ih : MirrorsFor functions fuel) (e : Expr)
    (h : lax ∨ fuelBound calls e.size (functions.map Function.size) ≤ fuel + 1) :
    Mirrors lax functions calls (evalFor (fuel + 1) e)
      (Run.evalWith (Run.callUpTo (calls + 1)) e) := by
  cases e with
  | lit value =>
    rw [evalFor, Run.evalWith]
    exact mirrors_pure value
  | name name =>
    rw [evalFor, Run.evalWith]
    exact mirrors_step (Run.keepsFrame_readVariable name)
  | call name args =>
    rw [evalFor, Run.evalWith]
    rw [Expr.size] at h
    refine (ih.each args (enough_for_part (by omega) h)).bind fun values => ?_
    exact ih.call name values (enough_for_part (by omega) h)
  | declare name value =>
    rw [evalFor, Run.evalWith]
    rw [Expr.size] at h
    refine (ih.eval value (enough_for_part (by omega) h)).bind fun v => ?_
    exact mirrors_step (Run.keepsFrame_declare name v)
  | assign name value =>
    rw [evalFor, Run.evalWith]
    rw [Expr.size] at h
    refine (ih.eval value (enough_for_part (by omega) h)).bind fun v => ?_
    exact mirrors_step (Run.keepsFrame_assign name v)
  | block body =>
    rw [evalFor, Run.evalWith]
    rw [Expr.size] at h
    exact (ih.sequence body .unit (enough_for_part (by omega) h)).inScope .nested
  | binary op left right =>
    rw [evalFor, Run.evalWith]
    rw [Expr.size] at h
    refine (ih.eval left (enough_for_part (by omega) h)).bind fun l => ?_
    refine (ih.eval right (enough_for_part (by omega) h)).bind fun r => ?_
    exact mirrors_ofOperator (op.apply l r)
  | conditional op left right =>
    rw [evalFor, Run.evalWith]
    rw [Expr.size] at h
    refine (ih.eval left (enough_for_part (by omega) h)).bind fun l => ?_
    refine (mirrors_expectBool _ l).bind fun b => ?_
    have hright : Mirrors lax functions calls (evalFor fuel right)
        (Run.evalWith (Run.callUpTo (calls + 1)) right) :=
      ih.eval right (enough_for_part (by omega) h)
    cases op with
    | and =>
      cases b with
      | false => exact mirrors_pure _
      | true => exact hright
    | or =>
      cases b with
      | false => exact hright
      | true => exact mirrors_pure _
  | ifElse condition thenBody elseBody =>
    rw [evalFor, Run.evalWith]
    rw [Expr.size] at h
    refine (ih.eval condition (enough_for_part (by omega) h)).bind fun v => ?_
    refine (mirrors_expectBool _ v).bind fun b => ?_
    cases b with
    | true => exact ih.sequence thenBody .unit (enough_for_part (by omega) h)
    | false => exact ih.sequence elseBody .unit (enough_for_part (by omega) h)
  | not operand =>
    rw [evalFor, Run.evalWith]
    rw [Expr.size] at h
    refine (ih.eval operand (enough_for_part (by omega) h)).bind fun v => ?_
    exact (mirrors_expectBool _ v).bind fun b => mirrors_pure _
  | tuple items =>
    rw [evalFor, Run.evalWith]
    rw [Expr.size] at h
    refine (ih.each items (enough_for_part (by omega) h)).bind fun values => ?_
    exact mirrors_pure _
  | missing =>
    rw [evalFor, Run.evalWith]
    exact mirrors_step (Run.keepsFrame_throw _)

theorem MirrorsFor.sequence_succ (ih : MirrorsFor functions fuel) (es : List Expr) (last : Value)
    (h : lax ∨ fuelBound calls (Expr.sizeOfAll es) (functions.map Function.size) ≤ fuel + 1) :
    Mirrors lax functions calls (evalSequenceFor (fuel + 1) es last)
      (Run.evalSequenceWith (Run.callUpTo (calls + 1)) es last) := by
  cases es with
  | nil =>
    rw [evalSequenceFor, Run.evalSequenceWith]
    exact mirrors_pure last
  | cons e es =>
    rw [evalSequenceFor, Run.evalSequenceWith]
    rw [Expr.sizeOfAll] at h
    refine (ih.eval e (enough_for_part (by omega) h)).bind fun v => ?_
    exact ih.sequence es v (enough_for_part (by omega) h)

theorem MirrorsFor.each_succ (ih : MirrorsFor functions fuel) (es : List Expr)
    (h : lax ∨ fuelBound calls (Expr.sizeOfAll es) (functions.map Function.size) ≤ fuel + 1) :
    Mirrors lax functions calls (evalEachFor (fuel + 1) es)
      (Run.evalEachWith (Run.callUpTo (calls + 1)) es) := by
  cases es with
  | nil =>
    rw [evalEachFor, Run.evalEachWith]
    exact mirrors_pure []
  | cons e es =>
    rw [evalEachFor, Run.evalEachWith]
    rw [Expr.sizeOfAll] at h
    refine (ih.eval e (enough_for_part (by omega) h)).bind fun v => ?_
    refine (ih.each es (enough_for_part (by omega) h)).bind fun vs => ?_
    exact mirrors_pure _

theorem MirrorsFor.call_succ (ih : MirrorsFor functions fuel) (name : String) (args : List Value)
    (h : lax ∨ fuelBound calls 0 (functions.map Function.size) ≤ fuel + 1) :
    Mirrors lax functions calls (callFor (fuel + 1) name args)
      (Run.callUpTo (calls + 1) name args) := by
  rw [callFor, Run.callUpTo, Run.callWith_eq_inCall]
  refine .inCall (Run.keepsFrame_callBody calls name args) (fun less hless => ?_) name
  rw [hless] at h ⊢
  by_cases hname : name = Run.printName
  · simp only [Run.callBody, hname, if_true]
    exact mirrors_callPrint args
  · simp only [Run.callBody, hname, if_false]
    refine ih.callFunction name args (h.imp_right fun hfuel => ?_)
    rw [fuelBound_succ] at hfuel
    omega

theorem MirrorsFor.callFunction_succ (ih : MirrorsFor functions fuel) (name : String)
    (args : List Value)
    (h : lax ∨ fuelBound calls (functions.map Function.size).sum (functions.map Function.size) + 1 ≤
      fuel + 1) :
    Mirrors lax functions calls (callFunctionFor (fuel + 1) name args)
      (Run.callFunctionWith (Run.callUpTo (calls + 1)) name args) := by
  have hkeeps := (Run.callCongruence_keepsFrame.callFunctionWith
    (Run.callCongruence_keepsFrame.callUpTo (calls + 1)) name args).2
  rw [Run.callFunctionWith_eq_withFunction] at hkeeps ⊢
  rw [callFunctionFor]
  refine .withFunction name (fun found hfound => ?_) hkeeps
  cases found with
  | none => exact mirrors_step (Run.keepsFrame_throw _)
  | some f =>
    by_cases harity : args.length = f.arity
    · have hsize : f.size ≤ (functions.map Function.size).sum :=
        List.le_sum_of_mem (List.mem_map_of_mem (hfound f rfl))
      have hbody : lax ∨ fuelBound calls f.size (functions.map Function.size) ≤ fuel := by
        refine h.imp_right fun hfuel => ?_
        have hle := fuelBound_le hsize calls (functions.map Function.size)
        omega
      simp only [Run.callFound, harity, ne_eq, not_true_eq_false, if_false]
      refine (mirrors_bindParams f.params args).bind fun _ => ?_
      refine (mirrors_step (Run.keepsFrame_note _)).bind fun _ => ?_
      exact ih.sequence f.body .unit hbody
    · simp only [Run.callFound, harity, ne_eq, not_false_eq_true, if_true]
      exact mirrors_step (Run.keepsFrame_throw _)

theorem mirrorsFor (functions : List Function) (fuel : Nat) : MirrorsFor functions fuel := by
  induction fuel with
  | zero => exact mirrorsFor_zero functions
  | succ fuel ih => exact ⟨ih.eval_succ, ih.sequence_succ, ih.each_succ, ih.call_succ,
      ih.callFunction_succ⟩

/-- Evaluation on fuel from a machine is compared with evaluation by that machine's own count of
calls. -/
theorem mirrorsAt_evalFor (m : Machine) (e : Expr) {fuel : Nat}
    (h : lax ∨ fuelBound m.callsLeft e.size (m.functions.map Function.size) ≤ fuel) :
    MirrorsAt lax (evalFor fuel e) (Run.eval e) m := by
  obtain ⟨hending, hpoints⟩ := ((mirrorsFor m.functions fuel).eval e h).mirrorsAt m rfl rfl
  exact ⟨hending, hpoints⟩

end Fueled

/-- **Every run ends.**  Evaluation on fuel, from any machine and for any expression, never runs out
with the fuel that is computed from the calls left, the size of the expression and the sizes of the
bodies; with that fuel or more its outcome is always the same, that of `Run.eval`; with less it
gives up or comes to that outcome as well.  On no point of a run that starts within the limit are
more calls open than may be. -/
theorem evalFor_ends_within_fuelBound (m : Machine) (e : Expr) :
    (∀ fuel, fuelBound m.callsLeft e.size (m.functions.map Function.size) ≤ fuel →
      (Fueled.evalFor fuel e m).ending = some (Run.eval e m)) ∧
    (∀ fuel, (Fueled.evalFor fuel e m).ending = none ∨
      (Fueled.evalFor fuel e m).ending = some (Run.eval e m)) ∧
    (m.callDepth ≤ m.maxCallDepth → ∀ fuel, ∀ point ∈ (Fueled.evalFor fuel e m).points,
      point.maxCallDepth = m.maxCallDepth ∧ point.callDepth ≤ point.maxCallDepth) := by
  have hloose : ∀ fuel, Fueled.MirrorsAt True (Fueled.evalFor fuel e) (Run.eval e) m := fun fuel =>
    Fueled.mirrorsAt_evalFor m e (Or.inl trivial)
  refine ⟨fun fuel hfuel => ?_, fun fuel => ?_, fun hdepth fuel point hpoint => ?_⟩
  · have hstrict : Fueled.MirrorsAt False (Fueled.evalFor fuel e) (Run.eval e) m :=
      Fueled.mirrorsAt_evalFor m e (Or.inr hfuel)
    exact hstrict.ending.resolve_left fun hgiven => hgiven.1
  · exact (hloose fuel).ending.imp_left And.right
  · have hwithin := (hloose fuel).points hdepth point hpoint
    exact ⟨hwithin.maxCallDepth, hwithin.maxCallDepth ▸ hwithin.callDepth⟩

/-- A machine with two functions that call each other. -/
def pingPong : Machine where
  functions := [⟨"ping", [], [.call "pong" []]⟩, ⟨"pong", [], [.call "ping" []]⟩]
  maxCallDepth := 3

theorem pingPong_ends_with_twenty :
    (fuelBound pingPong.callsLeft (Expr.call "ping" []).size
        (pingPong.functions.map Function.size) = 20 ∧
      (Fueled.evalFor 20 (.call "ping" []) pingPong).ending =
        some (Run.eval (.call "ping" []) pingPong)) ∧
    pingPong.callDepth ≤ pingPong.maxCallDepth ∧
      ∀ point ∈ (Fueled.evalFor 20 (.call "ping" []) pingPong).points,
        point.maxCallDepth = pingPong.maxCallDepth ∧ point.callDepth ≤ point.maxCallDepth := by
  have hbound : fuelBound pingPong.callsLeft (Expr.call "ping" []).size
      (pingPong.functions.map Function.size) = 20 := by decide
  have hdepth : pingPong.callDepth ≤ pingPong.maxCallDepth := by decide
  obtain ⟨hends, _, hpoints⟩ := evalFor_ends_within_fuelBound pingPong (.call "ping" [])
  exact ⟨⟨hbound, hends 20 (Nat.le_of_eq hbound)⟩, hdepth, hpoints hdepth 20⟩

end Scriptlet
