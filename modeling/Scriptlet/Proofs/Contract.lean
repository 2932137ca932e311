import Scriptlet.Proofs.CallLimit
import Scriptlet.Proofs.SourceTrees

/-!
# What evaluation upholds

`Congruence` is for relations that hold of all expressions and whatever values are handed on.  Other
facts depend on both: that some fault does not come up depends on what the expression is made of,
and that a value is in some range depends on the values that it was computed from.

Here the induction is done once for such facts.  A property `D` of values, with which the literals
of a program and the variables start out, is shown to pass on to whatever is evaluated and bound, as
long as it holds of the values that evaluation itself makes (`Value.Closed`).  At the same time the
faults are looked at: as long as there is a scope to declare in, none of them is a misuse of the
stack, and an expression is only missing where the tree has none.

The statement about a run is `Upholds`: from machines with a property `G` it comes to machines with
that property, and to a value with `V` or to an expected fault.  Two such properties are needed.  A
machine is `Ready` if its functions and its variables are as they should be; that is enough for a
call, which opens a scope of its own.  It is `Active` if there is also a scope on the stack; that is
where expressions are evaluated.
-/

namespace Scriptlet

variable {D : Value → Prop} {M : Prop}

/-! ## Values -/

/-- The property holds of the values that evaluation makes: of bools, of integers that were checked,
and of tuples of values that it holds of. -/
structure Value.Closed (D : Value → Prop) : Prop where
  bool : ∀ b, D (.bool b)
  int : ∀ n, Word64.InRange n → D (.int n)
  tuple : ∀ items, (∀ v ∈ items, D v) → D (.tuple items)

theorem Value.Closed.unit (h : Value.Closed D) : D .unit :=
  h.tuple [] fun _ hv => absurd hv List.not_mem_nil

theorem Operator.checked_eq_ok {op : Operator} {n : Int} {v : Value} (h : checked op n = .ok v) :
    v = .int n ∧ Word64.InRange n := by
  rw [checked] at h
  split at h
  · rename_i hrange
    cases h
    exact ⟨rfl, hrange⟩
  · cases h

/-- An operator gives a bool or an integer that was checked. -/
theorem Operator.apply_eq_ok {op : Operator} {left right v : Value}
    (h : op.apply left right = .ok v) :
    (∃ c, v = .bool c) ∨ ∃ n, v = .int n ∧ Word64.InRange n := by
  have hchecked : ∀ {result : Except Fault Int}, result >>= checked op = .ok v →
      ∃ n, v = .int n ∧ Word64.InRange n := by
    intro result hbind
    cases result with
    | error fault => cases hbind
    | ok n => exact ⟨n, checked_eq_ok hbind⟩
  cases op with
  | equals | notEquals =>
    cases h
    exact Or.inl ⟨_, rfl⟩
  | less | lessEquals | greater | greaterEquals =>
    obtain ⟨a, b, -, -, hab⟩ := exists_of_onInts_eq_ok h
    cases hab
    exact Or.inl ⟨_, rfl⟩
  | add | sub | mul =>
    obtain ⟨a, b, -, -, hab⟩ := exists_of_onInts_eq_ok h
    exact Or.inr ⟨_, checked_eq_ok hab⟩
  | div | mod =>
    obtain ⟨a, b, -, -, hab⟩ := exists_of_onInts_eq_ok h
    exact Or.inr (hchecked hab)

theorem Value.Closed.operator (hD : Value.Closed D) {op : Operator} {left right v : Value}
    (h : op.apply left right = .ok v) : D v := by
  rcases Operator.apply_eq_ok h with ⟨b, rfl⟩ | ⟨n, rfl, hrange⟩
  · exact hD.bool b
  · exact hD.int n hrange

/-! ## Trees -/

namespace Expr

mutual

/-- Every literal in the tree has the property `D`, and expressions are missing only if `M`. -/
def BuiltFrom (D : Value → Prop) (M : Prop) : Expr → Prop
  | .lit value => D value
  | .name _ => True
  | .call _ args => BuiltFromEach D M args
  | .declare _ value => BuiltFrom D M value
  | .assign _ value => BuiltFrom D M value
  | .block body => BuiltFromEach D M body
  | .binary _ left right => BuiltFrom D M left ∧ BuiltFrom D M right
  | .conditional _ left right => BuiltFrom D M left ∧ BuiltFrom D M right
  | .ifElse condition thenBody elseBody =>
    BuiltFrom D M condition ∧ BuiltFromEach D M thenBody ∧ BuiltFromEach D M elseBody
  | .not operand => BuiltFrom D M operand
  | .tuple items => BuiltFromEach D M items
  | .missing => M

/-- Each of the trees is built so. -/
def BuiltFromEach (D : Value → Prop) (M : Prop) : List Expr → Prop
  | [] => True
  | e :: es => BuiltFrom D M e ∧ BuiltFromEach D M es

end

mutual

/-- A tree that a text can spell has literals that a text can spell, and nothing is missing. -/
theorem WellFormed.builtFrom (hD : ∀ value : Value, value.IsLiteral → D value) :
    ∀ {isStatement : Bool} (e : Expr), e.WellFormed isStatement → BuiltFrom D M e
  | _, .lit value, h => hD value h
  | _, .name _, _ => trivial
  | _, .call _ args, h => WellFormedEach.builtFromEach hD args h.2
  | _, .declare _ value, h => WellFormed.builtFrom hD value h.2.2
  | _, .assign _ value, h => WellFormed.builtFrom hD value h.2.2
  | _, .block body, h => WellFormedEach.builtFromEach hD body h
  | _, .binary _ left right, h =>
    ⟨WellFormed.builtFrom hD left h.1, WellFormed.builtFrom hD right h.2⟩
  | _, .conditional _ left right, h =>
    ⟨WellFormed.builtFrom hD left h.1, WellFormed.builtFrom hD right h.2⟩
  | _, .ifElse condition thenBody elseBody, h =>
    ⟨WellFormed.builtFrom hD condition h.1, WellFormedEach.builtFromEach hD thenBody h.2.1,
      WellFormedEach.builtFromEach hD elseBody h.2.2⟩
  | _, .not operand, h => WellFormed.builtFrom hD operand h
  | _, .tuple items, h => WellFormedEach.builtFromEach hD items h

theorem WellFormedEach.builtFromEach (hD : ∀ value : Value, value.IsLiteral → D value) :
    ∀ {isStatement : Bool} (es : List Expr), WellFormedEach isStatement es → BuiltFromEach D M es
  | _, [], _ => trivial
  | _, e :: es, h => ⟨WellFormed.builtFrom hD e h.1, WellFormedEach.builtFromEach hD es h.2⟩

end

end Expr

/-- Every function of the program is built so. -/
def Program.BuiltFrom (D : Value → Prop) (M : Prop) (program : Program) : Prop :=
  ∀ f ∈ program, Expr.BuiltFromEach D M f.body

/-- What is read from a source text is built from literals, with nothing missing. -/
theorem Program.builtFrom_of_parse (hD : ∀ value : Value, value.IsLiteral → D value)
    {source : String} {program : Program} (h : Program.parse source = .ok program) :
    program.BuiltFrom D M := fun f hf =>
  Expr.WellFormedEach.builtFromEach hD f.body (Parser.wellFormed_of_result h f hf).body

/-! ## Scopes -/

namespace ScopeStack

/-- Every value that is bound somewhere on the stack has the property `D`. -/
def Holds (D : Value → Prop) (stack : ScopeStack) : Prop :=
  ∀ scope ∈ stack, ∀ binding ∈ scope.bindings, D binding.2

variable {s t : ScopeStack} {name : String} {value : Value}

theorem forall_mem_putIn (hvalue : D value) : ∀ {bindings : List (String × Value)},
    (∀ binding ∈ bindings, D binding.2) →
    ∀ binding ∈ Scope.putIn name value bindings, D binding.2
  | [], _ => List.forall_mem_singleton.mpr hvalue
  | (n, v) :: bindings, h => by
    obtain ⟨hv, hbindings⟩ := List.forall_mem_cons.mp h
    rw [Scope.putIn]
    split
    · exact List.forall_mem_cons.mpr ⟨hvalue, hbindings⟩
    · exact List.forall_mem_cons.mpr ⟨hv, forall_mem_putIn hvalue hbindings⟩

theorem holds_nil : Holds D [] := fun _ hscope =>
  absurd hscope List.not_mem_nil

theorem holds_cons {scope : Scope} :
    Holds D (scope :: s) ↔ (∀ binding ∈ scope.bindings, D binding.2) ∧ Holds D s :=
  List.forall_mem_cons

theorem Holds.enter (h : s.Holds D) (kind : Scope.Kind) : (s.enter kind).Holds D :=
  holds_cons.mpr ⟨fun _ hbinding => absurd hbinding List.not_mem_nil, h⟩

theorem Holds.create (h : s.Holds D) (hvalue : D value) (hcreate : s.create name value = .ok t) :
    t.Holds D := by
  cases s with
  | nil => simp [ScopeStack.create] at hcreate
  | cons scope below =>
    obtain rfl : scope.put name value :: below = t := by
      simpa [ScopeStack.create] using hcreate
    obtain ⟨hscope, hbelow⟩ := holds_cons.mp h
    exact holds_cons.mpr ⟨forall_mem_putIn hvalue hscope, hbelow⟩

theorem Holds.set? (h : s.Holds D) (hvalue : D value) (hset : s.set? name value = some t) :
    t.Holds D := by
  induction s generalizing t with
  | nil => simp [ScopeStack.set?] at hset
  | cons scope below ih =>
    obtain ⟨hscope, hbelow⟩ := holds_cons.mp h
    rw [ScopeStack.set?] at hset
    split at hset
    · obtain rfl : scope.put name value :: below = t := by simpa using hset
      exact holds_cons.mpr ⟨forall_mem_putIn hvalue hscope, hbelow⟩
    · cases hk : scope.kind with
      | detached => simp [hk] at hset
      | nested =>
        simp only [hk, Option.map_eq_some_iff] at hset
        obtain ⟨changed, hchanged, rfl⟩ := hset
        exact holds_cons.mpr ⟨hscope, ih hbelow hchanged⟩

/-- What a lookup finds has the property. -/
theorem Holds.get? (h : s.Holds D) (hget : s.get? name = some value) : D value := by
  induction s with
  | nil => simp [ScopeStack.get?] at hget
  | cons scope below ih =>
    obtain ⟨hscope, hbelow⟩ := holds_cons.mp h
    rw [ScopeStack.get?] at hget
    split at hget
    · rename_i found hfound
      obtain rfl : found = value := by simpa using hget
      obtain ⟨before, behind, hsplit, _⟩ := List.lookup_eq_some_iff.mp hfound
      refine hscope (name, found) ?_
      rw [hsplit]
      exact List.mem_append_right _ List.mem_cons_self
    · split at hget
      · exact ih hbelow hget
      · cases hget

end ScopeStack

/-! ## Machines -/

namespace Machine

/-- The values of variables have the property `D`, and functions are built from such values, with
expressions missing only if `M`. -/
structure Ready (D : Value → Prop) (M : Prop) (m : Machine) : Prop where
  scopes : m.scopes.Holds D
  functions : Program.BuiltFrom D M m.functions

/-- There is also a scope to declare in. -/
structure Active (D : Value → Prop) (M : Prop) (m : Machine) : Prop extends Ready D M m where
  active : m.scopes ≠ []

variable {m left : Machine}

/-- Entering a scope makes a machine active. -/
theorem Ready.enter (h : m.Ready D M) (kind : Scope.Kind) :
    Active D M { m with scopes := m.scopes.enter kind } :=
  { h with scopes := h.scopes.enter kind, active := List.cons_ne_nil _ _ }

/-- Within the frame of a machine with a scope there is one. -/
theorem Frame.scopes_ne_nil (h : m.Frame left) (hactive : m.scopes ≠ []) : left.scopes ≠ [] := by
  intro hnil
  have hkinds := h.scopes.kinds
  rw [hnil, List.map_nil] at hkinds
  exact hactive (List.map_eq_nil_iff.mp hkinds.symm)

end Machine

/-! ## Runs -/

/-- The fault is the program's own, or an expression is missing where that can be. -/
def Fault.Expected (M : Prop) (fault : Fault) : Prop :=
  fault.isOfProgram = true ∨ M ∧ fault = .missingExpression

namespace Run

/-- What a run comes to on a machine: a value with the property `V` or an expected fault, and in
either case a machine with the property `G`. -/
structure Upheld (G : Machine → Prop) (M : Prop) (V : α → Prop) (run : Run α) (m : Machine) :
    Prop where
  value : ∀ a, run.result m = .ok a → V a
  fault : ∀ fault, run.result m = .error fault → fault.Expected M
  left : G (run.after m)

/-- A run that comes to that on every machine with the property `G`. -/
def Upholds (G : Machine → Prop) (M : Prop) (V : α → Prop) (run : Run α) : Prop :=
  ∀ m, G m → Upheld G M V run m

variable {G : Machine → Prop} {V : α → Prop} {W : β → Prop} {run : Run α} {m left : Machine}

theorem Upheld.of_ok {a : α} (h : run m = .ok a left) (hvalue : V a) (hleft : G left) :
    Upheld G M V run m := by
  refine ⟨fun b hb => ?_, fun fault hfault => ?_, ?_⟩
  · rw [result_of_ok h] at hb
    cases hb
    exact hvalue
  · rw [result_of_ok h] at hfault
    cases hfault
  · rw [after_of_ok h]
    exact hleft

theorem Upheld.of_error {fault : Fault} (h : run m = .error fault left)
    (hfault : fault.Expected M) (hleft : G left) : Upheld G M V run m := by
  refine ⟨fun b hb => ?_, fun other hother => ?_, ?_⟩
  · rw [result_of_error h] at hb
    cases hb
  · rw [result_of_error h] at hother
    cases hother
    exact hfault
  · rw [after_of_error h]
    exact hleft

/-- Only what the run does on this machine counts. -/
theorem Upheld.of_apply_eq {run' : Run α} {m' : Machine} (heq : run m = run' m')
    (h : Upheld G M V run' m') : Upheld G M V run m := by
  have hresult : run.result m = run'.result m' := by rw [result, heq, result]
  have hafter : run.after m = run'.after m' := by rw [after, heq, after]
  refine ⟨fun a ha => h.value a (hresult ▸ ha), fun f hf => h.fault f (hresult ▸ hf), ?_⟩
  rw [hafter]
  exact h.left

/-- What a run that succeeds hands on. -/
theorem Upheld.of_apply_ok (h : Upheld G M V run m) {a : α} (hrun : run m = .ok a left) :
    V a ∧ G left := by
  refine ⟨h.value a (result_of_ok hrun), ?_⟩
  have hleft := h.left
  rw [after_of_ok hrun] at hleft
  exact hleft

theorem upholds_pure {a : α} (h : V a) : Upholds G M V (pure a) := fun _ hm =>
  .of_ok rfl h hm

theorem upholds_throw {fault : Fault} (h : fault.Expected M) :
    Upholds G M V (throw fault : Run α) := fun _ hm =>
  .of_error rfl h hm

theorem Upholds.bind {f : α → Run β} (h : Upholds G M V run)
    (hf : ∀ a, V a → Upholds G M W (f a)) : Upholds G M W (run >>= f) := by
  intro m hm
  have hfirst := h m hm
  cases hrun : run m with
  | ok a left =>
    obtain ⟨ha, hleft⟩ := hfirst.of_apply_ok hrun
    exact .of_apply_eq (bind_of_ok hrun f) (hf a ha left hleft)
  | error fault left =>
    have hleft := hfirst.left
    rw [after_of_error hrun] at hleft
    exact .of_error (bind_of_error hrun f) (hfirst.fault fault (result_of_error hrun)) hleft

theorem upholds_ofOperator (hD : Value.Closed D) (op : Operator) (left right : Value) :
    Upholds G M D (ofOperator (op.apply left right)) := by
  cases happly : op.apply left right with
  | ok v => exact upholds_pure (hD.operator happly)
  | error fault => exact upholds_throw (Or.inl rfl)

theorem upholds_expectBool (role : Fault.Role) (value : Value) :
    Upholds G M (fun _ => True) (expectBool role value) := by
  cases value with
  | bool b => exact upholds_pure trivial
  | _ => exact upholds_throw (Or.inl rfl)

/-! ### The steps that read and change the machine -/

theorem upholds_readVariable (name : String) :
    Upholds (Machine.Active D M) M D (readVariable name) := by
  intro m hm
  cases hget : m.scopes.get? name with
  | none =>
    have hread : readVariable name m = .error (.undefinedVariable name) m := by
      simp only [readVariable, ScopeStack.get, hget, Option.getD_none]
    exact .of_error hread (Or.inl rfl) hm
  | some v =>
    have hv : D v := hm.scopes.get? hget
    cases v with
    | absent =>
      have hread : readVariable name m = .error (.undefinedVariable name) m := by
        simp only [readVariable, ScopeStack.get, hget, Option.getD_some]
      exact .of_error hread (Or.inl rfl) hm
    | int | string | bool | tuple =>
      refine .of_ok ?_ hv hm
      simp only [readVariable, ScopeStack.get, hget, Option.getD_some]

theorem upholds_declare (name : String) {value : Value} (h : D value) :
    Upholds (Machine.Active D M) M D (declare name value) := by
  intro m hm
  cases hcreate : m.scopes.create name value with
  | ok scopes =>
    have hdeclare : declare name value m = .ok value { m with scopes } :=
      bind_of_ok (a := ()) (by simp only [changeScopes, hcreate]) _
    refine .of_ok hdeclare h { hm with scopes := hm.scopes.create h hcreate, active := ?_ }
    exact (Machine.Frame.of_scopes (ScopeStack.frame_of_create hcreate)).scopes_ne_nil hm.active
  | error fault =>
    -- without a scope the machine would not be active
    cases hs : m.scopes with
    | nil => exact absurd hs hm.active
    | cons scope below =>
      rw [hs, ScopeStack.create] at hcreate
      cases hcreate

theorem upholds_assign (name : String) {value : Value} (h : D value) :
    Upholds (Machine.Active D M) M D (assign name value) := by
  intro m hm
  cases hset : m.scopes.set? name value with
  | some scopes =>
    have hassign : assign name value m = .ok value { m with scopes } := by
      simp only [assign, hset]
    have hframe : m.Frame { m with scopes } := .of_scopes (ScopeStack.sameNames_of_set? hset).frame
    exact .of_ok hassign h
      { hm with scopes := hm.scopes.set? h hset, active := hframe.scopes_ne_nil hm.active }
  | none =>
    have hassign : assign name value m = .error (.undeclaredVariable name) m := by
      simp only [assign, hset]
    exact .of_error hassign (Or.inl rfl) hm

theorem upholds_note (line : String) :
    Upholds (Machine.Active D M) M (fun _ => True) (note line) := fun _ hm =>
  .of_ok rfl trivial { hm with }

theorem upholds_print (text : String) :
    Upholds (Machine.Active D M) M (fun _ => True) (print text) := fun _ hm =>
  .of_ok rfl trivial { hm with }

theorem upholds_callPrint (hD : Value.Closed D) (args : List Value) :
    Upholds (Machine.Active D M) M D (callPrint args) := by
  match args with
  | [value] =>
    refine (upholds_print value.display).bind fun _ _ => ?_
    exact (upholds_print "\n").bind fun _ _ => upholds_pure hD.unit
  | [] => exact upholds_throw (Or.inl rfl)
  | _ :: _ :: _ => exact upholds_throw (Or.inl rfl)

/-- A block is left with the stack below its scope, which holds what it held. -/
theorem Upholds.inBlock (h : Upholds (Machine.Active D M) M V run)
    (hframe : KeepsFrame run) : Upholds (Machine.Active D M) M V (inScope .nested run) := by
  intro m hm
  have hinner := h _ (hm.enter .nested)
  obtain ⟨top, below, hscopes⟩ := hframe.exists_cons .nested m
  obtain ⟨hresult, hafter⟩ := inScope_of_cons hscopes
  refine ⟨fun a ha => hinner.value a (hresult ▸ ha), fun f hf => hinner.fault f (hresult ▸ hf), ?_⟩
  have hbelow := (hframe.inBlock m).scopes_ne_nil hm.active
  have hholds := hinner.left.scopes
  rw [hafter] at hbelow ⊢
  rw [hscopes] at hholds
  exact { hinner.left with scopes := (ScopeStack.holds_cons.mp hholds).2, active := hbelow }

/-! ## Expressions -/

section Evaluation

variable {c : Callee}

/-- A way to call functions that stays in the frame, and upholds the contract if its arguments have
the property `D`. -/
structure Callee.Sound (D : Value → Prop) (M : Prop) (c : Callee) : Prop where
  upholds : ∀ name args, (∀ v ∈ args, D v) →
    Upholds (Machine.Active D M) M D (c name args)
  keepsFrame : ∀ name args, KeepsFrame (c name args)

theorem Callee.Sound.keepsFrame_evalSequenceWith (hc : Callee.Sound D M c) (es : List Expr)
    (last : Value) : KeepsFrame (evalSequenceWith c es last) :=
  (callCongruence_keepsFrame.evalSequenceWith (fun name args => ⟨rfl, hc.keepsFrame name args⟩)
    es last).2

mutual

/-- Evaluation upholds the contract, for every expression that is built as it should be. -/
theorem upholds_evalWith (hD : Value.Closed D) (hc : Callee.Sound D M c) :
    ∀ e : Expr, e.BuiltFrom D M → Upholds (Machine.Active D M) M D (evalWith c e)
  | .lit value, h => by
    rw [evalWith]
    exact upholds_pure h
  | .name name, _ => by
    rw [evalWith]
    exact upholds_readVariable name
  | .call name args, h => by
    rw [evalWith]
    exact (upholds_evalEachWith hD hc args h).bind fun values hvalues =>
      hc.upholds name values hvalues
  | .declare name value, h => by
    rw [evalWith]
    exact (upholds_evalWith hD hc value h).bind fun v hv => upholds_declare name hv
  | .assign name value, h => by
    rw [evalWith]
    exact (upholds_evalWith hD hc value h).bind fun v hv => upholds_assign name hv
  | .block body, h => by
    rw [evalWith]
    exact (upholds_evalSequenceWith hD hc body h hD.unit).inBlock
      (hc.keepsFrame_evalSequenceWith body .unit)
  | .binary op left right, ⟨hleft, hright⟩ => by
    rw [evalWith]
    refine (upholds_evalWith hD hc left hleft).bind fun l _ => ?_
    refine (upholds_evalWith hD hc right hright).bind fun r _ => ?_
    exact upholds_ofOperator hD op l r
  | .conditional op left right, ⟨hleft, hright⟩ => by
    rw [evalWith]
    refine (upholds_evalWith hD hc left hleft).bind fun l _ => ?_
    refine (upholds_expectBool _ l).bind fun b _ => ?_
    match op, b with
    | .and, false => exact upholds_pure (hD.bool false)
    | .or, true => exact upholds_pure (hD.bool true)
    | .and, true => exact upholds_evalWith hD hc right hright
    | .or, false => exact upholds_evalWith hD hc right hright
  | .ifElse condition thenBody elseBody, ⟨hcondition, hthen, helse⟩ => by
    rw [evalWith]
    refine (upholds_evalWith hD hc condition hcondition).bind fun v _ => ?_
    refine (upholds_expectBool _ v).bind fun b _ => ?_
    cases b with
    | true => exact upholds_evalSequenceWith hD hc thenBody hthen hD.unit
    | false => exact upholds_evalSequenceWith hD hc elseBody helse hD.unit
  | .not operand, h => by
    rw [evalWith]
    refine (upholds_evalWith hD hc operand h).bind fun v _ => ?_
    exact (upholds_expectBool _ v).bind fun b _ => upholds_pure (hD.bool !b)
  | .tuple items, h => by
    rw [evalWith]
    exact (upholds_evalEachWith hD hc items h).bind fun values hvalues =>
      upholds_pure (hD.tuple values hvalues)
  | .missing, h => by
    rw [evalWith]
    exact upholds_throw (Or.inr ⟨h, rfl⟩)

theorem upholds_evalSequenceWith (hD : Value.Closed D) (hc : Callee.Sound D M c) :
    ∀ (es : List Expr) {last : Value}, Expr.BuiltFromEach D M es → D last →
      Upholds (Machine.Active D M) M D (evalSequenceWith c es last)
  | [], last, _, hlast => by
    rw [evalSequenceWith]
    exact upholds_pure hlast
  | e :: es, _, ⟨he, hes⟩, _ => by
    rw [evalSequenceWith]
    exact (upholds_evalWith hD hc e he).bind fun v hv => upholds_evalSequenceWith hD hc es hes hv

theorem upholds_evalEachWith (hD : Value.Closed D) (hc : Callee.Sound D M c) :
    ∀ es : List Expr, Expr.BuiltFromEach D M es →
      Upholds (Machine.Active D M) M (fun values => ∀ v ∈ values, D v) (evalEachWith c es)
  | [], _ => by
    rw [evalEachWith]
    exact upholds_pure fun _ hv => absurd hv List.not_mem_nil
  | e :: es, ⟨he, hes⟩ => by
    rw [evalEachWith]
    refine (upholds_evalWith hD hc e he).bind fun v hv => ?_
    refine (upholds_evalEachWith hD hc es hes).bind fun vs hvs => ?_
    exact upholds_pure (List.forall_mem_cons.mpr ⟨hv, hvs⟩)

end

/-! ## Calls -/

theorem upholds_bindParams : ∀ (params : List Param) {values : List Value}, (∀ v ∈ values, D v) →
    Upholds (Machine.Active D M) M (fun _ => True) (bindParams params values)
  | param :: params, value :: values, h => by
    obtain ⟨hvalue, hvalues⟩ := List.forall_mem_cons.mp h
    exact (upholds_declare param.name hvalue).bind fun _ _ => upholds_bindParams params hvalues
  | [], _, _ => upholds_pure trivial
  | _ :: _, [], _ => upholds_pure trivial

theorem upholds_callFunctionWith (hD : Value.Closed D) (hc : Callee.Sound D M c)
    (name : String) {args : List Value} (h : ∀ v ∈ args, D v) :
    Upholds (Machine.Active D M) M D (callFunctionWith c name args) := by
  rw [callFunctionWith_eq_withFunction]
  intro m hm
  have hwith : withFunction name (callFound c name args) m =
    callFound c name args (m.function? name) m := rfl
  refine .of_apply_eq hwith ?_
  cases hfound : m.function? name with
  | none => exact upholds_throw (Or.inl rfl) m hm
  | some f =>
    have hbody : Expr.BuiltFromEach D M f.body := hm.functions f (List.mem_of_find?_eq_some hfound)
    by_cases harity : args.length = f.arity
    · simp only [callFound, ne_eq, harity, not_true_eq_false, if_false]
      refine Upholds.bind (upholds_bindParams f.params h) (fun _ _ => ?_) m hm
      refine (upholds_note _).bind fun _ _ => ?_
      exact upholds_evalSequenceWith hD hc f.body hbody hD.unit
    · simp only [callFound, ne_eq, harity, not_false_eq_true, if_true]
      exact upholds_throw (Or.inl rfl) m hm

theorem upholds_callBody (hD : Value.Closed D) (hc : Callee.Sound D M c) (name : String)
    {args : List Value} (h : ∀ v ∈ args, D v) :
    Upholds (Machine.Active D M) M D (callBody c name args) := by
  by_cases hprint : name = printName
  · simp only [callBody, hprint, if_true]
    exact upholds_callPrint hD args
  · simp only [callBody, hprint, if_false]
    exact upholds_callFunctionWith hD hc name h

/-- A call brings a scope of its own, so that its body starts on an active machine; and it leaves
the stack as it was. -/
theorem Upholds.inCall {body : Run Value} (h : Upholds (Machine.Active D M) M D body)
    (hframe : KeepsFrame body) (name : String) :
    Upholds (Machine.Ready D M) M D (inCall name body) := by
  intro m hm
  by_cases hdepth : m.callDepth < m.maxCallDepth
  · have hopened : Machine.Ready D M { m with callDepth := m.callDepth + 1 } := { hm with }
    have hinner := h _ (hopened.enter .detached)
    obtain ⟨top, below, hscopes⟩ :=
      hframe.exists_cons .detached { m with callDepth := m.callDepth + 1 }
    obtain ⟨hresult, hafter⟩ := inScope_of_cons hscopes
    obtain ⟨hcall, hleft⟩ := inCall_of_lt name body hdepth
    have hsame := hframe.scopes_inCall name m
    rw [hresult] at hcall
    rw [hafter] at hleft
    refine ⟨fun a ha => hinner.value a (hcall ▸ ha), fun f hf => hinner.fault f (hcall ▸ hf), ?_⟩
    refine ⟨?_, ?_⟩
    · rw [hsame]
      exact hm.scopes
    · rw [hleft]
      exact hinner.left.functions
  · exact .of_error (inCall_of_ge name body (Int.not_lt.mp hdepth)) (Or.inl rfl) hm

/-- A run that stays in the frame leaves a machine active if it was. -/
theorem Upholds.active (h : Upholds (Machine.Ready D M) M V run) (hframe : KeepsFrame run) :
    Upholds (Machine.Active D M) M V run := by
  intro m hm
  have hready := h m hm.toReady
  exact { hready with left := { hready.left with active := (hframe m).scopes_ne_nil hm.active } }

/-- For calls it is enough that the machine is ready. -/
theorem Callee.sound_of_ready
    (h : ∀ name args, (∀ v ∈ args, D v) → Upholds (Machine.Ready D M) M D (c name args))
    (hframe : ∀ name args, KeepsFrame (c name args)) : Callee.Sound D M c :=
  ⟨fun name args hargs => (h name args hargs).active (hframe name args), hframe⟩

theorem upholds_callUpTo (hD : Value.Closed D) (count : Nat) (name : String) (args : List Value)
    (h : ∀ v ∈ args, D v) : Upholds (Machine.Ready D M) M D (callUpTo count name args) := by
  induction count generalizing name args with
  | zero => exact fun m hm => .of_error rfl (Or.inl rfl) hm
  | succ count ih =>
    have hc : Callee.Sound D M (callUpTo count) :=
      Callee.sound_of_ready ih (keepsFrame_callUpTo count)
    rw [callUpTo, callWith_eq_inCall]
    exact (upholds_callBody hD hc name h).inCall (keepsFrame_callBody count name args) name

theorem sound_callUpTo (hD : Value.Closed D) (count : Nat) :
    Callee.Sound D M (callUpTo count) :=
  Callee.sound_of_ready (upholds_callUpTo hD count) (keepsFrame_callUpTo count)

/-! ## Whole runs -/

/-- However deep the machine lets calls go. -/
theorem upholds_withCalls {run : Callee → Run α}
    (h : ∀ count, Upholds G M V (run (callUpTo count))) : Upholds G M V (withCalls run) :=
  fun m hm => .of_apply_eq (withCalls_apply run m) (h _ m hm)

theorem upholds_call (hD : Value.Closed D) (name : String) {args : List Value}
    (h : ∀ v ∈ args, D v) : Upholds (Machine.Ready D M) M D (call name args) :=
  upholds_withCalls fun count => upholds_callUpTo hD count name args h

/-- Running a program upholds the contract, from any machine whose variables have the property. -/
theorem upholds_interpret (hD : Value.Closed D) {program : Program} (h : program.BuiltFrom D M) :
    Upholds (fun m => m.scopes.Holds D) M D (interpret program) := by
  intro m hm
  cases hnames : firstRepeated? [] (program.map Function.name) with
  | some name => exact .of_error (interpret_of_repeated hnames m) (Or.inl rfl) hm
  | none =>
    have hloaded : Machine.Ready D M (loaded program m) := ⟨hm, h⟩
    have hcall := upholds_call hD mainName (fun _ hv => absurd hv List.not_mem_nil) _ hloaded
    exact .of_apply_eq (interpret_of_distinct hnames m) { hcall with left := hcall.left.scopes }

end Evaluation

end Run

end Scriptlet
