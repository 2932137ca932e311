import Mathlib.Data.Option.Basic
import Scriptlet.Diagnostic
import Scriptlet.Proofs.Sessions

/-!
# Programs that run side by side

There are changes to a program that make no difference to its runs: functions can be left out that
are never called, variables can get other names.  In each case the two programs are run side by
side, and every step of the one has its counterpart in the other.

`Congruence` does not fit here.  It compares two runs of one tree, and asks that the relation hold
of every call; here the trees differ by the names of their variables, and a call of a function that
was left out has no counterpart.  So the trees that are compared may mention only some names.  A
`Correspondence` fixes those, and the renaming of variables, which must not confuse two of them.

The stacks of the two machines differ by the renaming alone, scope by scope and binding by binding.
Of the two tables it is asked that they agree, up to the renaming, on the functions that may be
called, and that the bodies of those mention again only names that may be mentioned.  All this is
`Machine.Counterpart`, and `Run.Parallel` says of two steps that they keep it, give the same value,
or fail alike.  That evaluation is parallel is an induction over expressions (`parallel_evalWith`);
that calls are is one over the number of calls inside one another (`parallel_callUpTo`).
-/

namespace Scriptlet

/-! ## Names in trees -/

/-- A name that a tree mentions, and what it is a name of. -/
inductive Mention where
  | var (name : String)
  | callee (name : String)
  deriving DecidableEq, Repr

namespace Expr

mutual

/-- The names that a tree mentions, at any depth. -/
def mentions : Expr → List Mention
  | .lit _ | .missing => []
  | .name n => [.var n]
  | .call n args => .callee n :: mentionsEach args
  | .declare n value => .var n :: mentions value
  | .assign n value => .var n :: mentions value
  | .block body => mentionsEach body
  | .binary _ left right => mentions left ++ mentions right
  | .conditional _ left right => mentions left ++ mentions right
  | .ifElse condition thenBody elseBody =>
    mentions condition ++ (mentionsEach thenBody ++ mentionsEach elseBody)
  | .not operand => mentions operand
  | .tuple items => mentionsEach items

/-- The names that some trees mention. -/
def mentionsEach : List Expr → List Mention
  | [] => []
  | e :: es => mentions e ++ mentionsEach es

end

mutual

/-- The tree with other names for its variables.  What it calls keeps its name. -/
def rename (ρ : String → String) : Expr → Expr
  | .lit value => .lit value
  | .name n => .name (ρ n)
  | .call n args => .call n (renameEach ρ args)
  | .declare n value => .declare (ρ n) (rename ρ value)
  | .assign n value => .assign (ρ n) (rename ρ value)
  | .block body => .block (renameEach ρ body)
  | .binary op left right => .binary op (rename ρ left) (rename ρ right)
  | .conditional op left right => .conditional op (rename ρ left) (rename ρ right)
  | .ifElse condition thenBody elseBody =>
    .ifElse (rename ρ condition) (renameEach ρ thenBody) (renameEach ρ elseBody)
  | .not operand => .not (rename ρ operand)
  | .tuple items => .tuple (renameEach ρ items)
  | .missing => .missing

/-- The trees with other names for their variables. -/
def renameEach (ρ : String → String) : List Expr → List Expr
  | [] => []
  | e :: es => rename ρ e :: renameEach ρ es

end

mutual

/-- Keeping all names changes nothing. -/
theorem rename_id : ∀ e : Expr, e.rename id = e
  | .lit _ | .name _ | .missing => rfl
  | .call _ xs | .block xs | .tuple xs => by rw [rename, renameEach_id xs]
  | .declare _ x | .assign _ x => by rw [rename, rename_id x, id]
  | .not x => by rw [rename, rename_id x]
  | .binary _ x y | .conditional _ x y => by rw [rename, rename_id x, rename_id y]
  | .ifElse x xs ys => by rw [rename, rename_id x, renameEach_id xs, renameEach_id ys]

theorem renameEach_id : ∀ es : List Expr, renameEach id es = es
  | [] => rfl
  | e :: es => by rw [renameEach, rename_id e, renameEach_id es]

end

end Expr

/-- The names that a function mentions: its parameters and those in its body. -/
def Function.mentions (f : Function) : List Mention :=
  f.params.map (fun p => .var p.name) ++ Expr.mentionsEach f.body

/-- The function of that name. -/
def Program.function? (program : Program) (name : String) : Option Function :=
  program.find? (·.name == name)

/-! ## Names in faults -/

/-- The fault with other names for variables. -/
def ScopeStack.Fault.rename (ρ : String → String) : ScopeStack.Fault → ScopeStack.Fault
  | .createEmpty name => .createEmpty (ρ name)
  | .exitEmpty => .exitEmpty
  | .reported text => .reported text

/-- The fault with other names for variables. -/
def Fault.rename (ρ : String → String) : Fault → Fault
  | .undefinedVariable name => .undefinedVariable (ρ name)
  | .undeclaredVariable name => .undeclaredVariable (ρ name)
  | .scopes fault => .scopes (fault.rename ρ)
  | fault => fault

/-- The failure with other names for variables. -/
def Failure.rename (ρ : String → String) : Failure → Failure
  | .reading e => .reading e
  | .hostLimit => .hostLimit
  | .running fault => .running (fault.rename ρ)

theorem Failure.rename_id (failure : Failure) : failure.rename id = failure := by
  cases failure with
  | reading | hostLimit => rfl
  | running fault =>
    cases fault with
    | scopes fault => cases fault <;> rfl
    | _ => rfl

/-! ## Correspondences -/

/-- A renaming of variables, and the names that may be mentioned: variables that the renaming keeps
apart, and the functions that may be called. -/
structure Correspondence where
  /-- The other name of a variable. -/
  rename : String → String
  /-- The names that may be mentioned. -/
  knows : Mention → Prop
  /-- Variables that may be mentioned have different other names. -/
  rename_inj : ∀ ⦃x y⦄, knows (.var x) → knows (.var y) → rename x = rename y → x = y

variable {T : Correspondence}

/-- A function and its counterpart: they differ by the names of variables and by annotations, and
the names that they mention may be mentioned. -/
structure Function.Counterpart (T : Correspondence) (f g : Function) : Prop where
  params : g.params.map Param.name = f.params.map fun p => T.rename p.name
  body : g.body = Expr.renameEach T.rename f.body
  known : ∀ o ∈ f.mentions, T.knows o

/-! ## Stacks of scopes -/

namespace Scope

/-- The scope with other names for its variables. -/
def rename (ρ : String → String) (scope : Scope) : Scope :=
  { scope with bindings := scope.bindings.map fun b => (ρ b.1, b.2) }

/-- The scope binds only variables that may be mentioned. -/
def Known (T : Correspondence) (scope : Scope) : Prop :=
  ∀ n ∈ scope.names, T.knows (.var n)

theorem Known.get?_rename {scope : Scope} (h : scope.Known T) {name : String}
    (hname : T.knows (.var name)) :
    (scope.rename T.rename).get? (T.rename name) = scope.get? name := by
  obtain ⟨kind, bindings⟩ := scope
  rw [get?, get?, rename]
  induction bindings with
  | nil => rfl
  | cons b bindings ih =>
    obtain ⟨hb, hbindings⟩ := List.forall_mem_cons.mp h
    rw [List.map_cons, List.lookup_cons, List.lookup_cons, ih hbindings]
    by_cases heq : name = b.1
    · simp [heq]
    · have hne : T.rename name ≠ T.rename b.1 := fun hren => heq (T.rename_inj hname hb hren)
      rw [beq_false_of_ne heq, beq_false_of_ne hne]

theorem Known.binds_rename {scope : Scope} (h : scope.Known T) {name : String}
    (hname : T.knows (.var name)) :
    (scope.rename T.rename).binds (T.rename name) = scope.binds name := by
  rw [binds, binds, h.get?_rename hname]

theorem Known.put_rename {scope : Scope} (h : scope.Known T) {name : String} (value : Value)
    (hname : T.knows (.var name)) :
    (scope.rename T.rename).put (T.rename name) value = (scope.put name value).rename T.rename := by
  obtain ⟨kind, bindings⟩ := scope
  simp only [put, rename, mk.injEq, true_and]
  induction bindings with
  | nil => rfl
  | cons b bindings ih =>
    obtain ⟨hb, hbindings⟩ := List.forall_mem_cons.mp h
    rw [List.map_cons, putIn, putIn, ih hbindings]
    by_cases heq : b.1 = name
    · rw [if_pos heq, if_pos (congrArg T.rename heq), List.map_cons]
    · rw [if_neg heq, if_neg fun hren => heq (T.rename_inj hb hname hren), List.map_cons]

theorem Known.put {scope : Scope} (h : scope.Known T) {name : String} (value : Value)
    (hname : T.knows (.var name)) : (scope.put name value).Known T := by
  intro n hn
  by_cases hmem : name ∈ scope.names
  · rw [names_put_of_binds value ((scope.binds_iff_mem_names name).mpr hmem)] at hn
    exact h n hn
  · have hnames : (scope.put name value).names = scope.names ++ [name] :=
      map_fst_putIn_of_notMem value hmem
    rw [hnames, List.mem_append, List.mem_singleton] at hn
    rcases hn with hn | rfl
    · exact h n hn
    · exact hname

end Scope

namespace ScopeStack

/-- A stack and its counterpart, which has other names for the variables. -/
structure Counterpart (T : Correspondence) (s t : ScopeStack) : Prop where
  renamed : t = s.map (Scope.rename T.rename)
  known : ∀ scope ∈ s, scope.Known T

namespace Counterpart

variable {s t : ScopeStack} {scope : Scope} {name : String}

theorem cons (hscope : scope.Known T) (h : Counterpart T s t) :
    Counterpart T (scope :: s) (scope.rename T.rename :: t) :=
  ⟨by rw [h.renamed, List.map_cons], List.forall_mem_cons.mpr ⟨hscope, h.known⟩⟩

/-- The counterpart of a stack with a scope on top has that scope on top. -/
theorem exists_of_cons (h : Counterpart T (scope :: s) t) :
    ∃ t', t = scope.rename T.rename :: t' ∧ scope.Known T ∧ Counterpart T s t' := by
  obtain ⟨hscope, hknown⟩ := List.forall_mem_cons.mp h.known
  exact ⟨_, h.renamed, hscope, rfl, hknown⟩

theorem eq_nil (h : Counterpart T [] t) : t = [] := h.renamed

theorem enter (h : Counterpart T s t) (kind : Scope.Kind) :
    Counterpart T (s.enter kind) (t.enter kind) := by
  have hfresh : Scope.Known T { kind } := fun _ hn => absurd hn List.not_mem_nil
  exact h.cons hfresh

/-- The same values are visible, under the other names. -/
theorem get? (h : Counterpart T s t) (hname : T.knows (.var name)) :
    t.get? (T.rename name) = s.get? name := by
  induction s generalizing t with
  | nil => rw [h.eq_nil]; rfl
  | cons scope below ih =>
    obtain ⟨t', rfl, hscope, hbelow⟩ := h.exists_of_cons
    rw [ScopeStack.get?, ScopeStack.get?, hscope.get?_rename hname, ih hbelow]
    rfl

/-- An assignment finds its variable in both stacks or in none. -/
theorem set? (h : Counterpart T s t) (hname : T.knows (.var name)) (value : Value) :
    Option.Rel (Counterpart T) (s.set? name value) (t.set? (T.rename name) value) := by
  induction s generalizing t with
  | nil =>
    rw [h.eq_nil]
    exact .none
  | cons scope below ih =>
    obtain ⟨t', rfl, hscope, hbelow⟩ := h.exists_of_cons
    have hkind : (scope.rename T.rename).kind = scope.kind := rfl
    rw [ScopeStack.set?, ScopeStack.set?, hscope.binds_rename hname, hkind]
    by_cases hbound : scope.binds name = true
    · rw [if_pos hbound, if_pos hbound, hscope.put_rename value hname]
      exact .some (hbelow.cons (hscope.put value hname))
    · rw [if_neg hbound, if_neg hbound]
      cases scope.kind with
      | detached => exact .none
      | nested =>
        have hrest := ih hbelow
        generalize ScopeStack.set? below name value = r,
          ScopeStack.set? t' (T.rename name) value = r' at hrest ⊢
        cases hrest with
        | none => exact .none
        | some hchanged => exact .some (hchanged.cons hscope)

end Counterpart
end ScopeStack

/-! ## Machines and steps -/

/-- A machine and its counterpart: the same calls are open and allowed and the same was printed, the
stack has other names for the variables, and the functions that may be called are counterparts. -/
structure Machine.Counterpart (T : Correspondence) (m m' : Machine) : Prop where
  functions : ∀ name, T.knows (.callee name) → name ≠ Run.printName →
    Option.Rel (Function.Counterpart T) (m.function? name) (m'.function? name)
  scopes : m.scopes.Counterpart T m'.scopes
  callDepth : m'.callDepth = m.callDepth
  maxCallDepth : m'.maxCallDepth = m.maxCallDepth
  prints : m'.prints = m.prints

namespace Run

/-- The outcomes of two steps that give the same or fail alike, on counterparts. -/
inductive InStep (T : Correspondence) :
    EStateM.Result Fault Machine α → EStateM.Result Fault Machine α → Prop
  | ok {a : α} {left left' : Machine} : left.Counterpart T left' →
    InStep T (.ok a left) (.ok a left')
  | error {fault : Fault} {left left' : Machine} : left.Counterpart T left' →
    InStep T (.error fault left) (.error (fault.rename T.rename) left')

/-- Two steps that go alike from every machine and its counterpart. -/
def Parallel (T : Correspondence) (p q : Run α) : Prop :=
  ∀ ⦃m m' : Machine⦄, m.Counterpart T m' → InStep T (p m) (q m')

section Steps

variable {p q : Run α} {name : String}

theorem parallel_pure (a : α) : Parallel T (pure a : Run α) (pure a) := fun _ _ h => .ok h

theorem parallel_throw (fault : Fault) :
    Parallel T (throw fault : Run α) (throw (fault.rename T.rename)) := fun _ _ h => .error h

theorem Parallel.bind {f g : α → Run β} (h : Parallel T p q)
    (hf : ∀ a, Parallel T (f a) (g a)) : Parallel T (p >>= f) (q >>= g) := by
  intro m m' hm
  have hfirst := h hm
  generalize hp : p m = r, hq : q m' = r' at hfirst
  cases hfirst with
  | ok hleft =>
    rw [bind_of_ok hp, bind_of_ok hq]
    exact hf _ hleft
  | error hleft =>
    rw [bind_of_error hp, bind_of_error hq]
    exact .error hleft

theorem Parallel.thenAlways {c d : Run Unit} (h : Parallel T p q) (hc : Parallel T c d) :
    Parallel T (thenAlways p c) (thenAlways q d) := by
  intro m m' hm
  have hbody := h hm
  rw [Run.thenAlways, Run.thenAlways]
  generalize p m = r, q m' = r' at hbody
  cases hbody with
  | @ok _ left left' hleft =>
    have hcleanup := hc hleft
    simp only
    generalize c left = r, d left' = r' at hcleanup
    cases hcleanup with
    | ok hlast => exact .ok hlast
    | error hlast => exact .error hlast
  | @error _ left left' hleft =>
    have hcleanup := hc hleft
    simp only
    generalize c left = r, d left' = r' at hcleanup
    cases hcleanup with
    | ok hlast => exact .error hlast
    | error hlast => exact .error hlast

theorem parallel_print (text : String) : Parallel T (print text) (print text) := fun _ _ h =>
  .ok { h with prints := congrArg (·.push text) h.prints }

theorem parallel_note (line : String) : Parallel T (note line) (note line) := fun _ _ h =>
  .ok { h with }

theorem parallel_addCalls (change : Int) :
    Parallel T (addCalls change) (addCalls change) := fun _ _ h =>
  .ok { h with callDepth := congrArg (· + change) h.callDepth }

/-- A step on the stacks is parallel if it works on both or fails alike on both. -/
theorem parallel_changeScopes {f g : ScopeStack → Except ScopeStack.Fault ScopeStack}
    (h : ∀ ⦃s t⦄, s.Counterpart T t →
      (∃ s' t', f s = .ok s' ∧ g t = .ok t' ∧ s'.Counterpart T t') ∨
      ∃ fault, f s = .error fault ∧ g t = .error (fault.rename T.rename)) :
    Parallel T (changeScopes f) (changeScopes g) := by
  intro m m' hm
  rw [changeScopes, changeScopes]
  rcases h hm.scopes with ⟨s, t, hf, hg, hst⟩ | ⟨fault, hf, hg⟩
  · rw [hf, hg]
    exact .ok { hm with scopes := hst }
  · rw [hf, hg]
    exact .error hm

theorem Parallel.inScope (h : Parallel T p q) (kind : Scope.Kind) :
    Parallel T (inScope kind p) (inScope kind q) := by
  refine (parallel_changeScopes fun s t hst => ?_).bind fun _ => h.thenAlways ?_
  · exact Or.inl ⟨_, _, rfl, rfl, hst.enter kind⟩
  · refine parallel_changeScopes fun s t hst => ?_
    cases s with
    | nil =>
      rw [hst.eq_nil]
      exact Or.inr ⟨.exitEmpty, rfl, rfl⟩
    | cons scope below =>
      obtain ⟨t', rfl, _, hbelow⟩ := hst.exists_of_cons
      exact Or.inl ⟨below, t', rfl, rfl, hbelow⟩

theorem parallel_readVariable (hname : T.knows (.var name)) :
    Parallel T (readVariable name) (readVariable (T.rename name)) := by
  intro m m' hm
  have hget : m'.scopes.get (T.rename name) = m.scopes.get name := by
    rw [ScopeStack.get, ScopeStack.get, hm.scopes.get? hname]
  rw [readVariable, readVariable, hget]
  cases m.scopes.get name with
  | absent => exact .error hm
  | _ => exact .ok hm

theorem parallel_declare (hname : T.knows (.var name)) (value : Value) :
    Parallel T (declare name value) (declare (T.rename name) value) := by
  refine (parallel_changeScopes fun s t hst => ?_).bind fun _ => parallel_pure value
  cases s with
  | nil =>
    rw [hst.eq_nil]
    exact Or.inr ⟨.createEmpty name, rfl, rfl⟩
  | cons scope below =>
    obtain ⟨t', rfl, hscope, hbelow⟩ := hst.exists_of_cons
    refine Or.inl ⟨_, _, rfl, rfl, ?_⟩
    rw [hscope.put_rename value hname]
    exact hbelow.cons (hscope.put value hname)

theorem parallel_assign (hname : T.knows (.var name)) (value : Value) :
    Parallel T (assign name value) (assign (T.rename name) value) := by
  intro m m' hm
  have hset := hm.scopes.set? hname value
  rw [assign, assign]
  generalize m.scopes.set? name value = r, m'.scopes.set? (T.rename name) value = r' at hset
  cases hset with
  | none => exact .error hm
  | some hscopes => exact .ok { hm with scopes := hscopes }

theorem parallel_ofOperator (outcome : Except Operator.Fault Value) :
    Parallel T (ofOperator outcome) (ofOperator outcome) := by
  cases outcome with
  | ok value => exact parallel_pure value
  | error fault => exact parallel_throw (.operator fault)

theorem parallel_expectBool (role : Fault.Role) (value : Value) :
    Parallel T (expectBool role value) (expectBool role value) := by
  cases value with
  | bool b => exact parallel_pure b
  | _ => exact parallel_throw (.notBool role _)

end Steps

/-! ## Evaluation -/

section Evaluation

variable {c d : Callee}

mutual

/-- A tree and the renamed tree are evaluated in parallel, as long as the calls that may come up
are. -/
theorem parallel_evalWith
    (hcalls : ∀ name, T.knows (.callee name) → ∀ args, Parallel T (c name args) (d name args)) :
    ∀ e : Expr, (∀ o ∈ e.mentions, T.knows o) →
      Parallel T (evalWith c e) (evalWith d (e.rename T.rename))
  | .lit value, _ => by
    rw [Expr.rename, evalWith, evalWith]
    exact parallel_pure value
  | .name name, h => by
    rw [Expr.rename, evalWith, evalWith]
    exact parallel_readVariable (h _ List.mem_cons_self)
  | .call name args, h => by
    rw [Expr.mentions, List.forall_mem_cons] at h
    rw [Expr.rename, evalWith, evalWith]
    exact (parallel_evalEachWith hcalls args h.2).bind fun values => hcalls name h.1 values
  | .declare name value, h => by
    rw [Expr.mentions, List.forall_mem_cons] at h
    rw [Expr.rename, evalWith, evalWith]
    exact (parallel_evalWith hcalls value h.2).bind fun v => parallel_declare h.1 v
  | .assign name value, h => by
    rw [Expr.mentions, List.forall_mem_cons] at h
    rw [Expr.rename, evalWith, evalWith]
    exact (parallel_evalWith hcalls value h.2).bind fun v => parallel_assign h.1 v
  | .block body, h => by
    rw [Expr.rename, evalWith, evalWith]
    exact (parallel_evalSequenceWith hcalls body h .unit).inScope .nested
  | .binary op left right, h => by
    rw [Expr.mentions, List.forall_mem_append] at h
    rw [Expr.rename, evalWith, evalWith]
    refine (parallel_evalWith hcalls left h.1).bind fun l => ?_
    exact (parallel_evalWith hcalls right h.2).bind fun r => parallel_ofOperator (op.apply l r)
  | .conditional op left right, h => by
    rw [Expr.mentions, List.forall_mem_append] at h
    rw [Expr.rename, evalWith, evalWith]
    refine (parallel_evalWith hcalls left h.1).bind fun l => ?_
    refine (parallel_expectBool _ l).bind fun b => ?_
    match op, b with
    | .and, false => exact parallel_pure _
    | .or, true => exact parallel_pure _
    | .and, true => exact parallel_evalWith hcalls right h.2
    | .or, false => exact parallel_evalWith hcalls right h.2
  | .ifElse condition thenBody elseBody, h => by
    rw [Expr.mentions, List.forall_mem_append, List.forall_mem_append] at h
    rw [Expr.rename, evalWith, evalWith]
    refine (parallel_evalWith hcalls condition h.1).bind fun v => ?_
    refine (parallel_expectBool _ v).bind fun b => ?_
    cases b with
    | true => exact parallel_evalSequenceWith hcalls thenBody h.2.1 .unit
    | false => exact parallel_evalSequenceWith hcalls elseBody h.2.2 .unit
  | .not operand, h => by
    rw [Expr.rename, evalWith, evalWith]
    refine (parallel_evalWith hcalls operand h).bind fun v => ?_
    exact (parallel_expectBool _ v).bind fun b => parallel_pure _
  | .tuple items, h => by
    rw [Expr.rename, evalWith, evalWith]
    exact (parallel_evalEachWith hcalls items h).bind fun values => parallel_pure _
  | .missing, _ => by
    rw [Expr.rename, evalWith, evalWith]
    exact parallel_throw .missingExpression

theorem parallel_evalSequenceWith
    (hcalls : ∀ name, T.knows (.callee name) → ∀ args, Parallel T (c name args) (d name args)) :
    ∀ es : List Expr, (∀ o ∈ Expr.mentionsEach es, T.knows o) → ∀ last : Value,
      Parallel T (evalSequenceWith c es last)
        (evalSequenceWith d (Expr.renameEach T.rename es) last)
  | [], _, last => by
    rw [Expr.renameEach, evalSequenceWith, evalSequenceWith]
    exact parallel_pure last
  | e :: es, h, _ => by
    rw [Expr.mentionsEach, List.forall_mem_append] at h
    rw [Expr.renameEach, evalSequenceWith, evalSequenceWith]
    exact (parallel_evalWith hcalls e h.1).bind fun v => parallel_evalSequenceWith hcalls es h.2 v

theorem parallel_evalEachWith
    (hcalls : ∀ name, T.knows (.callee name) → ∀ args, Parallel T (c name args) (d name args)) :
    ∀ es : List Expr, (∀ o ∈ Expr.mentionsEach es, T.knows o) →
      Parallel T (evalEachWith c es) (evalEachWith d (Expr.renameEach T.rename es))
  | [], _ => by
    rw [Expr.renameEach, evalEachWith, evalEachWith]
    exact parallel_pure []
  | e :: es, h => by
    rw [Expr.mentionsEach, List.forall_mem_append] at h
    rw [Expr.renameEach, evalEachWith, evalEachWith]
    refine (parallel_evalWith hcalls e h.1).bind fun v => ?_
    exact (parallel_evalEachWith hcalls es h.2).bind fun vs => parallel_pure _

end

/-! ## Calls -/

/-- Parameters are bound in parallel; nothing but their names counts. -/
theorem parallel_bindParams {ps qs : List Param} (values : List Value)
    (hnames : qs.map Param.name = ps.map fun p => T.rename p.name)
    (hknown : ∀ p ∈ ps, T.knows (.var p.name)) :
    Parallel T (bindParams ps values) (bindParams qs values) := by
  induction ps generalizing qs values with
  | nil =>
    obtain rfl : qs = [] := List.map_eq_nil_iff.mp hnames
    exact parallel_pure ()
  | cons p ps ih =>
    obtain ⟨q, qs, rfl⟩ : ∃ q qs', qs = q :: qs' := by
      cases qs with
      | nil => cases hnames
      | cons q qs => exact ⟨q, qs, rfl⟩
    rw [List.map_cons, List.map_cons, List.cons.injEq] at hnames
    obtain ⟨hp, hps⟩ := List.forall_mem_cons.mp hknown
    cases values with
    | nil => exact parallel_pure ()
    | cons value values =>
      rw [bindParams, bindParams, hnames.1]
      exact (parallel_declare hp value).bind fun _ => ih values hnames.2 hps

theorem parallel_callPrint (args : List Value) : Parallel T (callPrint args) (callPrint args) := by
  match args with
  | [value] =>
    refine (parallel_print value.display).bind fun _ => ?_
    exact (parallel_print "\n").bind fun _ => parallel_pure _
  | [] => exact parallel_throw (.printArity 0)
  | _ :: _ :: _ => exact parallel_throw (.printArity _)

theorem parallel_callFound
    (hcalls : ∀ name, T.knows (.callee name) → ∀ args, Parallel T (c name args) (d name args))
    {found found' : Option Function} (h : Option.Rel (Function.Counterpart T) found found')
    (name : String) (args : List Value) :
    Parallel T (callFound c name args found) (callFound d name args found') := by
  cases h with
  | none => exact parallel_throw (.unknownFunction name)
  | @some f g hfg =>
    have harity : g.arity = f.arity := by
      rw [Function.arity, Function.arity, ← List.length_map Param.name, hfg.params,
        List.length_map]
    rw [callFound, callFound, harity, hfg.body]
    split
    · exact parallel_throw (.arity name f.arity args.length)
    · have hknown := hfg.known
      rw [Function.mentions, List.forall_mem_append, List.forall_mem_map] at hknown
      refine (parallel_bindParams args hfg.params hknown.1).bind fun _ => ?_
      refine (parallel_note _).bind fun _ => ?_
      exact parallel_evalSequenceWith hcalls f.body hknown.2 .unit

theorem parallel_callBody
    (hcalls : ∀ name, T.knows (.callee name) → ∀ args, Parallel T (c name args) (d name args))
    {name : String} (hname : T.knows (.callee name)) (args : List Value) :
    Parallel T (callBody c name args) (callBody d name args) := by
  by_cases hprint : name = printName
  · -- the tables are not asked, and need not agree on `print`
    simp only [callBody, hprint, if_true]
    exact parallel_callPrint args
  · simp only [callBody, hprint, if_false, callFunctionWith_eq_withFunction]
    exact fun m m' hm => parallel_callFound hcalls (hm.functions name hname hprint) name args hm

/-- A call is opened on both machines or on none. -/
theorem Parallel.inCall {p q : Run Value} (h : Parallel T p q) (name : String) :
    Parallel T (inCall name p) (inCall name q) := by
  intro m m' hm
  show InStep T ((ite _ _ _ : Run Value) m) ((ite _ _ _ : Run Value) m')
  rw [hm.callDepth, hm.maxCallDepth]
  split
  · exact .error hm
  · refine ((parallel_addCalls 1).bind fun _ => ?_) hm
    exact (h.inScope .detached).thenAlways (parallel_addCalls (-1))

/-- Calls of functions that may be called are parallel, however deep they go. -/
theorem parallel_callUpTo (count : Nat) {name : String} (hname : T.knows (.callee name))
    (args : List Value) : Parallel T (callUpTo count name args) (callUpTo count name args) := by
  induction count generalizing name args with
  | zero =>
    intro m m' hm
    show InStep T (.error (.callDepth m.maxCallDepth name) m)
      (.error (.callDepth m'.maxCallDepth name) m')
    rw [hm.maxCallDepth]
    exact .error hm
  | succ count ih =>
    rw [callUpTo, callWith_eq_inCall]
    exact (parallel_callBody (fun _ hn as => ih hn as) hname args).inCall name

theorem parallel_call {name : String} (hname : T.knows (.callee name)) (args : List Value) :
    Parallel T (call name args) (call name args) := by
  intro m m' hm
  have hleft : m'.callsLeft = m.callsLeft := by
    rw [Machine.callsLeft, Machine.callsLeft, hm.callDepth, hm.maxCallDepth]
  rw [call, withCalls_apply, withCalls_apply, hleft]
  exact parallel_callUpTo _ hname args hm

end Evaluation

end Run

/-! ## Whole programs -/

/-- A program and its counterpart: neither defines a function twice, `main` may be called, and the
functions that may be called are counterparts. -/
structure Program.Counterpart (T : Correspondence) (P Q : Program) : Prop where
  distinct : P.Distinct
  distinct' : Q.Distinct
  main : T.knows (.callee Run.mainName)
  functions : ∀ name, T.knows (.callee name) → name ≠ Run.printName →
    Option.Rel (Function.Counterpart T) (P.function? name) (Q.function? name)

/-- The runs of a program and its counterpart. -/
theorem Program.Counterpart.ofRun {P Q : Program} (h : P.Counterpart T Q) (limit : Int)
    (prints : Array String) :
    (Outcome.ofRun limit Q prints).result =
        (Outcome.ofRun limit P prints).result.mapError (Failure.rename T.rename) ∧
      (Outcome.ofRun limit Q prints).prints = (Outcome.ofRun limit P prints).prints := by
  have hloaded : Machine.Counterpart T (Run.loaded P { maxCallDepth := limit, prints })
      (Run.loaded Q { maxCallDepth := limit, prints }) :=
    { functions := h.functions
      scopes := ⟨rfl, fun _ hscope => absurd hscope List.not_mem_nil⟩
      callDepth := rfl
      maxCallDepth := rfl
      prints := rfl }
  have hcall := Run.parallel_call h.main [] hloaded
  rw [← Run.interpret_of_distinct (distinct_iff.mp h.distinct),
    ← Run.interpret_of_distinct (distinct_iff.mp h.distinct')] at hcall
  generalize hp : Run.interpret P { maxCallDepth := limit, prints } = r,
    hq : Run.interpret Q { maxCallDepth := limit, prints } = r' at hcall
  cases hcall with
  | ok hleft =>
    rw [Outcome.ofRun_of_ok hp, Outcome.ofRun_of_ok hq]
    exact ⟨rfl, hleft.prints⟩
  | error hleft =>
    rw [Outcome.ofRun_of_error hp, Outcome.ofRun_of_error hq]
    exact ⟨rfl, hleft.prints⟩

/-- A program and its counterpart come to the same value, or to the same failure up to the names of
variables, and print the same.  The host takes the limit for both or for none. -/
theorem Program.Counterpart.outcome {P Q : Program} (h : P.Counterpart T Q) (limit : Int)
    (prints : Array String) :
    (Outcome.ofProgram limit Q prints).result =
        (Outcome.ofProgram limit P prints).result.mapError (Failure.rename T.rename) ∧
      (Outcome.ofProgram limit Q prints).prints = (Outcome.ofProgram limit P prints).prints := by
  by_cases htakes : Settings.HostLimit.Takes limit
  · rw [Outcome.ofProgram_of_takes htakes, Outcome.ofProgram_of_takes htakes]
    exact h.ofRun limit prints
  · rw [Outcome.ofProgram_of_not_takes htakes, Outcome.ofProgram_of_not_takes htakes]
    exact ⟨rfl, rfl⟩

end Scriptlet
