import Scriptlet.Proofs.Frame

/-!
# Evaluation depends on the visible bindings only

Two machines with the same functions and the same number of calls, open and allowed, whose stacks
bind the same visible names to the same values, cannot be told apart by evaluating an expression.
How the bindings are spread over nested scopes makes no difference, nor does what they shadow, nor
what lies below the first detached scope.

## The relation that the two runs stay in

Equal lookups alone do not survive leaving a block.  When the top scopes of the two stacks are taken
off, the stacks below have to look alike again, and that the stacks as a whole look alike does not
say so.  But the scopes that the two runs put on top are the same in both, bindings and all: what is
declared there is declared in both runs, and an assignment either finds its name in such a scope in
both runs or goes on to what is below in both.

So the relation counts the scopes that were put on: `Alike n s t` says that `s` and `t` share their
`n` topmost scopes and that the stacks below those look alike.  Every step keeps `n`, and a block or
a call runs with one more.
-/

namespace Scriptlet

namespace ScopeStack

/-! ## Stacks that look alike -/

/-- Two stacks, both with a scope to declare in, that give every name the same value or none. -/
structure SameView (s t : ScopeStack) : Prop where
  ne_nil : s ≠ []
  ne_nil' : t ≠ []
  get? : ∀ name, s.get? name = t.get? name

/-- Two stacks that share their `n` top scopes and look alike below. -/
def Alike : Nat → ScopeStack → ScopeStack → Prop
  | 0, s, t => SameView s t
  | n + 1, s, t => ∃ scope s' t', s = scope :: s' ∧ t = scope :: t' ∧ Alike n s' t'

theorem Alike.sameView : ∀ {n : Nat} {s t : ScopeStack}, Alike n s t → SameView s t
  | 0, _, _, h => h
  | n + 1, _, _, ⟨scope, s', t', hs, ht, h⟩ => by
    subst hs
    subst ht
    refine ⟨List.cons_ne_nil _ _, List.cons_ne_nil _ _, fun name => ?_⟩
    rw [ScopeStack.get?, ScopeStack.get?, h.sameView.get? name]

/-- What a new scope is put on stays alike below it. -/
theorem Alike.enter {n : Nat} {s t : ScopeStack} (kind : Scope.Kind) (h : Alike n s t) :
    Alike (n + 1) (s.enter kind) (t.enter kind) :=
  ⟨{ kind }, s, t, rfl, rfl, h⟩

/-- A name can be given another value exactly if it has one. -/
theorem isSome_set? (s : ScopeStack) (name : String) (value : Value) :
    (s.set? name value).isSome = (s.get? name).isSome := by
  induction s with
  | nil => rfl
  | cons scope below ih =>
    rw [set?, get?, Scope.binds]
    cases hget : scope.get? name with
    | some v => simp
    | none =>
      cases scope.kind with
      | nested => simpa using ih
      | detached => simp

theorem ne_nil_of_set? {s t : ScopeStack} {name : String} {value : Value}
    (h : s.set? name value = some t) : t ≠ [] := by
  intro ht
  have hget := get?_of_set? h name
  rw [ht, if_pos rfl, get?] at hget
  exact absurd hget (by simp)

theorem SameView.set? {s t : ScopeStack} (h : SameView s t) (name : String) (value : Value) :
    (s.set? name value = none ∧ t.set? name value = none) ∨
      ∃ s' t', s.set? name value = some s' ∧ t.set? name value = some t' ∧ SameView s' t' := by
  have hsome : (s.set? name value).isSome = (t.set? name value).isSome := by
    rw [isSome_set?, isSome_set?, h.get? name]
  cases hs : s.set? name value with
  | none =>
    rw [hs] at hsome
    exact Or.inl ⟨rfl, by simpa using hsome⟩
  | some s' =>
    rw [hs] at hsome
    obtain ⟨t', ht⟩ := Option.isSome_iff_exists.mp hsome.symm
    refine Or.inr ⟨s', t', rfl, ht, ne_nil_of_set? hs, ne_nil_of_set? ht, fun n => ?_⟩
    rw [get?_of_set? hs, get?_of_set? ht, h.get? n]

/-- An assignment finds its name in both stacks or in none, and keeps them alike. -/
theorem Alike.set? (name : String) (value : Value) : ∀ {n : Nat} {s t : ScopeStack}, Alike n s t →
    (s.set? name value = none ∧ t.set? name value = none) ∨
      ∃ s' t', s.set? name value = some s' ∧ t.set? name value = some t' ∧ Alike n s' t'
  | 0, _, _, h => SameView.set? h name value
  | n + 1, _, _, ⟨scope, s, t, hs, ht, h⟩ => by
    subst hs
    subst ht
    rw [ScopeStack.set?, ScopeStack.set?]
    by_cases hbound : scope.binds name = true
    · rw [if_pos hbound, if_pos hbound]
      exact Or.inr ⟨_, _, rfl, rfl, scope.put name value, s, t, rfl, rfl, h⟩
    · rw [if_neg hbound, if_neg hbound]
      cases scope.kind with
      | detached => exact Or.inl ⟨rfl, rfl⟩
      | nested =>
        rcases h.set? name value with ⟨hs, ht⟩ | ⟨s', t', hs, ht, h'⟩
        · exact Or.inl ⟨by simp [hs], by simp [ht]⟩
        · exact Or.inr ⟨scope :: s', scope :: t', by simp [hs], by simp [ht], scope, s', t', rfl,
            rfl, h'⟩

/-- A declaration is possible in both stacks and keeps them alike. -/
theorem Alike.create (name : String) (value : Value) : ∀ {n : Nat} {s t : ScopeStack}, Alike n s t →
    ∃ s' t', s.create name value = .ok s' ∧ t.create name value = .ok t' ∧ Alike n s' t'
  | n + 1, _, _, ⟨scope, s, t, hs, ht, h⟩ => by
    subst hs
    subst ht
    exact ⟨_, _, rfl, rfl, scope.put name value, s, t, rfl, rfl, h⟩
  | 0, a :: s, b :: t, h => by
    -- here the name may be new in one stack and shadow or replace a value in the other
    refine ⟨_, _, rfl, rfl, List.cons_ne_nil _ _, List.cons_ne_nil _ _, fun n => ?_⟩
    have hs : ScopeStack.create (a :: s) name value = .ok (a.put name value :: s) := rfl
    have ht : ScopeStack.create (b :: t) name value = .ok (b.put name value :: t) := rfl
    rw [get?_of_create hs, get?_of_create ht, SameView.get? h n]
  | 0, [], _, h => absurd rfl (SameView.ne_nil h)
  | 0, _ :: _, [], h => absurd rfl (SameView.ne_nil' h)

end ScopeStack

/-! ## Machines and runs -/

/-- Two machines with the same functions and the same number of calls, open and allowed. -/
structure Machine.SameCalls (m m' : Machine) : Prop where
  functions : m.functions = m'.functions
  callDepth : m.callDepth = m'.callDepth
  maxCallDepth : m.maxCallDepth = m'.maxCallDepth

/-- Two machines that evaluation cannot tell apart. -/
structure Machine.SameView (m m' : Machine) : Prop extends Machine.SameCalls m m' where
  scopes : m.scopes.SameView m'.scopes

theorem Machine.SameCalls.callsLeft {m m' : Machine} (h : m.SameCalls m') :
    m.callsLeft = m'.callsLeft := by
  rw [Machine.callsLeft, Machine.callsLeft, h.callDepth, h.maxCallDepth]

/-- Two machines that share their `n` top scopes and cannot be told apart below. -/
structure Machine.Alike (n : Nat) (m m' : Machine) : Prop extends Machine.SameCalls m m' where
  scopes : m.scopes.Alike n m'.scopes

theorem Machine.Alike.enter {n : Nat} {m m' : Machine} (kind : Scope.Kind) (h : m.Alike n m') :
    Machine.Alike (n + 1) { m with scopes := m.scopes.enter kind }
      { m' with scopes := m'.scopes.enter kind } :=
  { h with scopes := h.scopes.enter kind }

namespace Run

/-- Two steps that give the same value or fault, and print and log the same, each behind what its
machine has printed and logged before. -/
structure SameOutcome (p q : Run α) (m m' : Machine) : Prop where
  result : p.result m = q.result m'
  prints : ∃ pieces, (p.after m).prints = m.prints ++ pieces ∧
    (q.after m').prints = m'.prints ++ pieces
  log : ∃ lines, (p.after m).log = m.log ++ lines ∧ (q.after m').log = m'.log ++ lines

/-- Two steps that have the same outcome and leave machines alike. -/
structure GoAlike (n : Nat) (p q : Run α) (m m' : Machine) : Prop extends SameOutcome p q m m' where
  left : Machine.Alike n (p.after m) (q.after m')

/-- Two steps that go alike from all machines that are alike. -/
def Indistinguishable (p q : Run α) : Prop :=
  ∀ (n : Nat) (m m' : Machine), m.Alike n m' → GoAlike n p q m m'

/-- Only what the steps do on these two machines counts. -/
theorem SameOutcome.of_apply_eq {p p' q q' : Run α} {m m' : Machine} (hp : p m = p' m)
    (hq : q m' = q' m') (h : SameOutcome p' q' m m') : SameOutcome p q m m' := by
  have hpr : p.result m = p'.result m := by rw [Run.result, hp, Run.result]
  have hqr : q.result m' = q'.result m' := by rw [Run.result, hq, Run.result]
  have hpa : p.after m = p'.after m := by rw [after, hp, after]
  have hqa : q.after m' = q'.after m' := by rw [after, hq, after]
  refine ⟨?_, ?_, ?_⟩
  · rw [hpr, hqr, h.result]
  · rw [hpa, hqa]
    exact h.prints
  · rw [hpa, hqa]
    exact h.log

theorem GoAlike.of_apply_eq {n : Nat} {p p' q q' : Run α} {m m' : Machine} (hp : p m = p' m)
    (hq : q m' = q' m') (h : GoAlike n p' q' m m') : GoAlike n p q m m' := by
  refine ⟨.of_apply_eq hp hq h.toSameOutcome, ?_⟩
  have hpa : p.after m = p'.after m := by rw [after, hp, after]
  have hqa : q.after m' = q'.after m' := by rw [after, hq, after]
  rw [hpa, hqa]
  exact h.left

/-- Steps that succeed alike and only change the stacks go alike. -/
theorem GoAlike.of_ok {n : Nat} {p q : Run α} {m m' : Machine} {a : α} {s s' : ScopeStack}
    (h : m.SameCalls m') (hs : s.Alike n s') (hp : p m = .ok a { m with scopes := s })
    (hq : q m' = .ok a { m' with scopes := s' }) : GoAlike n p q m m' := by
  refine ⟨⟨?_, ⟨#[], ?_⟩, ⟨#[], ?_⟩⟩, ?_⟩
  · rw [result_of_ok hp, result_of_ok hq]
  · rw [after_of_ok hp, after_of_ok hq, Array.append_empty, Array.append_empty]
    exact ⟨rfl, rfl⟩
  · rw [after_of_ok hp, after_of_ok hq, Array.append_empty, Array.append_empty]
    exact ⟨rfl, rfl⟩
  · rw [after_of_ok hp, after_of_ok hq]
    exact ⟨⟨h.functions, h.callDepth, h.maxCallDepth⟩, hs⟩

/-- Steps that fail alike and change nothing have the same outcome. -/
theorem SameOutcome.of_error {p q : Run α} {m m' : Machine} {fault : Fault}
    (hp : p m = .error fault m) (hq : q m' = .error fault m') : SameOutcome p q m m' := by
  refine ⟨?_, ⟨#[], ?_⟩, ⟨#[], ?_⟩⟩
  · rw [result_of_error hp, result_of_error hq]
  · rw [after_of_error hp, after_of_error hq, Array.append_empty, Array.append_empty]
    exact ⟨rfl, rfl⟩
  · rw [after_of_error hp, after_of_error hq, Array.append_empty, Array.append_empty]
    exact ⟨rfl, rfl⟩

theorem GoAlike.of_error {n : Nat} {p q : Run α} {m m' : Machine} {fault : Fault}
    (h : m.Alike n m') (hp : p m = .error fault m) (hq : q m' = .error fault m') :
    GoAlike n p q m m' := by
  refine ⟨.of_error hp hq, ?_⟩
  rw [after_of_error hp, after_of_error hq]
  exact h

theorem indistinguishable_pure (a : α) : Indistinguishable (pure a) (pure a) := fun _ _ _ h =>
  .of_ok h.toSameCalls h.scopes rfl rfl

theorem indistinguishable_throw (fault : Fault) :
    Indistinguishable (throw fault : Run α) (throw fault) := fun _ _ _ h =>
  .of_error h rfl rfl

theorem Indistinguishable.bind {p q : Run α} {f g : α → Run β} (h : Indistinguishable p q)
    (hf : ∀ a, Indistinguishable (f a) (g a)) : Indistinguishable (p >>= f) (q >>= g) := by
  intro n m m' hm
  have hfirst := h n m m' hm
  obtain ⟨pieces, hprints, hprints'⟩ := hfirst.prints
  obtain ⟨lines, hlog, hlog'⟩ := hfirst.log
  have hleft := hfirst.left
  have hresult := hfirst.result
  cases hp : p m with
  | ok a left =>
    cases hq : q m' with
    | error fault left' => simp [result, hp, hq] at hresult
    | ok b left' =>
      obtain rfl : a = b := by simpa [result, hp, hq] using hresult
      rw [after_of_ok hp] at hprints hlog hleft
      rw [after_of_ok hq] at hprints' hlog' hleft
      have hnext := hf a n left left' hleft
      obtain ⟨more, hmore, hmore'⟩ := hnext.prints
      obtain ⟨rest, hrest, hrest'⟩ := hnext.log
      refine ⟨⟨?_, ⟨pieces ++ more, ?_, ?_⟩, ⟨lines ++ rest, ?_, ?_⟩⟩, ?_⟩
      · rw [result_bind_of_ok hp, result_bind_of_ok hq, hnext.result]
      · rw [after_bind_of_ok hp, hmore, hprints, Array.append_assoc]
      · rw [after_bind_of_ok hq, hmore', hprints', Array.append_assoc]
      · rw [after_bind_of_ok hp, hrest, hlog, Array.append_assoc]
      · rw [after_bind_of_ok hq, hrest', hlog', Array.append_assoc]
      · rw [after_bind_of_ok hp, after_bind_of_ok hq]
        exact hnext.left
  | error fault left =>
    cases hq : q m' with
    | ok b left' => simp [result, hp, hq] at hresult
    | error fault' left' =>
      obtain rfl : fault = fault' := by simpa [result, hp, hq] using hresult
      rw [after_of_error hp] at hprints hlog hleft
      rw [after_of_error hq] at hprints' hlog' hleft
      refine ⟨⟨?_, ⟨pieces, ?_, ?_⟩, ⟨lines, ?_, ?_⟩⟩, ?_⟩
      · rw [result_bind_of_error hp, result_bind_of_error hq]
      · rw [after_bind_of_error hp, hprints]
      · rw [after_bind_of_error hq, hprints']
      · rw [after_bind_of_error hp, hlog]
      · rw [after_bind_of_error hq, hlog']
      · rw [after_bind_of_error hp, after_bind_of_error hq]
        exact hleft

theorem indistinguishable_print (text : String) :
    Indistinguishable (print text) (print text) := fun _ _ _ h =>
  ⟨⟨rfl, ⟨#[text], rfl, rfl⟩, ⟨#[], Array.append_empty.symm, Array.append_empty.symm⟩⟩,
    { h with }⟩

theorem indistinguishable_note (line : String) :
    Indistinguishable (note line) (note line) := fun _ _ _ h =>
  ⟨⟨rfl, ⟨#[], Array.append_empty.symm, Array.append_empty.symm⟩, ⟨#[line], rfl, rfl⟩⟩,
    { h with }⟩

theorem indistinguishable_readVariable (name : String) :
    Indistinguishable (readVariable name) (readVariable name) := by
  intro n m m' h
  have hget : m'.scopes.get name = m.scopes.get name := by
    rw [ScopeStack.get, ScopeStack.get, h.scopes.sameView.get? name]
  cases hv : m.scopes.get name with
  | absent =>
    have hm : readVariable name m = .error (.undefinedVariable name) m := by
      simp only [readVariable, hv]
    have hm' : readVariable name m' = .error (.undefinedVariable name) m' := by
      simp only [readVariable, hget, hv]
    exact .of_error h hm hm'
  | _ =>
    have hm : readVariable name m = .ok (m.scopes.get name) m := by
      simp only [readVariable, hv]
    have hm' : readVariable name m' = .ok (m.scopes.get name) m' := by
      simp only [readVariable, hget, hv]
    exact .of_ok h.toSameCalls h.scopes hm hm'

theorem indistinguishable_declare (name : String) (value : Value) :
    Indistinguishable (declare name value) (declare name value) := by
  refine Indistinguishable.bind (fun n m m' h => ?_) fun _ => indistinguishable_pure value
  obtain ⟨s, s', hs, hs', hleft⟩ := h.scopes.create name value
  have hm : changeScopes (fun stack => stack.create name value) m =
      .ok () { m with scopes := s } := by
    simp only [changeScopes, hs]
  have hm' : changeScopes (fun stack => stack.create name value) m' =
      .ok () { m' with scopes := s' } := by
    simp only [changeScopes, hs']
  exact .of_ok h.toSameCalls hleft hm hm'

theorem indistinguishable_assign (name : String) (value : Value) :
    Indistinguishable (assign name value) (assign name value) := by
  intro n m m' h
  rcases h.scopes.set? name value with ⟨hs, hs'⟩ | ⟨s, s', hs, hs', hleft⟩
  · have hm : assign name value m = .error (.undeclaredVariable name) m := by
      simp only [assign, hs]
    have hm' : assign name value m' = .error (.undeclaredVariable name) m' := by
      simp only [assign, hs']
    exact .of_error h hm hm'
  · have hm : assign name value m = .ok value { m with scopes := s } := by
      simp only [assign, hs]
    have hm' : assign name value m' = .ok value { m' with scopes := s' } := by
      simp only [assign, hs']
    exact .of_ok h.toSameCalls hleft hm hm'

/-! ## Scopes and calls -/

/-- A block or a call runs with one more shared scope, which both runs take off again. -/
theorem Indistinguishable.inScope {p q : Run α} (h : Indistinguishable p q) (kind : Scope.Kind) :
    Indistinguishable (inScope kind p) (inScope kind q) := by
  intro n m m' hm
  have hinner := h (n + 1) _ _ (hm.enter kind)
  obtain ⟨scope, s, s', hs, hs', hbelow⟩ := hinner.left.scopes
  obtain ⟨hresult, hafter⟩ := inScope_of_cons hs
  obtain ⟨hresult', hafter'⟩ := inScope_of_cons hs'
  refine ⟨⟨?_, ?_, ?_⟩, ?_⟩
  · rw [hresult, hresult']
    exact hinner.result
  · rw [hafter, hafter']
    exact hinner.prints
  · rw [hafter, hafter']
    exact hinner.log
  · rw [hafter, hafter']
    exact { hinner.left with scopes := hbelow }

/-- A call opens on both machines or on none, and comes to what its body comes to. -/
theorem SameOutcome.inCall {p q : Run Value} (name : String) {m m' : Machine}
    (hm : m.SameCalls m')
    (h : SameOutcome (inScope .detached p) (inScope .detached q)
      { m with callDepth := m.callDepth + 1 } { m' with callDepth := m'.callDepth + 1 }) :
    SameOutcome (inCall name p) (inCall name q) m m' := by
  by_cases hdepth : m.callDepth < m.maxCallDepth
  · have hdepth' : m'.callDepth < m'.maxCallDepth := by
      rw [← hm.callDepth, ← hm.maxCallDepth]
      exact hdepth
    obtain ⟨hresult, hafter⟩ := inCall_of_lt name p hdepth
    obtain ⟨hresult', hafter'⟩ := inCall_of_lt name q hdepth'
    refine ⟨?_, ?_, ?_⟩
    · rw [hresult, hresult']
      exact h.result
    · rw [hafter, hafter']
      exact h.prints
    · rw [hafter, hafter']
      exact h.log
  · have hp := inCall_of_ge name p (Int.not_lt.mp hdepth)
    rw [hm.callDepth, hm.maxCallDepth] at hdepth
    have hq := inCall_of_ge name q (Int.not_lt.mp hdepth)
    rw [← hm.maxCallDepth] at hq
    exact .of_error hp hq

theorem Indistinguishable.inCall {p q : Run Value} (h : Indistinguishable p q) (name : String) :
    Indistinguishable (inCall name p) (inCall name q) := by
  intro n m m' hm
  have hopened : Machine.Alike n { m with callDepth := m.callDepth + 1 }
      { m' with callDepth := m'.callDepth + 1 } :=
    { hm with callDepth := by simp only [hm.callDepth] }
  have hinner := h.inScope .detached n _ _ hopened
  refine ⟨hinner.toSameOutcome.inCall name hm.toSameCalls, ?_⟩
  by_cases hdepth : m.callDepth < m.maxCallDepth
  · have hdepth' : m'.callDepth < m'.maxCallDepth := by
      rw [← hm.callDepth, ← hm.maxCallDepth]
      exact hdepth
    rw [(inCall_of_lt name p hdepth).2, (inCall_of_lt name q hdepth').2]
    exact { hinner.left with callDepth := by simp only [hinner.left.callDepth] }
  · rw [after_of_error (inCall_of_ge name p (Int.not_lt.mp hdepth))]
    rw [hm.callDepth, hm.maxCallDepth] at hdepth
    rw [after_of_error (inCall_of_ge name q (Int.not_lt.mp hdepth))]
    exact hm

theorem callCongruence_indistinguishable : CallCongruence fun _ p q => Indistinguishable p q where
  pure := indistinguishable_pure
  throw := indistinguishable_throw
  bind := Indistinguishable.bind
  readVariable := indistinguishable_readVariable
  declare := indistinguishable_declare
  assign := indistinguishable_assign
  inBlock h := h.inScope .nested
  print := indistinguishable_print
  note := indistinguishable_note
  refuseCall name n m m' h := by
    have hm : refuseCall name m = .error (.callDepth m.maxCallDepth name) m := rfl
    have hm' : refuseCall name m' = .error (.callDepth m'.maxCallDepth name) m' := rfl
    rw [← h.maxCallDepth] at hm'
    exact .of_error h hm hm'
  withFunction name f g hf n m m' h := by
    have hfound : m.function? name = m'.function? name := by
      rw [Machine.function?, Machine.function?, h.functions]
    have hm : withFunction name f m = f (m.function? name) m := rfl
    have hm' : withFunction name g m' = g (m.function? name) m' := by rw [hfound]; rfl
    exact .of_apply_eq hm hm' (hf (m.function? name) n m m' h)
  inCall name _ _ h := h.inCall name

theorem indistinguishable_callUpTo (count : Nat) (name : String) (args : List Value) :
    Indistinguishable (callUpTo count name args) (callUpTo count name args) :=
  callCongruence_indistinguishable.callUpTo count name args

theorem indistinguishable_evalWith (count : Nat) (e : Expr) :
    Indistinguishable (evalWith (callUpTo count) e) (evalWith (callUpTo count) e) :=
  callCongruence_indistinguishable.evalWith (indistinguishable_callUpTo count) e

theorem indistinguishable_evalSequenceWith (count : Nat) (es : List Expr) (last : Value) :
    Indistinguishable (evalSequenceWith (callUpTo count) es last)
      (evalSequenceWith (callUpTo count) es last) :=
  callCongruence_indistinguishable.evalSequenceWith (indistinguishable_callUpTo count) es last

/-- Machines that cannot be told apart allow equally many calls. -/
theorem goAlike_eval (e : Expr) {n : Nat} {m m' : Machine} (h : m.Alike n m') :
    GoAlike n (eval e) (eval e) m m' := by
  refine .of_apply_eq (withCalls_apply _ m) (withCalls_apply _ m') ?_
  rw [← h.callsLeft]
  exact indistinguishable_evalWith (m.callsLeft + 1) e n m m' h

/-! ## What a call can see -/

/-- From a fresh detached scope, whatever is below it, nothing is visible. -/
theorem sameView_enter_detached (s s' : ScopeStack) :
    ScopeStack.SameView (s.enter .detached) (s'.enter .detached) :=
  ⟨List.cons_ne_nil _ _, List.cons_ne_nil _ _, fun _ => rfl⟩

/-- A step in a detached scope has the same outcome on any stacks. -/
theorem sameOutcome_inScope_detached {p q : Run α} (h : Indistinguishable p q)
    (hp : KeepsFrame p) (hq : KeepsFrame q) {m m' : Machine} (hm : m.SameCalls m') :
    SameOutcome (inScope .detached p) (inScope .detached q) m m' := by
  have hentered : Machine.Alike 0 { m with scopes := m.scopes.enter .detached }
      { m' with scopes := m'.scopes.enter .detached } :=
    { hm with scopes := sameView_enter_detached m.scopes m'.scopes }
  have hinner := h 0 _ _ hentered
  obtain ⟨top, below, hs⟩ := hp.exists_cons .detached m
  obtain ⟨top', below', hs'⟩ := hq.exists_cons .detached m'
  obtain ⟨hresult, hafter⟩ := inScope_of_cons hs
  obtain ⟨hresult', hafter'⟩ := inScope_of_cons hs'
  refine ⟨?_, ?_, ?_⟩
  · rw [hresult, hresult']
    exact hinner.result
  · rw [hafter, hafter']
    exact hinner.prints
  · rw [hafter, hafter']
    exact hinner.log

/-- A call has the same outcome on any stacks. -/
theorem sameOutcome_call (name : String) (args : List Value) {m m' : Machine}
    (h : m.SameCalls m') : SameOutcome (call name args) (call name args) m m' := by
  refine .of_apply_eq (withCalls_apply _ m) (withCalls_apply _ m') ?_
  rw [← h.callsLeft, callUpTo, callWith_eq_inCall]
  have hbody : Indistinguishable (callBody (callUpTo m.callsLeft) name args)
      (callBody (callUpTo m.callsLeft) name args) :=
    callCongruence_indistinguishable.callBody (indistinguishable_callUpTo m.callsLeft) name args
  have hframe : KeepsFrame (callBody (callUpTo m.callsLeft) name args) :=
    keepsFrame_callBody m.callsLeft name args
  have hopened : Machine.SameCalls { m with callDepth := m.callDepth + 1 }
      { m' with callDepth := m'.callDepth + 1 } :=
    { h with callDepth := by simp only [h.callDepth] }
  exact (sameOutcome_inScope_detached hbody hframe hframe hopened).inCall name h

/-! ## What a block adds -/

/-- A block has the same outcome as its expressions one after the other. -/
theorem sameOutcome_block (es : List Expr) {m : Machine} (h : m.scopes ≠ []) :
    SameOutcome (eval (.block es)) (evalSequence es) m m := by
  refine .of_apply_eq (withCalls_apply _ m) (withCalls_apply _ m) ?_
  rw [evalWith]
  have hentered : Machine.Alike 0 { m with scopes := m.scopes.enter .nested } m :=
    ⟨⟨rfl, rfl, rfl⟩, List.cons_ne_nil _ _, h, fun name => ScopeStack.get?_enter_nested _ name⟩
  have hinner := indistinguishable_evalSequenceWith (m.callsLeft + 1) es .unit 0 _ _ hentered
  obtain ⟨top, below, hs⟩ :=
    (keepsFrame_evalSequenceWith (m.callsLeft + 1) es .unit).exists_cons .nested m
  obtain ⟨hresult, hafter⟩ := inScope_of_cons hs
  refine ⟨?_, ?_, ?_⟩
  · rw [hresult]
    exact hinner.result
  · rw [hafter]
    exact hinner.prints
  · rw [hafter]
    exact hinner.log

end Run

/-- **Evaluation depends on the visible bindings only.**  On two machines with the same functions,
the same number of calls and the same visible bindings, evaluating an expression has the same value
or fault, prints and logs the same, and leaves machines with the same visible bindings.  A call
needs no visible bindings in common: it has the same outcome whatever the stacks are, and leaves
them as they were.  And a block has the outcome of its expressions one after the other. -/
theorem eval_depends_on_visible_bindings :
    (∀ (e : Expr) (m m' : Machine), m.SameView m' →
      Run.SameOutcome (Run.eval e) (Run.eval e) m m' ∧
      ((Run.eval e).after m).SameView ((Run.eval e).after m')) ∧
    (∀ (name : String) (args : List Value) (m m' : Machine), m.SameCalls m' →
      Run.SameOutcome (Run.call name args) (Run.call name args) m m' ∧
      ((Run.call name args).after m).scopes = m.scopes ∧
      ((Run.call name args).after m').scopes = m'.scopes) ∧
    ∀ (es : List Expr) (m : Machine), m.scopes ≠ [] →
      Run.SameOutcome (Run.eval (.block es)) (Run.evalSequence es) m m := by
  refine ⟨fun e m m' h => ?_, fun name args m m' h => ?_, fun es m h => Run.sameOutcome_block es h⟩
  · have halike : m.Alike 0 m' := ⟨h.toSameCalls, h.scopes⟩
    have hgo := Run.goAlike_eval e halike
    exact ⟨hgo.toSameOutcome, hgo.left.toSameCalls, hgo.left.scopes⟩
  · exact ⟨Run.sameOutcome_call name args h, Run.scopes_after_call name args m,
      Run.scopes_after_call name args m'⟩

/-- A machine in a block that shadows a variable, above a call and its caller. -/
def shadowingMachine : Machine :=
  { maxCallDepth := 5
    scopes := [⟨.nested, [("y", .int 2)]⟩, ⟨.detached, [("x", .int 1), ("y", .bool true)]⟩,
      ⟨.detached, [("z", .int 9)]⟩] }

/-- A machine with the same visible bindings in one scope. -/
def flatMachine : Machine :=
  { maxCallDepth := 5
    scopes := [⟨.detached, [("y", .int 2), ("x", .int 1)]⟩]
    prints := #["before"] }

theorem sameView_shadowingMachine_flatMachine : shadowingMachine.SameView flatMachine := by
  refine ⟨⟨rfl, rfl, rfl⟩, List.cons_ne_nil _ _, List.cons_ne_nil _ _, fun name => ?_⟩
  by_cases hy : name = "y"
  · subst hy
    rfl
  · by_cases hx : name = "x"
    · subst hx
      rfl
    · simp [shadowingMachine, flatMachine, ScopeStack.get?, Scope.get?, List.lookup_cons,
        beq_false_of_ne hy, beq_false_of_ne hx]

/-- The two machines cannot be told apart, by an expression, by a call or by a block. -/
theorem shadowingMachine_looks_like_flatMachine :
    (shadowingMachine.SameView flatMachine ∧
      Run.SameOutcome (Run.eval (.assign "y" (.name "x"))) (Run.eval (.assign "y" (.name "x")))
        shadowingMachine flatMachine) ∧
    (shadowingMachine.SameCalls flatMachine ∧
      Run.SameOutcome (Run.call "print" [.int 1]) (Run.call "print" [.int 1])
        shadowingMachine flatMachine) ∧
    (flatMachine.scopes ≠ [] ∧
      Run.SameOutcome (Run.eval (.block [.declare "x" (.name "y"), .name "x"]))
        (Run.evalSequence [.declare "x" (.name "y"), .name "x"]) flatMachine flatMachine) := by
  have hview := sameView_shadowingMachine_flatMachine
  have hstack : flatMachine.scopes ≠ [] := List.cons_ne_nil _ _
  obtain ⟨heval, hcall, hblock⟩ := eval_depends_on_visible_bindings
  exact ⟨⟨hview, (heval _ _ _ hview).1⟩, ⟨hview.toSameCalls, (hcall _ _ _ _ hview.toSameCalls).1⟩,
    ⟨hstack, hblock _ _ hstack⟩⟩

end Scriptlet
