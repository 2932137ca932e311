import Scriptlet.Proofs.Environment

/-!
# A block confines what is done in it

A block puts a scope on the stack, runs its steps, and takes a scope off again, on every path.  If
the steps have left alone the scope that the block opened, then that very scope is taken off, and
of all that the steps did only this is left: other values for variables that were visible from
outside.  If the block was detached, not even that.

Steps can also open and close scopes by themselves, and then nothing makes them keep to their
block.  So a condition is needed: no step takes the block's own scope off, and at the moment the
block ends, be it because a step failed, no scope is open above it; and the same for the blocks
inside.  Whether steps are like that can be told without running them, because a block never comes
upon an empty stack and so nothing in it fails but what is meant to: `Step.tally` counts the open
scopes (`Tidy`).

What becomes of a failure differs between the two users of blocks.  In a script, the block that it
ends takes it as its answer, and the steps behind the block go on; in a run of a program, it goes
through all blocks around it.  The count depends on that (`through`), and so the induction over
steps is done twice, once for `runBlock` and once for `Run.playEach`, where the same steps are
played by a machine.

The invariant is the same both times.  In a block of a given kind that was opened on `base`, with
`n` scopes open above its own, the stack is one that `Stands kind base n`: those `n` scopes, the
block's own, and below it what assignments from inside can have made of `base`.  What they can have
made of it is said by steps (`Assigned`) as long as the induction goes, because a step inside is
then a step outside, and read off at the end (`ConfinedTo`).
-/

namespace Scriptlet

namespace Scope

/-- Binding a name leaves the bindings of other names in their places. -/
theorem getElem?_putIn_of_ne {name n : String} (value w : Value) (hn : n ≠ name) :
    ∀ {bindings : List (String × Value)} {j : Nat},
      (putIn name value bindings)[j]? = some (n, w) → bindings[j]? = some (n, w)
  | [], j, h => by
    obtain ⟨-, heq, -⟩ : j = 0 ∧ name = n ∧ value = w := by
      simpa [putIn, List.getElem?_singleton] using h
    exact absurd heq.symm hn
  | (m, v) :: bindings, j, h => by
    by_cases hm : m = name
    · rw [putIn, if_pos hm] at h
      cases j with
      | zero =>
        obtain ⟨heq, -⟩ : m = n ∧ value = w := by simpa using h
        exact absurd (heq.symm.trans hm) hn
      | succ j => exact h
    · rw [putIn, if_neg hm] at h
      cases j with
      | zero => exact h
      | succ j =>
        rw [List.getElem?_cons_succ] at h ⊢
        exact getElem?_putIn_of_ne value w hn h

end Scope

namespace ScopeStack

variable {s t u base : ScopeStack} {name : String} {value : Value} {kind : Scope.Kind}

/-! ## Steps that keep to their block -/

/-- What an action makes of the number of scopes that are open above the one of its block, and
whether it fails; none if it takes off the scope of the block. -/
def Action.tally : Action → Nat → Option (Nat × Bool)
  | .enter _, n => some (n + 1, false)
  | .exit, 0 => none
  | .exit, n + 1 => some (n, false)
  | .fail _, n => some (n, true)
  | .get _, n | .set _ _, n | .create _ _, n | .find _, n => some (n, false)

mutual

/-- The same for a step.  A block inside has to keep to itself, and its failure counts if failures
go through blocks. -/
def Step.tally (through : Bool) : Step → Nat → Option (Nat × Bool)
  | .act action, n => action.tally n
  | .within _ steps, n =>
    match tallyEach through steps 0 with
    | some (0, failed) => some (n, through && failed)
    | _ => none

/-- The same for steps, up to the first that fails. -/
def tallyEach (through : Bool) : List Step → Nat → Option (Nat × Bool)
  | [], n => some (n, false)
  | step :: steps, n =>
    match step.tally through n with
    | some (n', false) => tallyEach through steps n'
    | ended => ended

end

/-- The steps keep to the block that they are the steps of: they do not take its scope off, and
when they end or fail, they have closed the scopes that they opened. -/
def Tidy (through : Bool) (steps : List Step) : Prop :=
  ∃ failed, tallyEach through steps 0 = some (0, failed)

/-! ## Assignments from above -/

/-- Some assignments make the one stack of the other. -/
abbrev Assigned : ScopeStack → ScopeStack → Prop :=
  Relation.ReflTransGen fun s t => ∃ name value, s.set? name value = some t

/-- What a block of a kind can do to the stack below its own scope. -/
def Below (kind : Scope.Kind) (base rest : ScopeStack) : Prop :=
  match kind with
  | .nested => Assigned base rest
  | .detached => rest = base

/-- An assignment comes to the top scope or, if that is nested, goes below it. -/
theorem set?_cons_cases {scope : Scope} (h : set? (scope :: s) name value = some t) :
    t = scope.put name value :: s ∨
      scope.kind = .nested ∧ ∃ rest, s.set? name value = some rest ∧ t = scope :: rest := by
  rw [set?] at h
  split at h
  · exact Or.inl (Option.some_inj.mp h).symm
  · cases hk : scope.kind with
    | detached => simp [hk] at h
    | nested =>
      simp only [hk, Option.map_eq_some_iff] at h
      obtain ⟨rest, hset, rfl⟩ := h
      exact Or.inr ⟨rfl, rest, hset, rfl⟩

/-- The stack inside a block that was opened on `base`, with `n` scopes above the block's own. -/
inductive Stands (kind : Scope.Kind) (base : ScopeStack) : Nat → ScopeStack → Prop
  | own {top : Scope} {rest : ScopeStack} (hk : top.kind = kind) (h : Below kind base rest) :
      Stands kind base 0 (top :: rest)
  | opened {n : Nat} {t : ScopeStack} (scope : Scope) (h : Stands kind base n t) :
      Stands kind base (n + 1) (scope :: t)

namespace Stands

variable {n n' : Nat}

theorem enter_base (kind : Scope.Kind) (base : ScopeStack) :
    Stands kind base 0 (base.enter kind) := by
  refine own rfl ?_
  cases kind with
  | nested => exact .refl
  | detached => rfl

/-- What is below the block's own scope when no scope is open above it. -/
theorem exists_own (h : Stands kind base 0 t) :
    ∃ top rest, t = top :: rest ∧ Below kind base rest := by
  cases h with
  | own hk h => exact ⟨_, _, rfl, h⟩

theorem create (h : Stands kind base n t) (name : String) (value : Value) :
    ∃ u, t.create name value = .ok u ∧ Stands kind base n u := by
  cases h with
  | own hk h => exact ⟨_, rfl, own hk h⟩
  | opened scope h => exact ⟨_, rfl, opened _ h⟩

theorem exit (h : Stands kind base (n + 1) t) : ∃ u, t.exit = .ok u ∧ Stands kind base n u := by
  cases h with
  | opened scope h => exact ⟨_, rfl, h⟩

/-- An assignment reaches as far down as the scopes are nested. -/
theorem set? (h : Stands kind base n t) (hset : t.set? name value = some u) :
    Stands kind base n u := by
  induction h generalizing u with
  | @own top rest hk h =>
    obtain rfl | ⟨hnested, changed, hrest, rfl⟩ := set?_cons_cases hset
    · exact own hk h
    · obtain rfl : kind = .nested := hk.symm.trans hnested
      exact own hk (Relation.ReflTransGen.tail h ⟨name, value, hrest⟩)
  | opened scope h ih =>
    obtain rfl | ⟨-, changed, hrest, rfl⟩ := set?_cons_cases hset
    · exact opened _ h
    · exact opened scope (ih hrest)

theorem assigned (h : Stands kind base n t) (hassigned : Assigned t u) : Stands kind base n u := by
  induction hassigned with
  | refl => exact h
  | tail _ hset ih =>
    obtain ⟨name, value, hset⟩ := hset
    exact ih.set? hset

/-- A block inside does no more than assign. -/
theorem block {inner : Scope.Kind} (h : Stands kind base n t) (hbelow : Below inner t u) :
    Stands kind base n u := by
  cases inner with
  | nested => exact h.assigned hbelow
  | detached => exact hbelow ▸ h

/-- An action that does not fail by itself does not fail, and the stack stands as counted. -/
theorem perform (h : Stands kind base n t) {action : Action}
    (htally : action.tally n = some (n', false)) :
    ∃ answer u, t.perform action = .ok (answer, u) ∧ Stands kind base n' u := by
  cases action with
  | enter entered =>
    obtain rfl : n + 1 = n' := by simpa [Action.tally] using htally
    exact ⟨.nothing, _, rfl, opened _ h⟩
  | exit =>
    cases n with
    | zero => simp [Action.tally] at htally
    | succ n =>
      obtain rfl : n = n' := by simpa [Action.tally] using htally
      obtain ⟨u, hexit, hu⟩ := h.exit
      exact ⟨.nothing, u, by rw [ScopeStack.perform, hexit]; rfl, hu⟩
  | get name =>
    obtain rfl : n = n' := by simpa [Action.tally] using htally
    exact ⟨_, t, rfl, h⟩
  | set name value =>
    obtain rfl : n = n' := by simpa [Action.tally] using htally
    cases hset : t.set? name value with
    | some u => exact ⟨.changed true, u, by rw [ScopeStack.perform, hset], h.set? hset⟩
    | none => exact ⟨.changed false, t, by rw [ScopeStack.perform, hset], h⟩
  | create name value =>
    obtain rfl : n = n' := by simpa [Action.tally] using htally
    obtain ⟨u, hcreate, hu⟩ := h.create name value
    exact ⟨.nothing, u, by rw [ScopeStack.perform, hcreate]; rfl, hu⟩
  | find name =>
    obtain rfl : n = n' := by simpa [Action.tally] using htally
    exact ⟨_, t, rfl, h⟩
  | fail text => simp [Action.tally] at htally

end Stands

/-- An action that is counted as failing fails and changes nothing. -/
theorem perform_of_tally_failed {action : Action} {n n' : Nat}
    (htally : action.tally n = some (n', true)) (s : ScopeStack) :
    n' = n ∧ ∃ fault, s.perform action = .error fault := by
  cases action with
  | fail text =>
    obtain rfl : n = n' := by simpa [Action.tally] using htally
    exact ⟨rfl, _, rfl⟩
  | exit => cases n <;> simp [Action.tally] at htally
  | _ => simp [Action.tally] at htally

/-- The count of a block that keeps to itself. -/
theorem tally_within {through : Bool} {inner : Scope.Kind} {steps : List Step} {n n' : Nat}
    {failed : Bool} (h : (Step.within inner steps).tally through n = some (n', failed)) :
    n' = n ∧
      ∃ ended, tallyEach through steps 0 = some (0, ended) ∧ failed = (through && ended) := by
  rw [Step.tally] at h
  split at h
  · rename_i ended hended
    rw [Option.some_inj, Prod.mk.injEq] at h
    exact ⟨h.1.symm, ended, hended, h.2.symm⟩
  · contradiction

/-- The count of steps goes on behind a step that does not fail. -/
theorem tallyEach_cons {through : Bool} {step : Step} {steps : List Step} {n last : Nat}
    {failed : Bool} (h : tallyEach through (step :: steps) n = some (last, failed)) :
    (∃ n', step.tally through n = some (n', false) ∧
      tallyEach through steps n' = some (last, failed)) ∨
    (failed = true ∧ step.tally through n = some (last, true)) := by
  rw [tallyEach] at h
  split at h
  · rename_i n' hstep
    exact Or.inl ⟨n', hstep, h⟩
  · rename_i hfails
    cases failed with
    | true => exact Or.inr ⟨rfl, h⟩
    | false => exact absurd h (hfails last)

/-! ## What is left of a block -/

/-- What a block of a kind can make of the stack that it is opened on. -/
structure ConfinedTo (kind : Scope.Kind) (s t : ScopeStack) : Prop where
  /-- The stack is as high, with scopes of the same kinds. -/
  kinds : t.map Scope.kind = s.map Scope.kind
  /-- Every scope binds the same names in the same order. -/
  names : t.map Scope.names = s.map Scope.names
  /-- A binding with another value is the one that a search found before. -/
  values : ∀ {i j : Nat} {a b : Scope} {name : String} {v w : Value}, s[i]? = some a →
    t[i]? = some b → a.bindings[j]? = some (name, v) → b.bindings[j]? = some (name, w) → w ≠ v →
    s.find? name = some (s.length - (i + 1), a)
  /-- Nothing passes out of a detached scope. -/
  same : kind = .detached → t = s

theorem ConfinedTo.refl (kind : Scope.Kind) (s : ScopeStack) : ConfinedTo kind s s where
  kinds := rfl
  names := rfl
  values ha hb hv hw hne := by
    obtain rfl := Option.some_inj.mp (ha.symm.trans hb)
    rw [hv, Option.some_inj, Prod.mk.injEq] at hw
    exact absurd hw.2.symm hne
  same _ := rfl

/-- How high a search finds a name is a matter of kinds and names. -/
theorem find?_height_congr (hkinds : t.map Scope.kind = s.map Scope.kind)
    (hnames : t.map Scope.names = s.map Scope.names) (name : String) :
    (t.find? name).map Prod.fst = (s.find? name).map Prod.fst := by
  induction s generalizing t with
  | nil => rw [List.map_eq_nil_iff.mp hkinds]
  | cons a s ih =>
    cases t with
    | nil => simp at hkinds
    | cons b t =>
      rw [List.map_cons, List.map_cons, List.cons.injEq] at hkinds hnames
      have hlength : t.length = s.length := by
        simpa using congrArg List.length hkinds.2
      have hbinds : b.binds name = true ↔ a.binds name = true := by
        rw [Scope.binds_iff_mem_names, Scope.binds_iff_mem_names, hnames.1]
      rw [find?, find?, hkinds.1]
      by_cases hbound : a.binds name = true
      · rw [if_pos hbound, if_pos (hbinds.mpr hbound), Option.map_some, Option.map_some, hlength]
      · rw [if_neg hbound, if_neg (mt hbinds.mp hbound)]
        cases a.kind with
        | nested => exact ih hkinds.2 hnames.2
        | detached => rfl

/-- The scope that is found stands as high as the search says. -/
theorem getElem?_of_find? {height : Nat} {scope : Scope}
    (h : s.find? name = some (height, scope)) : s[s.length - (height + 1)]? = some scope := by
  obtain ⟨above, below, hnearest, rfl⟩ := find?_eq_some_iff.mp h
  have hlength : s.length = above.length + (below.length + 1) := by
    simpa using congrArg List.length hnearest.split
  rw [hlength, Nat.add_sub_cancel, hnearest.split, List.getElem?_append_right (Nat.le_refl _),
    Nat.sub_self, List.getElem?_cons_zero]

/-- Two stacks that differ in one scope. -/
theorem getElem?_append_cons_of_ne {above below : List Scope} {i : Nat} (h : i ≠ above.length)
    (a b : Scope) : (above ++ a :: below)[i]? = (above ++ b :: below)[i]? := by
  rcases Nat.lt_or_gt_of_ne h with hlt | hgt
  · rw [List.getElem?_append_left hlt, List.getElem?_append_left hlt]
  · have hle := Nat.le_of_lt hgt
    obtain ⟨k, hk⟩ : ∃ k, i - above.length = k + 1 := ⟨i - above.length - 1, by omega⟩
    rw [List.getElem?_append_right hle, List.getElem?_append_right hle, hk,
      List.getElem?_cons_succ, List.getElem?_cons_succ]

/-- Another assignment changes a value in the place where the name was found at first. -/
theorem ConfinedTo.set? (h : ConfinedTo .nested s t) (hset : t.set? name value = some u) :
    ConfinedTo .nested s u := by
  obtain ⟨-, -, hnone⟩ | ⟨above, scope, below, hnearest⟩ := unbound_or_nearest t name
  · rw [hnone value] at hset
    contradiction
  obtain rfl : above ++ scope.put name value :: below = u := by
    simpa [hnearest.set?_eq value] using hset
  have hbinds := (scope.binds_iff_mem_names name).mpr hnearest.binds
  have hnames := Scope.names_put_of_binds value hbinds
  refine ⟨?_, ?_, ?_, nofun⟩
  · rw [← h.kinds, hnearest.split, List.map_append, List.map_append, List.map_cons, List.map_cons,
      Scope.kind_put]
  · rw [← h.names, hnearest.split, List.map_append, List.map_append, List.map_cons, List.map_cons,
      hnames]
  · intro i j a c n v w ha hc hv hw hne
    by_cases hi : i = above.length
    · subst hi
      obtain rfl : scope.put name value = c := by simpa using hc
      by_cases hn : n = name
      · subst hn
        -- The search in `s` ends as high as the one in `t`, and that is where `a` stands.
        have hheight := find?_height_congr h.kinds h.names n
        rw [hnearest.find?_eq, Option.map_some, eq_comm, Option.map_eq_some_iff] at hheight
        obtain ⟨⟨height, found⟩, hfind, rfl⟩ := hheight
        have hlength : s.length = above.length + (below.length + 1) := by
          simpa [hnearest.split] using congrArg List.length h.kinds.symm
        have hfound := getElem?_of_find? hfind
        rw [hlength, Nat.add_sub_cancel, ha, Option.some_inj] at hfound
        rw [hfind, hfound, hlength]
        congr 2
        omega
      · have hscope : t[above.length]? = some scope := by simp [hnearest.split]
        exact h.values ha hscope hv (Scope.getElem?_putIn_of_ne value w hn hw) hne
    · refine h.values ha ?_ hv hw hne
      rw [← hc, hnearest.split, getElem?_append_cons_of_ne hi]

/-- What is below the scope of a block is confined to it. -/
theorem Below.confinedTo (h : Below kind base t) : ConfinedTo kind base t := by
  cases kind with
  | detached =>
    obtain rfl : t = base := h
    exact .refl .detached t
  | nested =>
    have hassigned : Assigned base t := h
    clear h
    induction hassigned with
    | refl => exact .refl .nested base
    | tail _ hset ih =>
      obtain ⟨name, value, hset⟩ := hset
      exact ih.set? hset

/-! ## Blocks of a script -/

/-- What the steps of a block come to. -/
def Progress.answer (inner : Progress) : Except Fault Answer :=
  match inner.fault with
  | none => .ok .nothing
  | some fault => .error fault

/-- A block that has a scope to leave answers what its steps came to. -/
theorem leave_of_cons {inner : Progress} {top : Scope} {rest : ScopeStack}
    (h : inner.stack = top :: rest) : leave inner = (inner.answer, rest) := by
  rw [leave, h, Progress.answer]
  cases inner.fault <;> rfl

mutual

/-- A step of a block leaves the stack as it is counted to. -/
theorem stands_runStep : ∀ (step : Step) {kind : Scope.Kind} {base t : ScopeStack} {n n' : Nat}
    {failed : Bool}, Stands kind base n t → step.tally false n = some (n', failed) →
      Stands kind base n' (runStep step t).stack ∧ (runStep step t).fault.isSome = failed
  | .act action, _, _, t, _, _, failed, h, htally => by
    rw [Step.tally] at htally
    rw [runStep]
    cases failed with
    | false =>
      obtain ⟨answer, u, hperform, hu⟩ := h.perform htally
      rw [hperform]
      exact ⟨hu, rfl⟩
    | true =>
      obtain ⟨rfl, fault, hperform⟩ := perform_of_tally_failed htally t
      rw [hperform]
      exact ⟨h, rfl⟩
  | .within inner steps, _, _, t, _, _, _, h, htally => by
    obtain ⟨rfl, ended, hsteps, rfl⟩ := tally_within htally
    have hinner := stands_runBlock steps (Stands.enter_base inner t) hsteps
    obtain ⟨top, rest, hstack, hbelow⟩ := hinner.1.exists_own
    rw [runStep, leave_of_cons hstack]
    exact ⟨h.block hbelow, rfl⟩

theorem stands_runBlock : ∀ (steps : List Step) {kind : Scope.Kind} {base t : ScopeStack}
    {n n' : Nat} {failed : Bool}, Stands kind base n t →
      tallyEach false steps n = some (n', failed) →
      Stands kind base n' (runBlock steps t).stack ∧ (runBlock steps t).fault.isSome = failed
  | [], _, _, _, _, _, _, h, htally => by
    rw [tallyEach, Option.some_inj, Prod.mk.injEq] at htally
    obtain ⟨rfl, rfl⟩ := htally
    exact ⟨h, rfl⟩
  | step :: steps, _, _, t, _, _, _, h, htally => by
    rw [runBlock]
    obtain ⟨n', hstep, hsteps⟩ | ⟨rfl, hstep⟩ := tallyEach_cons htally
    · obtain ⟨hfirst, hfault⟩ := stands_runStep step h hstep
      rw [Option.isSome_eq_false_iff, Option.isNone_iff_eq_none] at hfault
      simp only [hfault]
      exact stands_runBlock steps hfirst hsteps
    · obtain ⟨hfirst, hfault⟩ := stands_runStep step h hstep
      obtain ⟨fault, hfault⟩ := Option.isSome_iff_exists.mp hfault
      simp only [hfault]
      exact ⟨hfirst, rfl⟩

end

end ScopeStack

/-! ## Blocks of a run -/

namespace Run

open ScopeStack (Step Stands Tidy tallyEach)

mutual

/-- A step of a script, taken by a machine.  A failing action fails the run. -/
def play : Step → Run Unit
  | .act action => changeScopes fun stack => (stack.perform action).map Prod.snd
  | .within kind steps => inScope kind (playEach steps)

/-- Steps one after the other, up to the first that fails. -/
def playEach : List Step → Run Unit
  | [] => pure ()
  | step :: steps => do
    play step
    playEach steps

end

theorem play_act_of_ok {action : ScopeStack.Action} {answer : ScopeStack.Answer} {m : Machine}
    {scopes : ScopeStack} (h : m.scopes.perform action = .ok (answer, scopes)) :
    play (.act action) m = .ok () { m with scopes } := by
  rw [play, changeScopes, h]
  rfl

theorem play_act_of_error {action : ScopeStack.Action} {fault : ScopeStack.Fault} {m : Machine}
    (h : m.scopes.perform action = .error fault) :
    play (.act action) m = .error (.scopes fault) m := by
  rw [play, changeScopes, h]
  rfl

mutual

/-- A step that a machine takes leaves the stack as it is counted to. -/
theorem stands_play : ∀ (step : Step) {kind : Scope.Kind} {base : ScopeStack} {n n' : Nat}
    {failed : Bool} {m : Machine}, Stands kind base n m.scopes →
      step.tally true n = some (n', failed) →
      Stands kind base n' ((play step).after m).scopes ∧
        ((play step).result m = .ok () ↔ failed = false)
  | .act action, _, _, _, _, failed, m, h, htally => by
    rw [Step.tally] at htally
    cases failed with
    | false =>
      obtain ⟨answer, u, hperform, hu⟩ := h.perform htally
      rw [after_of_ok (play_act_of_ok hperform), result_of_ok (play_act_of_ok hperform)]
      exact ⟨hu, iff_of_true rfl rfl⟩
    | true =>
      obtain ⟨rfl, fault, hperform⟩ := ScopeStack.perform_of_tally_failed htally m.scopes
      rw [after_of_error (play_act_of_error hperform),
        result_of_error (play_act_of_error hperform)]
      exact ⟨h, iff_of_false nofun nofun⟩
  | .within inner steps, _, _, _, _, _, m, h, htally => by
    obtain ⟨rfl, ended, hsteps, rfl⟩ := ScopeStack.tally_within htally
    obtain ⟨hstack, hends⟩ := stands_playEach (m := { m with scopes := m.scopes.enter inner })
      steps (Stands.enter_base inner m.scopes) hsteps
    obtain ⟨top, rest, hscopes, hbelow⟩ := hstack.exists_own
    obtain ⟨hresult, hafter⟩ := inScope_of_cons hscopes
    rw [play, hafter, hresult]
    exact ⟨h.block hbelow, hends⟩

theorem stands_playEach : ∀ (steps : List Step) {kind : Scope.Kind} {base : ScopeStack}
    {n n' : Nat} {failed : Bool} {m : Machine}, Stands kind base n m.scopes →
      tallyEach true steps n = some (n', failed) →
      Stands kind base n' ((playEach steps).after m).scopes ∧
        ((playEach steps).result m = .ok () ↔ failed = false)
  | [], _, _, _, _, _, _, h, htally => by
    rw [tallyEach, Option.some_inj, Prod.mk.injEq] at htally
    obtain ⟨rfl, rfl⟩ := htally
    rw [playEach]
    exact ⟨h, iff_of_true rfl rfl⟩
  | step :: steps, _, _, _, _, _, m, h, htally => by
    rw [playEach]
    obtain ⟨n', hstep, hsteps⟩ | ⟨rfl, hstep⟩ := ScopeStack.tallyEach_cons htally
    · obtain ⟨hfirst, hends⟩ := stands_play step h hstep
      cases hm : play step m with
      | ok _ left =>
        rw [after_of_ok hm] at hfirst
        rw [after_bind_of_ok hm, result_bind_of_ok hm]
        exact stands_playEach steps hfirst hsteps
      | error fault left =>
        rw [result_of_error hm] at hends
        exact absurd (hends.mpr rfl) nofun
    · obtain ⟨hfirst, hends⟩ := stands_play step h hstep
      cases hm : play step m with
      | ok _ left =>
        rw [result_of_ok hm] at hends
        exact absurd (hends.mp rfl) nofun
      | error fault left =>
        rw [after_of_error hm] at hfirst
        rw [after_bind_of_error hm, result_bind_of_error hm]
        exact ⟨hfirst, iff_of_false nofun nofun⟩

end

end Run

/-! ## Confinement -/

namespace ScopeStack

/-- **A block confines its effects.**  Let the steps of a block keep to it.  In a script, the block
then answers what its steps came to, a fault included; in a run, it comes to just what they come to.
Either way the stack has its former height, kinds and names afterwards; nothing else is different
but values of bindings that could be found before, and nothing at all if the block is detached. -/
theorem block_confines_effects (kind : Scope.Kind) (steps : List Step) :
    (Tidy false steps → ∀ s : ScopeStack,
      let inner := runBlock steps (s.enter kind)
      let block := runStep (.within kind steps) s
      block.records =
        .opened { kind } (s.enter kind) :: inner.records ++ [.done inner.answer block.stack] ∧
      ConfinedTo kind s block.stack) ∧
    (Tidy true steps → ∀ m : Machine,
      let inner := Run.playEach steps
      let block := Run.inScope kind inner
      block.result m = inner.result { m with scopes := m.scopes.enter kind } ∧
      ConfinedTo kind m.scopes (block.after m).scopes) := by
  constructor
  · rintro ⟨failed, htally⟩ s
    obtain ⟨hstands, -⟩ := stands_runBlock steps (Stands.enter_base kind s) htally
    obtain ⟨top, rest, hstack, hbelow⟩ := hstands.exists_own
    intro inner block
    have hblock : block = ⟨.opened { kind } (s.enter kind) :: inner.records ++
        [.done inner.answer rest], none, rest⟩ := by
      show runStep (.within kind steps) s = _
      rw [runStep, leave_of_cons hstack]
    rw [hblock]
    exact ⟨rfl, hbelow.confinedTo⟩
  · rintro ⟨failed, htally⟩ m
    obtain ⟨hstands, -⟩ := Run.stands_playEach (m := { m with scopes := m.scopes.enter kind })
      steps (Stands.enter_base kind m.scopes) htally
    obtain ⟨top, rest, hscopes, hbelow⟩ := hstands.exists_own
    obtain ⟨hresult, hafter⟩ := Run.inScope_of_cons hscopes
    intro inner block
    rw [hresult, hafter]
    exact ⟨rfl, hbelow.confinedTo⟩

/-- Steps that bind a name anew, open and close a scope, and end a block inside by a failure. -/
def failingInside : List Step :=
  [.act (.create "a" (.int 7)), .act (.enter .nested), .act (.set "b" (.int 8)), .act .exit,
   .within .detached [.act (.create "b" (.int 9)), .act (.fail "enough")],
   .act (.set "b" (.int 10)), .act (.set "a" (.int 11))]

/-- A block in a call, with a caller that binds the same names. -/
def blockOfCall : ScopeStack :=
  [⟨.nested, [("b", .int 1)]⟩, ⟨.detached, [("a", .int 2), ("b", .int 3)]⟩,
   ⟨.detached, [("a", .int 4)]⟩]

def machineInBlock : Machine :=
  { scopes := blockOfCall, maxCallDepth := 1 }

theorem failingInside_is_confined :
    (Tidy false failingInside ∧
      (runStep (.within .nested failingInside) blockOfCall).stack =
        [⟨.nested, [("b", .int 10)]⟩, ⟨.detached, [("a", .int 2), ("b", .int 3)]⟩,
         ⟨.detached, [("a", .int 4)]⟩] ∧
      ConfinedTo .nested blockOfCall
        (runStep (.within .nested failingInside) blockOfCall).stack) ∧
    Tidy true failingInside ∧
      (Run.inScope .nested (Run.playEach failingInside)).result machineInBlock =
        .error (.scopes (.reported "enough")) ∧
      ConfinedTo .nested machineInBlock.scopes
        ((Run.inScope .nested (Run.playEach failingInside)).after machineInBlock).scopes := by
  have hcaught : Tidy false failingInside := ⟨false, rfl⟩
  have hthrough : Tidy true failingInside := ⟨true, rfl⟩
  exact ⟨⟨hcaught, by decide +kernel,
      ((block_confines_effects .nested failingInside).1 hcaught blockOfCall).2⟩,
    hthrough, rfl, ((block_confines_effects .nested failingInside).2 hthrough machineInBlock).2⟩

end ScopeStack
end Scriptlet
