import Mathlib.Logic.Function.Basic
import Mathlib.Logic.Relation
import Scriptlet.Diagnostic
import Scriptlet.Proofs.Frame
import Scriptlet.Scope.Script

/-!
# A stack of scopes is an environment

What a stack of scopes means to a program is a partial map from names to values, its `view`: of the
scopes down to the first detached one, the nearest that binds the name gives the value.  This module
says what every operation on a stack does to the view, and where in the stack it does it.

* `get` and `find` read the view off, and `find` also tells where the value comes from.
* `create` and `set` both turn the view into one in which a name has a new value.  They write in
  different places: `create` in the top scope, where it may hide another binding of the name, and
  `set` where the value came from.  There it replaces one value and touches nothing else.
* A new nested scope leaves the view as it is, and a new detached one makes it empty.

The place that counts is described by `Nearest`: the stack is cut at the scope that binds the name,
and the scopes above are nested and do not bind it.  Every operation that searches a stack is first
described by this cut, and the rest is read off.

That a scope is itself a map is not in its type, which is a list of bindings.  But every stack that
the operations can make of the empty one binds each name at most once in each scope
(`Reaches.distinct`), and so does every stack that a script leaves, since a script does nothing but
perform actions (`reaches_runScript`).
-/

namespace Scriptlet

namespace Scope

variable {scope : Scope} {name : String}

theorem get?_eq_none_iff_notMem : scope.get? name = none ↔ name ∉ scope.names := by
  rw [← binds_iff_mem_names, binds, Bool.not_eq_true, Option.isSome_eq_false_iff,
    Option.isNone_iff_eq_none]

/-- The first binding of a name: what `put` replaces. -/
theorem putIn_append {front : List (String × Value)} (hfront : name ∉ front.map Prod.fst)
    (old value : Value) (back : List (String × Value)) :
    putIn name value (front ++ (name, old) :: back) = front ++ (name, value) :: back := by
  induction front with
  | nil => exact if_pos rfl
  | cons b front ih =>
    obtain ⟨n, v⟩ := b
    rw [List.map_cons, List.mem_cons, not_or] at hfront
    rw [List.cons_append, putIn, if_neg (Ne.symm hfront.1), ih hfront.2, List.cons_append]

/-- Where a scope binds a name: the first binding of it. -/
theorem exists_binding (h : name ∈ scope.names) : ∃ front old back,
    scope.bindings = front ++ (name, old) :: back ∧ name ∉ front.map Prod.fst := by
  rw [names] at h
  generalize scope.bindings = bindings at h ⊢
  induction bindings with
  | nil => exact absurd h List.not_mem_nil
  | cons b bindings ih =>
    obtain ⟨n, v⟩ := b
    by_cases hn : n = name
    · subst hn
      exact ⟨[], v, bindings, rfl, List.not_mem_nil⟩
    · rw [List.map_cons, List.mem_cons] at h
      obtain ⟨front, old, back, rfl, hfront⟩ := ih (h.resolve_left (Ne.symm hn))
      refine ⟨(n, v) :: front, old, back, rfl, ?_⟩
      rw [List.map_cons, List.mem_cons, not_or]
      exact ⟨Ne.symm hn, hfront⟩

theorem get?_of_bindings_eq {front back : List (String × Value)} {old : Value}
    (h : scope.bindings = front ++ (name, old) :: back) (hfront : name ∉ front.map Prod.fst) :
    scope.get? name = some old := by
  have hnone : Scope.get? ⟨scope.kind, front⟩ name = none := get?_eq_none_iff_notMem.mpr hfront
  rw [get?] at hnone ⊢
  rw [h, List.lookup_append, hnone, Option.none_or, List.lookup_cons_self]

theorem put_of_bindings_eq {front back : List (String × Value)} {old : Value}
    (h : scope.bindings = front ++ (name, old) :: back) (hfront : name ∉ front.map Prod.fst)
    (value : Value) :
    scope.put name value = { scope with bindings := front ++ (name, value) :: back } := by
  rw [put, h, putIn_append hfront]

/-- A scope that binds each name at most once goes on to do so. -/
theorem nodup_names_put (h : scope.names.Nodup) (name : String) (value : Value) :
    (scope.put name value).names.Nodup := by
  obtain ⟨added, hnames, hadded, hnew⟩ := scope.names_put name value
  rw [hnames]
  refine List.nodup_append.mpr ⟨h, hadded, ?_⟩
  rintro a ha b hb rfl
  exact hnew a hb ha

end Scope

namespace ScopeStack

variable {s t : ScopeStack} {name : String} {value : Value}

/-! ## The view -/

/-- What the stack means: the value of a name in the nearest visible scope that binds it. -/
def view (s : ScopeStack) (name : String) : Option Value :=
  s.visible.findSome? fun scope => scope.get? name

theorem view_cons_of_nested {scope : Scope} (h : scope.kind = .nested) (below : ScopeStack)
    (name : String) :
    view (scope :: below) name = (scope.get? name).or (view below name) := by
  rw [view, visible_cons_of_nested h, List.findSome?_cons]
  cases scope.get? name <;> rfl

theorem view_cons_of_detached {scope : Scope} (h : scope.kind = .detached) (below : ScopeStack)
    (name : String) : view (scope :: below) name = scope.get? name := by
  rw [view, visible_cons_of_detached h, List.findSome?_singleton]

/-- The lookup of a variable finds the view. -/
theorem get?_eq_view (s : ScopeStack) (name : String) : s.get? name = s.view name := by
  induction s with
  | nil => rfl
  | cons scope below ih =>
    rw [get?]
    cases hk : scope.kind with
    | nested =>
      rw [view_cons_of_nested hk, ← ih]
      cases scope.get? name <;> rfl
    | detached =>
      rw [view_cons_of_detached hk]
      cases scope.get? name <;> rfl

/-! ## The nearest scope that binds a name -/

/-- The stack is cut at the nearest visible scope that binds the name. -/
structure Nearest (s : ScopeStack) (name : String) (above : List Scope) (scope : Scope)
    (below : ScopeStack) : Prop where
  split : s = above ++ scope :: below
  /-- The scopes above let a lookup pass. -/
  passed : ∀ a ∈ above, a.kind = .nested ∧ name ∉ a.names
  binds : name ∈ scope.names

variable {above : List Scope} {scope : Scope} {below : ScopeStack}

theorem nearest_cons_self (h : name ∈ scope.names) (below : ScopeStack) :
    Nearest (scope :: below) name [] scope below :=
  ⟨rfl, by simp, h⟩

theorem Nearest.cons {top : Scope} (hk : top.kind = .nested) (hname : name ∉ top.names)
    (h : Nearest s name above scope below) :
    Nearest (top :: s) name (top :: above) scope below :=
  ⟨by rw [h.split, List.cons_append], List.forall_mem_cons.mpr ⟨⟨hk, hname⟩, h.passed⟩, h.binds⟩

/-- A search comes upon the nearest scope, or every search is in vain. -/
theorem unbound_or_nearest (s : ScopeStack) (name : String) :
    (s.view name = none ∧ s.find? name = none ∧ ∀ value, s.set? name value = none) ∨
      ∃ above scope below, s.Nearest name above scope below := by
  induction s with
  | nil => exact Or.inl ⟨rfl, rfl, fun _ => rfl⟩
  | cons top s ih =>
    by_cases hname : name ∈ top.names
    · exact Or.inr ⟨[], top, s, nearest_cons_self hname s⟩
    · have hnone := Scope.get?_eq_none_iff_notMem.mpr hname
      have hbinds : ¬ top.binds name = true := fun h => hname ((top.binds_iff_mem_names name).mp h)
      cases hk : top.kind with
      | detached =>
        refine Or.inl ⟨(view_cons_of_detached hk s name).trans hnone, ?_, fun value => ?_⟩
        · rw [find?, if_neg hbinds, hk]
        · rw [set?, if_neg hbinds, hk]
      | nested =>
        obtain ⟨hview, hfind, hset⟩ | ⟨above, scope, below, hnearest⟩ := ih
        · refine Or.inl ⟨?_, ?_, fun value => ?_⟩
          · rw [view_cons_of_nested hk, hnone, Option.none_or, hview]
          · rw [find?, if_neg hbinds, hk]
            exact hfind
          · rw [set?, if_neg hbinds, hk, hset value]
            rfl
        · exact Or.inr ⟨top :: above, scope, below, hnearest.cons hk hname⟩

section Passed

variable (h : ∀ a ∈ above, a.kind = .nested ∧ name ∉ a.names)
include h

/-- Scopes that let a lookup pass do not matter to it. -/
theorem view_append (s : ScopeStack) : view (above ++ s) name = view s name := by
  induction above with
  | nil => rfl
  | cons a above ih =>
    obtain ⟨⟨hk, hname⟩, habove⟩ := List.forall_mem_cons.mp h
    rw [List.cons_append, view_cons_of_nested hk, Scope.get?_eq_none_iff_notMem.mpr hname,
      Option.none_or, ih habove]

theorem find?_append (s : ScopeStack) : find? (above ++ s) name = find? s name := by
  induction above with
  | nil => rfl
  | cons a above ih =>
    obtain ⟨⟨hk, hname⟩, habove⟩ := List.forall_mem_cons.mp h
    rw [List.cons_append, find?, if_neg (mt (a.binds_iff_mem_names name).mp hname), hk]
    exact ih habove

/-- Scopes that let a lookup pass stay as they are. -/
theorem set?_append (s : ScopeStack) (value : Value) :
    set? (above ++ s) name value = (set? s name value).map (above ++ ·) := by
  induction above with
  | nil => exact Option.map_id'.symm
  | cons a above ih =>
    obtain ⟨⟨hk, hname⟩, habove⟩ := List.forall_mem_cons.mp h
    rw [List.cons_append, set?, if_neg (mt (a.binds_iff_mem_names name).mp hname), hk]
    simp only [ih habove, Option.map_map]
    rfl

end Passed

namespace Nearest

/-- The nearest scope gives the view its value. -/
theorem view_eq (h : Nearest s name above scope below) : s.view name = scope.get? name := by
  rw [h.split, view_append h.passed]
  cases hk : scope.kind with
  | nested =>
    rw [view_cons_of_nested hk]
    obtain ⟨value, hvalue⟩ :=
      Option.ne_none_iff_exists'.mp (mt Scope.get?_eq_none_iff_notMem.mp (not_not.mpr h.binds))
    rw [hvalue, Option.some_or]
  | detached => exact view_cons_of_detached hk below name

theorem find?_eq (h : Nearest s name above scope below) :
    s.find? name = some (below.length, scope) := by
  rw [h.split, find?_append h.passed, find?, if_pos ((scope.binds_iff_mem_names name).mpr h.binds)]

theorem set?_eq (h : Nearest s name above scope below) (value : Value) :
    s.set? name value = some (above ++ scope.put name value :: below) := by
  rw [h.split, set?_append h.passed, set?,
    if_pos ((scope.binds_iff_mem_names name).mpr h.binds), Option.map_some]

end Nearest

/-- A search tells where the nearest scope stands. -/
theorem find?_eq_some_iff {height : Nat} : s.find? name = some (height, scope) ↔
    ∃ above below, s.Nearest name above scope below ∧ height = below.length := by
  constructor
  · intro hfind
    obtain ⟨-, hnone, -⟩ | ⟨above, found, below, hnearest⟩ := unbound_or_nearest s name
    · rw [hnone] at hfind
      contradiction
    · rw [hnearest.find?_eq, Option.some_inj, Prod.mk.injEq] at hfind
      obtain ⟨rfl, rfl⟩ := hfind
      exact ⟨above, below, hnearest, rfl⟩
  · rintro ⟨above, below, hnearest, rfl⟩
    exact hnearest.find?_eq

/-- What a search finds is what the view tells. -/
theorem find?_bind_get? (s : ScopeStack) (name : String) :
    ((s.find? name).bind fun found => found.2.get? name) = s.view name := by
  obtain ⟨hview, hfind, -⟩ | ⟨above, scope, below, hnearest⟩ := unbound_or_nearest s name
  · rw [hview, hfind]
    rfl
  · rw [hnearest.find?_eq, hnearest.view_eq, Option.bind_some]

/-! ## What the operations do to the view -/

theorem view_of_create (h : s.create name value = .ok t) :
    t.view = Function.update s.view name (some value) := by
  funext n
  rw [← get?_eq_view, get?_of_create h, Function.update_apply, get?_eq_view]

theorem view_of_set? (h : s.set? name value = some t) :
    t.view = Function.update s.view name (some value) := by
  funext n
  rw [← get?_eq_view, get?_of_set? h, Function.update_apply, get?_eq_view]

theorem view_enter_nested (s : ScopeStack) : (s.enter .nested).view = s.view := by
  funext n
  rw [← get?_eq_view, get?_enter_nested, get?_eq_view]

theorem view_enter_detached (s : ScopeStack) : (s.enter .detached).view = fun _ => none := by
  funext n
  rw [← get?_eq_view, get?_enter_detached]

/-! ## Stacks that the operations make -/

/-- One action makes the one stack of the other. -/
def Performs (s t : ScopeStack) : Prop :=
  ∃ action answer, s.perform action = .ok (answer, t)

/-- Some actions make the one stack of the other, one after the other. -/
abbrev Reaches : ScopeStack → ScopeStack → Prop :=
  Relation.ReflTransGen Performs

/-- What an action can do to a stack. -/
theorem Performs.cases (h : Performs s t) :
    t = s ∨ (∃ kind, t = s.enter kind) ∨ (∃ top, s = top :: t) ∨
      (∃ name value, s.set? name value = some t) ∨
      ∃ name value, s.create name value = .ok t := by
  obtain ⟨action, answer, h⟩ := h
  cases action with
  | enter kind =>
    obtain ⟨-, rfl⟩ : Answer.nothing = answer ∧ s.enter kind = t := by simpa [perform] using h
    exact Or.inr (Or.inl ⟨kind, rfl⟩)
  | exit =>
    cases s with
    | nil => simp [perform, ScopeStack.exit, Except.map] at h
    | cons top below =>
      obtain ⟨-, rfl⟩ : Answer.nothing = answer ∧ below = t := by
        simpa [perform, ScopeStack.exit, Except.map] using h
      exact Or.inr (Or.inr (Or.inl ⟨top, rfl⟩))
  | get name =>
    obtain ⟨-, rfl⟩ : _ ∧ s = t := by simpa [perform] using h
    exact Or.inl rfl
  | set name value =>
    rw [perform] at h
    cases hset : s.set? name value with
    | some changed =>
      obtain ⟨-, rfl⟩ : Answer.changed true = answer ∧ changed = t := by simpa [hset] using h
      exact Or.inr (Or.inr (Or.inr (Or.inl ⟨name, value, hset⟩)))
    | none =>
      obtain ⟨-, rfl⟩ : Answer.changed false = answer ∧ s = t := by simpa [hset] using h
      exact Or.inl rfl
  | create name value =>
    rw [perform] at h
    cases hcreate : s.create name value with
    | ok grown =>
      obtain ⟨-, rfl⟩ : Answer.nothing = answer ∧ grown = t := by
        simpa [hcreate, Except.map] using h
      exact Or.inr (Or.inr (Or.inr (Or.inr ⟨name, value, hcreate⟩)))
    | error fault => simp [hcreate, Except.map] at h
  | find name =>
    obtain ⟨-, rfl⟩ : _ ∧ s = t := by simpa [perform] using h
    exact Or.inl rfl
  | fail text => simp [perform] at h

/-- No scope of the stack binds a name twice. -/
def Distinct (s : ScopeStack) : Prop :=
  ∀ scope ∈ s, scope.names.Nodup

theorem Distinct.performs (hs : s.Distinct) (h : Performs s t) : t.Distinct := by
  obtain rfl | ⟨kind, rfl⟩ | ⟨top, rfl⟩ | ⟨name, value, hset⟩ | ⟨name, value, hcreate⟩ := h.cases
  · exact hs
  · exact List.forall_mem_cons.mpr ⟨List.nodup_nil, hs⟩
  · exact (List.forall_mem_cons.mp hs).2
  · obtain ⟨-, -, hnone⟩ | ⟨above, scope, below, hnearest⟩ := unbound_or_nearest s name
    · rw [hnone value] at hset
      contradiction
    · obtain rfl : above ++ scope.put name value :: below = t := by
        simpa [hnearest.set?_eq value] using hset
      rw [hnearest.split, Distinct, List.forall_mem_append, List.forall_mem_cons] at hs
      rw [Distinct, List.forall_mem_append, List.forall_mem_cons]
      exact ⟨hs.1, Scope.nodup_names_put hs.2.1 name value, hs.2.2⟩
  · cases s with
    | nil => simp [create] at hcreate
    | cons top below =>
      obtain rfl : top.put name value :: below = t := by simpa [create] using hcreate
      obtain ⟨htop, hbelow⟩ := List.forall_mem_cons.mp hs
      exact List.forall_mem_cons.mpr ⟨Scope.nodup_names_put htop name value, hbelow⟩

/-- No action makes a scope bind a name twice. -/
theorem Reaches.distinct (h : Reaches s t) (hs : s.Distinct) : t.Distinct := by
  induction h with
  | refl => exact hs
  | tail _ hperforms ih => exact ih.performs hperforms

theorem reaches_enter (s : ScopeStack) (kind : Scope.Kind) : Reaches s (s.enter kind) :=
  .single ⟨.enter kind, .nothing, rfl⟩

theorem reaches_leave (inner : Progress) : Reaches inner.stack (leave inner).2 := by
  obtain ⟨records, fault, stack⟩ := inner
  cases stack with
  | nil => exact .refl
  | cons top below =>
    refine .single ⟨.exit, .nothing, ?_⟩
    cases fault <;> rfl

mutual

/-- A step of a script does to the stack what actions can do. -/
theorem reaches_runStep (s : ScopeStack) : ∀ step : Step, Reaches s (runStep step s).stack
  | .act action => by
    rw [runStep]
    cases haction : s.perform action with
    | ok done => exact .single ⟨action, done.1, haction⟩
    | error fault => exact .refl
  | .within kind steps => by
    rw [runStep]
    exact ((reaches_enter s kind).trans (reaches_runBlock (s.enter kind) steps)).trans
      (reaches_leave _)

theorem reaches_runBlock (s : ScopeStack) :
    ∀ steps : List Step, Reaches s (runBlock steps s).stack
  | [] => .refl
  | step :: steps => by
    have hstep := reaches_runStep s step
    rw [runBlock]
    cases hfault : (runStep step s).fault with
    | some fault => exact hstep
    | none => exact hstep.trans (reaches_runBlock (runStep step s).stack steps)

end

/-- A script does to the stack what actions can do. -/
theorem reaches_runScript (steps : List Step) (s : ScopeStack) :
    Reaches s (runScript steps s).2 := by
  induction steps generalizing s with
  | nil => exact .refl
  | cons step steps ih => exact (reaches_runStep s step).trans (ih (runStep step s).stack)

/-! ## The environment -/

/-- An assignment either finds the name nowhere, or gives it its value in one binding. -/
theorem perform_set (s : ScopeStack) (name : String) (value : Value) :
    (s.view name = none ∧ s.perform (.set name value) = .ok (.changed false, s)) ∨
      ∃ above scope below front old back, s.Nearest name above scope below ∧
        s.view name = some old ∧
        scope.bindings = front ++ (name, old) :: back ∧ name ∉ front.map Prod.fst ∧
        s.perform (.set name value) = .ok (.changed true,
          above ++ { scope with bindings := front ++ (name, value) :: back } :: below) := by
  obtain ⟨hview, -, hset⟩ | ⟨above, scope, below, hnearest⟩ := unbound_or_nearest s name
  · exact Or.inl ⟨hview, by rw [perform, hset value]⟩
  · obtain ⟨front, old, back, hbindings, hfront⟩ := Scope.exists_binding hnearest.binds
    refine Or.inr ⟨above, scope, below, front, old, back, hnearest, ?_, hbindings, hfront, ?_⟩
    · rw [hnearest.view_eq, Scope.get?_of_bindings_eq hbindings hfront]
    · rw [perform, hnearest.set?_eq value, Scope.put_of_bindings_eq hbindings hfront value]

/-- **A stack of scopes is an environment with shadowing.**  Reading and searching tell the view and
where it comes from.  `create` puts a value into the view by binding in the top scope, and `set` by
replacing one value in the scope that a search finds; `set` changes nothing if the view does not
bind the name, and says so.  A nested scope leaves the view alone, and a detached one empties it.
No scope binds a name twice in a stack made of the empty one, by actions or by a script.  On the
empty stack there is nothing to bind in and nothing to leave, and either fault changes nothing. -/
theorem scopes_are_shadowing_environment :
    (∀ (s : ScopeStack) (name : String),
      s.perform (.get name) = .ok (.value ((s.view name).getD .absent), s) ∧
      s.perform (.find name) = .ok (.place (s.find? name), s) ∧
      ((s.find? name).bind fun found => found.2.get? name) = s.view name ∧
      ∀ height scope, s.find? name = some (height, scope) ↔
        ∃ above below, s.Nearest name above scope below ∧ height = below.length) ∧
    (∀ (top : Scope) (below : ScopeStack) (name : String) (value : Value),
      perform (top :: below) (.create name value) =
        .ok (.nothing, top.put name value :: below) ∧
      view (top.put name value :: below) =
        Function.update (view (top :: below)) name (some value)) ∧
    (∀ (s : ScopeStack) (name : String) (value : Value),
      (s.view name = none ∧ s.perform (.set name value) = .ok (.changed false, s)) ∨
      ∃ above scope below front old back,
        s.find? name = some (below.length, scope) ∧ s = above ++ scope :: below ∧
        s.view name = some old ∧
        scope.bindings = front ++ (name, old) :: back ∧ name ∉ front.map Prod.fst ∧
        let changed := above ++ { scope with bindings := front ++ (name, value) :: back } :: below
        s.perform (.set name value) = .ok (.changed true, changed) ∧
        view changed = Function.update s.view name (some value)) ∧
    (∀ s : ScopeStack,
      (∀ kind, s.perform (.enter kind) = .ok (.nothing, s.enter kind)) ∧
      (s.enter .nested).view = s.view ∧ (s.enter .detached).view = fun _ => none) ∧
    (∀ t, Reaches [] t → ∀ scope ∈ t, scope.names.Nodup) ∧
    (∀ steps : List Step, Reaches [] (runScript steps []).2) ∧
    (runStep (.act .exit) [] = ⟨[], some .exitEmpty, []⟩ ∧
      Fault.exitEmpty.diagnostic.kind = .internal) ∧
    ∀ (name : String) (value : Value),
      runStep (.act (.create name value)) [] = ⟨[], some (.createEmpty name), []⟩ ∧
      (Fault.createEmpty name).diagnostic.kind = .internal := by
  refine ⟨fun s name => ⟨?_, rfl, find?_bind_get? s name, fun _ _ => find?_eq_some_iff⟩,
    fun top below name value => ⟨rfl, view_of_create rfl⟩, fun s name value => ?_,
    fun s => ⟨fun _ => rfl, view_enter_nested s, view_enter_detached s⟩,
    fun t h => h.distinct (List.forall_mem_nil _), fun steps => reaches_runScript steps [],
    ⟨rfl, rfl⟩, fun name value => ⟨rfl, rfl⟩⟩
  · rw [perform, get, get?_eq_view]
  · obtain hunbound | ⟨above, scope, below, front, old, back, hnearest, hview, hbindings, hfront,
      hperform⟩ := perform_set s name value
    · exact Or.inl hunbound
    · refine Or.inr ⟨above, scope, below, front, old, back, hnearest.find?_eq, hnearest.split,
        hview, hbindings, hfront, hperform, view_of_set? (s := s) ?_⟩
      rw [hnearest.set?_eq value, Scope.put_of_bindings_eq hbindings hfront value]

/-- A call binds a name that its caller binds too, and a block in it binds the name once more; the
block then assigns to a variable of the call. -/
def shadowing : List Step :=
  [.act (.enter .detached), .act (.create "a" (.int 1)), .act (.create "b" (.int 2)),
   .act (.enter .detached), .act (.create "b" (.int 3)), .act (.create "a" (.int 4)),
   .act (.enter .nested), .act (.create "a" (.int 5)), .act (.set "b" (.int 6))]

theorem shadowing_binds_names_once :
    (runScript shadowing []).2 =
      [⟨.nested, [("a", .int 5)]⟩, ⟨.detached, [("b", .int 6), ("a", .int 4)]⟩,
       ⟨.detached, [("a", .int 1), ("b", .int 2)]⟩] ∧
    Reaches [] (runScript shadowing []).2 ∧
    ∀ scope ∈ (runScript shadowing []).2, scope.names.Nodup :=
  have hreaches := scopes_are_shadowing_environment.2.2.2.2.2.1 shadowing
  ⟨by decide +kernel, hreaches, scopes_are_shadowing_environment.2.2.2.2.1 _ hreaches⟩

end ScopeStack
end Scriptlet
