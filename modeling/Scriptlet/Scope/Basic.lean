import Scriptlet.Value.Text

/-!
# Scopes

Variables live in a stack of scopes, the active one on top.  A nested scope belongs to a block and
sees the scopes around it; a detached scope belongs to a call, and what is looked up from it or
from the blocks above it stops there.  Functions capture nothing, so no scope outlives its place on
the stack.

A scope keeps its bindings in the order in which their names were first bound; binding a name
again replaces the value and keeps the place.

The meaning of a stack is its `get?`: the partial map from the visible names to their values.
-/

namespace Scriptlet

/-- How far a lookup goes that does not find its name in a scope. -/
inductive Scope.Kind where
  /-- It goes on to the scope below. -/
  | nested
  /-- It ends. -/
  | detached
  deriving DecidableEq, Repr

/-- The variables of one block or one call. -/
structure Scope where
  kind : Scope.Kind
  /-- Names with their values, first bound first. -/
  bindings : List (String × Value) := []
  deriving DecidableEq, Repr

namespace Scope

/-- The value that the scope binds to a name. -/
def get? (scope : Scope) (name : String) : Option Value :=
  scope.bindings.lookup name

/-- Whether the scope binds a name. -/
def binds (scope : Scope) (name : String) : Bool :=
  (scope.get? name).isSome

/-- The bound names in order. -/
def names (scope : Scope) : List String :=
  scope.bindings.map Prod.fst

/-- Replaces the value of a name, or adds the name at the end. -/
def putIn (name : String) (value : Value) : List (String × Value) → List (String × Value)
  | [] => [(name, value)]
  | (n, v) :: bindings =>
    if n = name then (n, value) :: bindings else (n, v) :: putIn name value bindings

/-- Binds a name to a value. -/
def put (scope : Scope) (name : String) (value : Value) : Scope :=
  { scope with bindings := putIn name value scope.bindings }

/-- The word for a kind of scope. -/
def Kind.text : Kind → String
  | .nested => "nested"
  | .detached => "detached"

/-- A listing of the scope: its kind and its bindings. -/
def text (scope : Scope) : String :=
  let bindings := scope.bindings.map fun (name, value) => name ++ ": " ++ value.listed
  scope.kind.text ++ "\x7b" ++ ", ".intercalate bindings ++ "\x7d"

/-! ### What `put` does to the bindings -/

theorem lookup_putIn (name : String) (value : Value) (bindings : List (String × Value))
    (n : String) :
    (putIn name value bindings).lookup n = if n = name then some value else bindings.lookup n := by
  induction bindings with
  | nil =>
    by_cases h : n = name
    · simp [putIn, h]
    · simp [putIn, h, List.lookup_cons, beq_false_of_ne h]
  | cons b bindings ih =>
    obtain ⟨m, v⟩ := b
    rw [putIn]
    by_cases hm : m = name
    · subst hm
      by_cases hn : n = m
      · simp [hn]
      · simp [hn, List.lookup_cons, beq_false_of_ne hn]
    · rw [if_neg hm, List.lookup_cons, List.lookup_cons, ih]
      by_cases hn : n = m
      · simp [hn, hm]
      · simp [beq_false_of_ne hn]

/-- Binding a name changes what is bound to that name, and nothing else. -/
@[simp] theorem get?_put (scope : Scope) (name : String) (value : Value) (n : String) :
    (scope.put name value).get? n = if n = name then some value else scope.get? n :=
  lookup_putIn name value scope.bindings n

@[simp] theorem kind_put (scope : Scope) (name : String) (value : Value) :
    (scope.put name value).kind = scope.kind := rfl

end Scope

/-- Scopes one above the other, the active one first. -/
abbrev ScopeStack := List Scope

namespace ScopeStack

/-- Why an operation on the stack is impossible. -/
inductive Fault where
  /-- There is no scope to leave. -/
  | exitEmpty
  /-- There is no scope to bind the name in. -/
  | createEmpty (name : String)
  /-- Reported by a step that only fails. -/
  | reported (text : String)
  deriving DecidableEq, Repr

/-- The text of a fault. -/
def Fault.message : Fault → String
  | .exitEmpty => "Cannot exit scope: no scope is active"
  | .createEmpty name => "Cannot create " ++ name ++ ": no scope is active"
  | .reported text => text

/-- Puts a new scope without bindings on top. -/
def enter (stack : ScopeStack) (kind : Scope.Kind) : ScopeStack :=
  { kind } :: stack

/-- Takes the top scope off. -/
def exit : ScopeStack → Except Fault ScopeStack
  | [] => .error .exitEmpty
  | _ :: below => .ok below

/-- The value of a visible name: of its bindings, the nearest one counts. -/
def get? : ScopeStack → String → Option Value
  | [], _ => none
  | scope :: below, name =>
    match scope.get? name with
    | some value => some value
    | none =>
      match scope.kind with
      | .nested => get? below name
      | .detached => none

/-- The nearest visible scope that binds `name`, with its height above the bottom. -/
def find? : ScopeStack → String → Option (Nat × Scope)
  | [], _ => none
  | scope :: below, name =>
    if scope.binds name then some (below.length, scope)
    else match scope.kind with
      | .nested => find? below name
      | .detached => none

/-- The value of a visible name, or `absent`: a name bound to `absent` reads like a missing one. -/
def get (stack : ScopeStack) (name : String) : Value :=
  (get? stack name).getD .absent

/-- Gives a visible name another value where it is bound; none if it is not visible. -/
def set? : ScopeStack → String → Value → Option ScopeStack
  | [], _, _ => none
  | scope :: below, name, value =>
    if scope.binds name then some (scope.put name value :: below)
    else match scope.kind with
      | .nested => (set? below name value).map (scope :: ·)
      | .detached => none

/-- Binds a name in the active scope, over any binding of it further down. -/
def create : ScopeStack → String → Value → Except Fault ScopeStack
  | [], name, _ => .error (.createEmpty name)
  | scope :: below, name, value => .ok (scope.put name value :: below)

/-- A listing of the stack, the active scope first. -/
def text (stack : ScopeStack) : String :=
  "<Scopes: " ++ " -> ".intercalate (stack.map Scope.text) ++ ">"

/-! ### What the operations do to the visible names -/

/-- A nested scope without bindings hides nothing. -/
@[simp] theorem get?_enter_nested (stack : ScopeStack) (name : String) :
    (stack.enter .nested).get? name = stack.get? name := rfl

/-- From a detached scope without bindings nothing is visible. -/
@[simp] theorem get?_enter_detached (stack : ScopeStack) (name : String) :
    (stack.enter .detached).get? name = none := rfl

/-- After `create` the name has the new value, and all others have theirs. -/
theorem get?_of_create {stack after : ScopeStack} {name : String} {value : Value}
    (h : stack.create name value = .ok after) (n : String) :
    after.get? n = if n = name then some value else stack.get? n := by
  cases stack with
  | nil => simp [create] at h
  | cons scope below =>
    obtain rfl : scope.put name value :: below = after := by simpa [create] using h
    by_cases hn : n = name <;> simp [get?, hn]

/-- After `set?` the name has the new value, and all others have theirs. -/
theorem get?_of_set? {stack after : ScopeStack} {name : String} {value : Value}
    (h : stack.set? name value = some after) (n : String) :
    after.get? n = if n = name then some value else stack.get? n := by
  induction stack generalizing after with
  | nil => simp [set?] at h
  | cons scope below ih =>
    rw [set?] at h
    split at h
    · obtain rfl : scope.put name value :: below = after := by simpa using h
      by_cases hn : n = name <;> simp [get?, hn]
    · rename_i unbound
      cases hk : scope.kind with
      | detached => simp [hk] at h
      | nested =>
        simp only [hk, Option.map_eq_some_iff] at h
        obtain ⟨changed, hset, rfl⟩ := h
        have hn : scope.get? name = none := by simpa [Scope.binds] using unbound
        rw [get?, get?, hk, ih hset]
        by_cases hn' : n = name
        · simp [hn', hn]
        · simp [hn']

end ScopeStack
end Scriptlet
