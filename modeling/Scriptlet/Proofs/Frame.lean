import Scriptlet.Proofs.Congruence

/-!
# What evaluation leaves alone

Evaluating an expression opens and closes blocks and calls, and a fault can come up inside any of
them.  Whatever happens, the stack of scopes is afterwards as high as it was, with scopes of the
same kinds, and only three things can have changed in it: values of visible variables, names that
were added to the top scope, and nothing else.  What lies below the first detached scope is not
touched at all, and therefore a call leaves the whole stack as it found it.

## The frame of a stack

`ScopeStack.visible` and `ScopeStack.hidden` cut a stack below its first detached scope.  A stack
`t` is in the frame of `s` (`ScopeStack.Frame s t`) if `t` can come from `s` by evaluation.  The
relation is reflexive and transitive, `declare` and `assign` stay in it, and it survives leaving a
scope: out of a block comes a stack whose names are all the old ones, and out of a call comes the
old stack.  That is all that the induction over expressions needs, and the induction itself is in
`Congruence`.
-/

namespace Scriptlet

namespace Scope

/-- Binding a name that is not bound yet adds it behind the others. -/
theorem map_fst_putIn_of_notMem {name : String} (value : Value) :
    ∀ {bindings : List (String × Value)}, name ∉ bindings.map Prod.fst →
      (putIn name value bindings).map Prod.fst = bindings.map Prod.fst ++ [name]
  | [], _ => rfl
  | (n, v) :: bindings, h => by
    rw [List.map_cons, List.mem_cons, not_or] at h
    rw [putIn, if_neg (Ne.symm h.1), List.map_cons, map_fst_putIn_of_notMem value h.2]
    rfl

/-- Binding a name that is bound keeps all names in their places. -/
theorem map_fst_putIn_of_mem {name : String} (value : Value) :
    ∀ {bindings : List (String × Value)}, name ∈ bindings.map Prod.fst →
      (putIn name value bindings).map Prod.fst = bindings.map Prod.fst
  | [], h => absurd h (by simp)
  | (n, v) :: bindings, h => by
    rw [putIn]
    by_cases hn : n = name
    · rw [if_pos hn]
      rfl
    · rw [List.map_cons, List.mem_cons] at h
      have hmem : name ∈ bindings.map Prod.fst := h.resolve_left (Ne.symm hn)
      rw [if_neg hn, List.map_cons, map_fst_putIn_of_mem value hmem]
      rfl

/-- A scope binds the names that it lists. -/
theorem binds_iff_mem_names (scope : Scope) (name : String) :
    scope.binds name = true ↔ name ∈ scope.names := by
  rw [binds, get?, names]
  induction scope.bindings with
  | nil => simp
  | cons b bindings ih =>
    obtain ⟨n, v⟩ := b
    by_cases h : name = n
    · simp [h]
    · simp only [List.lookup_cons, beq_false_of_ne h, List.map_cons, List.mem_cons, h, false_or]
      exact ih

theorem names_put_of_binds {scope : Scope} {name : String} (value : Value)
    (h : scope.binds name = true) : (scope.put name value).names = scope.names :=
  map_fst_putIn_of_mem value ((scope.binds_iff_mem_names name).mp h)

/-- `put` adds at most one name, behind the others and not one of them. -/
theorem names_put (scope : Scope) (name : String) (value : Value) :
    ∃ added : List String, (scope.put name value).names = scope.names ++ added ∧
      added.Nodup ∧ ∀ n ∈ added, n ∉ scope.names := by
  by_cases h : name ∈ scope.names
  · exact ⟨[], by rw [List.append_nil]; exact map_fst_putIn_of_mem value h, by simp, by simp⟩
  · refine ⟨[name], map_fst_putIn_of_notMem value h, by simp, ?_⟩
    intro n hn
    rw [List.mem_singleton.mp hn]
    exact h

end Scope

namespace ScopeStack

/-! ## The visible and the hidden part of a stack -/

/-- The scopes that a lookup goes through: from the top to the first detached one. -/
def visible : ScopeStack → List Scope
  | [] => []
  | scope :: below =>
    match scope.kind with
    | .nested => scope :: visible below
    | .detached => [scope]

/-- The scopes that no lookup reaches: those below the first detached one. -/
def hidden : ScopeStack → List Scope
  | [] => []
  | scope :: below =>
    match scope.kind with
    | .nested => hidden below
    | .detached => below

/-- The names that the top scope binds, in order. -/
def topNames : ScopeStack → List String
  | [] => []
  | scope :: _ => scope.names

theorem visible_cons_of_nested {scope : Scope} (h : scope.kind = .nested) (below : ScopeStack) :
    visible (scope :: below) = scope :: visible below := by
  rw [visible, h]

theorem visible_cons_of_detached {scope : Scope} (h : scope.kind = .detached)
    (below : ScopeStack) : visible (scope :: below) = [scope] := by
  rw [visible, h]

theorem hidden_cons_of_nested {scope : Scope} (h : scope.kind = .nested) (below : ScopeStack) :
    hidden (scope :: below) = hidden below := by
  rw [hidden, h]

theorem hidden_cons_of_detached {scope : Scope} (h : scope.kind = .detached)
    (below : ScopeStack) : hidden (scope :: below) = below := by
  rw [hidden, h]

/-! ## The frame -/

/-- What evaluation can make of a stack `s`. -/
structure Frame (s t : ScopeStack) : Prop where
  /-- The stack is as high, with scopes of the same kinds. -/
  kinds : t.map Scope.kind = s.map Scope.kind
  /-- Hidden scopes are the same. -/
  hidden : t.hidden = s.hidden
  /-- Visible scopes other than the top one bind the same names in the same order. -/
  names : t.visible.tail.map Scope.names = s.visible.tail.map Scope.names
  /-- The top scope binds its names in the same order, and then new ones. -/
  grown : ∃ added : List String, t.topNames = s.topNames ++ added ∧ added.Nodup ∧
    ∀ n ∈ added, n ∉ s.topNames

/-- A stack that differs from another in visible values only. -/
structure SameNames (s t : ScopeStack) : Prop where
  kinds : t.map Scope.kind = s.map Scope.kind
  hidden : t.hidden = s.hidden
  names : t.visible.map Scope.names = s.visible.map Scope.names

theorem Frame.refl (s : ScopeStack) : Frame s s :=
  ⟨rfl, rfl, rfl, [], (List.append_nil _).symm, List.nodup_nil, by simp⟩

theorem Frame.trans {s t u : ScopeStack} (h : Frame s t) (h' : Frame t u) : Frame s u := by
  refine ⟨h'.kinds.trans h.kinds, h'.hidden.trans h.hidden, h'.names.trans h.names, ?_⟩
  obtain ⟨first, htop, hnodup, hnew⟩ := h.grown
  obtain ⟨second, htop', hnodup', hnew'⟩ := h'.grown
  rw [htop] at hnew'
  refine ⟨first ++ second, by rw [htop', htop, List.append_assoc], ?_, ?_⟩
  · refine List.nodup_append.mpr ⟨hnodup, hnodup', ?_⟩
    rintro a ha b hb rfl
    exact hnew' a hb (List.mem_append_right _ ha)
  · intro n hn
    rcases List.mem_append.mp hn with hn | hn
    · exact hnew n hn
    · exact fun hs => hnew' n hn (List.mem_append_left _ hs)

/-- The top scope is the first of the visible ones. -/
theorem topNames_eq (s : ScopeStack) :
    s.topNames = (s.visible.map Scope.names).head?.getD [] := by
  cases s with
  | nil => rfl
  | cons scope below =>
    rw [topNames]
    cases hk : scope.kind with
    | nested => rw [visible_cons_of_nested hk]; rfl
    | detached => rw [visible_cons_of_detached hk]; rfl

theorem SameNames.frame {s t : ScopeStack} (h : SameNames s t) : Frame s t := by
  refine ⟨h.kinds, h.hidden, ?_, [], ?_, List.nodup_nil, by simp⟩
  · rw [List.map_tail, List.map_tail, h.names]
  · rw [topNames_eq, topNames_eq, h.names, List.append_nil]

theorem SameNames.cons {s t : ScopeStack} (scope : Scope) (hk : scope.kind = .nested)
    (h : SameNames s t) : SameNames (scope :: s) (scope :: t) := by
  refine ⟨?_, ?_, ?_⟩
  · rw [List.map_cons, List.map_cons, h.kinds]
  · rw [hidden_cons_of_nested hk, hidden_cons_of_nested hk, h.hidden]
  · rw [visible_cons_of_nested hk, visible_cons_of_nested hk, List.map_cons, List.map_cons, h.names]

/-- Giving a visible name another value changes no names. -/
theorem sameNames_of_set? {s t : ScopeStack} {name : String} {value : Value}
    (h : s.set? name value = some t) : SameNames s t := by
  induction s generalizing t with
  | nil => simp [set?] at h
  | cons scope below ih =>
    rw [set?] at h
    split at h
    · rename_i hbound
      obtain rfl : scope.put name value :: below = t := by simpa using h
      have hput : (scope.put name value).names = scope.names :=
        scope.names_put_of_binds value hbound
      cases hk : scope.kind with
      | nested =>
        have hk' : (scope.put name value).kind = .nested := hk
        refine ⟨rfl, ?_, ?_⟩
        · rw [hidden_cons_of_nested hk', hidden_cons_of_nested hk]
        · rw [visible_cons_of_nested hk', visible_cons_of_nested hk, List.map_cons, List.map_cons,
            hput]
      | detached =>
        have hk' : (scope.put name value).kind = .detached := hk
        refine ⟨rfl, ?_, ?_⟩
        · rw [hidden_cons_of_detached hk', hidden_cons_of_detached hk]
        · rw [visible_cons_of_detached hk', visible_cons_of_detached hk, List.map_singleton,
            List.map_singleton, hput]
    · cases hk : scope.kind with
      | detached => simp [hk] at h
      | nested =>
        simp only [hk, Option.map_eq_some_iff] at h
        obtain ⟨changed, hset, rfl⟩ := h
        exact (ih hset).cons scope hk

/-- Binding a name in the top scope adds it there at most. -/
theorem frame_of_create {s t : ScopeStack} {name : String} {value : Value}
    (h : s.create name value = .ok t) : Frame s t := by
  cases s with
  | nil => simp [create] at h
  | cons scope below =>
    obtain rfl : scope.put name value :: below = t := by simpa [create] using h
    cases hk : scope.kind with
    | nested =>
      have hk' : (scope.put name value).kind = .nested := hk
      refine ⟨rfl, ?_, ?_, scope.names_put name value⟩
      · rw [hidden_cons_of_nested hk', hidden_cons_of_nested hk]
      · rw [visible_cons_of_nested hk', visible_cons_of_nested hk, List.tail_cons, List.tail_cons]
    | detached =>
      have hk' : (scope.put name value).kind = .detached := hk
      refine ⟨rfl, ?_, ?_, scope.names_put name value⟩
      · rw [hidden_cons_of_detached hk', hidden_cons_of_detached hk]
      · rw [visible_cons_of_detached hk', visible_cons_of_detached hk, List.tail_cons,
          List.tail_cons]

/-- What is in the frame of a stack with one more scope has that scope to leave. -/
theorem Frame.exists_cons {s t : ScopeStack} {scope : Scope} (h : Frame (scope :: s) t) :
    ∃ top below, t = top :: below ∧ top.kind = scope.kind := by
  cases t with
  | nil =>
    have hk := h.kinds
    simp at hk
  | cons top below =>
    have hk := h.kinds
    rw [List.map_cons, List.map_cons, List.cons.injEq] at hk
    exact ⟨top, below, rfl, hk.1⟩

/-- Leaving a block: all names are the old ones. -/
theorem Frame.leave_nested {s t : ScopeStack} {scope top : Scope} (hk : scope.kind = .nested)
    (h : Frame (scope :: s) (top :: t)) : SameNames s t := by
  have hkinds := h.kinds
  rw [List.map_cons, List.map_cons, List.cons.injEq] at hkinds
  have hk' : top.kind = .nested := hkinds.1.trans hk
  have hhidden := h.hidden
  rw [hidden_cons_of_nested hk', hidden_cons_of_nested hk] at hhidden
  have hnames := h.names
  rw [visible_cons_of_nested hk', visible_cons_of_nested hk, List.tail_cons,
    List.tail_cons] at hnames
  exact ⟨hkinds.2, hhidden, hnames⟩

/-- Leaving a call: the stack is the old one. -/
theorem Frame.leave_detached {s t : ScopeStack} {scope top : Scope} (hk : scope.kind = .detached)
    (h : Frame (scope :: s) (top :: t)) : t = s := by
  have hkinds := h.kinds
  rw [List.map_cons, List.map_cons, List.cons.injEq] at hkinds
  have hhidden := h.hidden
  rw [hidden_cons_of_detached (hkinds.1.trans hk), hidden_cons_of_detached hk] at hhidden
  exact hhidden

end ScopeStack

/-! ## The frame of a machine -/

/-- What evaluation can make of a machine: it prints and logs behind what there is, and the stack of
scopes stays in its frame. -/
structure Machine.Frame (m left : Machine) : Prop where
  functions : left.functions = m.functions
  callDepth : left.callDepth = m.callDepth
  maxCallDepth : left.maxCallDepth = m.maxCallDepth
  prints : ∃ pieces, left.prints = m.prints ++ pieces
  log : ∃ lines, left.log = m.log ++ lines
  scopes : m.scopes.Frame left.scopes

namespace Machine.Frame

theorem refl (m : Machine) : m.Frame m :=
  ⟨rfl, rfl, rfl, ⟨#[], (Array.append_empty).symm⟩, ⟨#[], (Array.append_empty).symm⟩,
    ScopeStack.Frame.refl _⟩

theorem trans {m left last : Machine} (h : m.Frame left) (h' : left.Frame last) :
    m.Frame last := by
  obtain ⟨pieces, hprints⟩ := h.prints
  obtain ⟨pieces', hprints'⟩ := h'.prints
  obtain ⟨lines, hlog⟩ := h.log
  obtain ⟨lines', hlog'⟩ := h'.log
  exact
    { functions := h'.functions.trans h.functions
      callDepth := h'.callDepth.trans h.callDepth
      maxCallDepth := h'.maxCallDepth.trans h.maxCallDepth
      prints := ⟨pieces ++ pieces', by rw [hprints', hprints, Array.append_assoc]⟩
      log := ⟨lines ++ lines', by rw [hlog', hlog, Array.append_assoc]⟩
      scopes := h.scopes.trans h'.scopes }

/-- A step that changes nothing but the stack, and that within its frame. -/
theorem of_scopes {m : Machine} {scopes : ScopeStack} (h : m.scopes.Frame scopes) :
    m.Frame { m with scopes } :=
  { refl m with scopes := h }

end Machine.Frame

namespace Run

/-- A step that stays in the frame of the machine it starts from. -/
def KeepsFrame (run : Run α) : Prop :=
  ∀ m : Machine, m.Frame (run.after m)

theorem keepsFrame_pure (a : α) : KeepsFrame (pure a) := fun m => .refl m

theorem keepsFrame_throw (fault : Fault) : KeepsFrame (throw fault : Run α) := fun m => .refl m

theorem KeepsFrame.bind {run : Run α} {f : α → Run β} (h : KeepsFrame run)
    (hf : ∀ a, KeepsFrame (f a)) : KeepsFrame (run >>= f) := by
  intro m
  have hrun := h m
  cases hm : run m with
  | ok a left =>
    rw [after_of_ok hm] at hrun
    rw [after_bind_of_ok hm]
    exact hrun.trans (hf a left)
  | error fault left =>
    rw [after_of_error hm] at hrun
    rw [after_bind_of_error hm]
    exact hrun

theorem keepsFrame_print (text : String) : KeepsFrame (print text) := fun m =>
  { Machine.Frame.refl m with prints := ⟨#[text], rfl⟩ }

theorem keepsFrame_note (line : String) : KeepsFrame (note line) := fun m =>
  { Machine.Frame.refl m with log := ⟨#[line], rfl⟩ }

theorem keepsFrame_readVariable (name : String) : KeepsFrame (readVariable name) := by
  intro m
  rw [after, readVariable]
  cases m.scopes.get name <;> exact .refl m

theorem keepsFrame_declare (name : String) (value : Value) : KeepsFrame (declare name value) := by
  refine KeepsFrame.bind (fun m => ?_) fun _ => keepsFrame_pure value
  rw [after, changeScopes]
  cases h : m.scopes.create name value with
  | ok scopes => exact .of_scopes (ScopeStack.frame_of_create h)
  | error fault => exact .refl m

theorem keepsFrame_assign (name : String) (value : Value) : KeepsFrame (assign name value) := by
  intro m
  rw [after, assign]
  cases h : m.scopes.set? name value with
  | some scopes => exact .of_scopes (ScopeStack.sameNames_of_set? h).frame
  | none => exact .refl m

/-! ## Scopes and calls -/

/-- A step in a scope of its own.  As long as there is a scope to leave afterwards, the outcome is
that of the step, and one scope is taken off. -/
theorem inScope_of_cons {body : Run α} {kind : Scope.Kind} {m : Machine} {top : Scope}
    {below : ScopeStack}
    (h : (body.after { m with scopes := m.scopes.enter kind }).scopes = top :: below) :
    (inScope kind body).result m = body.result { m with scopes := m.scopes.enter kind } ∧
      (inScope kind body).after m =
        { body.after { m with scopes := m.scopes.enter kind } with scopes := below } := by
  have henter : inScope kind body m =
      thenAlways body (changeScopes ScopeStack.exit) { m with scopes := m.scopes.enter kind } := rfl
  rw [result, after, henter, thenAlways]
  cases hm : body { m with scopes := m.scopes.enter kind } with
  | ok a left =>
    rw [after_of_ok hm] at h ⊢
    rw [result_of_ok hm]
    simp only [changeScopes, h, ScopeStack.exit, and_self]
  | error fault left =>
    rw [after_of_error hm] at h ⊢
    rw [result_of_error hm]
    simp only [changeScopes, h, ScopeStack.exit, and_self]

/-- A step that stays in the frame has its scope to leave. -/
theorem KeepsFrame.exists_cons {body : Run α} (h : KeepsFrame body) (kind : Scope.Kind)
    (m : Machine) : ∃ top below,
      (body.after { m with scopes := m.scopes.enter kind }).scopes = top :: below := by
  obtain ⟨top, below, hscopes, _⟩ :=
    (h { m with scopes := m.scopes.enter kind }).scopes.exists_cons
  exact ⟨top, below, hscopes⟩

theorem KeepsFrame.inBlock {body : Run α} (h : KeepsFrame body) :
    KeepsFrame (inScope .nested body) := by
  intro m
  obtain ⟨top, below, hscopes⟩ := h.exists_cons .nested m
  have hframe := h { m with scopes := m.scopes.enter .nested }
  have hbelow : m.scopes.SameNames below := by
    have hstack := hframe.scopes
    rw [hscopes] at hstack
    exact hstack.leave_nested rfl
  rw [(inScope_of_cons hscopes).2]
  exact { hframe with scopes := hbelow.frame }

/-- A step in a detached scope leaves the stack as it was. -/
theorem KeepsFrame.scopes_inScope_detached {body : Run α} (h : KeepsFrame body) (m : Machine) :
    ((inScope .detached body).after m).scopes = m.scopes := by
  obtain ⟨top, below, hscopes⟩ := h.exists_cons .detached m
  have hstack := (h { m with scopes := m.scopes.enter .detached }).scopes
  rw [hscopes] at hstack
  rw [(inScope_of_cons hscopes).2]
  exact hstack.leave_detached rfl

theorem KeepsFrame.inScope_detached {body : Run α} (h : KeepsFrame body) :
    KeepsFrame (inScope .detached body) := by
  intro m
  obtain ⟨top, below, hscopes⟩ := h.exists_cons .detached m
  have hframe := h { m with scopes := m.scopes.enter .detached }
  have hsame : m.scopes.Frame ((inScope .detached body).after m).scopes := by
    rw [h.scopes_inScope_detached m]
    exact .refl _
  rw [(inScope_of_cons hscopes).2] at hsame ⊢
  exact { hframe with scopes := hsame }

/-- No call opens when as many are open as may be. -/
theorem inCall_of_ge (name : String) (body : Run Value) {m : Machine}
    (h : m.callDepth ≥ m.maxCallDepth) :
    inCall name body m = .error (.callDepth m.maxCallDepth name) m := by
  show (ite _ _ _ : Run Value) m = _
  rw [if_pos h]
  rfl

/-- An opened call counts as one more while it runs, and comes to what its body comes to. -/
theorem inCall_of_lt (name : String) (body : Run Value) {m : Machine}
    (h : m.callDepth < m.maxCallDepth) :
    (inCall name body).result m =
        (inScope .detached body).result { m with callDepth := m.callDepth + 1 } ∧
      (inCall name body).after m =
        let left := (inScope .detached body).after { m with callDepth := m.callDepth + 1 }
        { left with callDepth := left.callDepth - 1 } := by
  have hopen : inCall name body m = thenAlways (inScope .detached body) (addCalls (-1))
      { m with callDepth := m.callDepth + 1 } := by
    show (ite _ _ _ : Run Value) m = _
    rw [if_neg (by omega)]
    rfl
  simp only [result, after, hopen, thenAlways, addCalls]
  cases inScope .detached body { m with callDepth := m.callDepth + 1 } with
  | ok a left => exact ⟨rfl, rfl⟩
  | error fault left => exact ⟨rfl, rfl⟩

theorem KeepsFrame.inCall {body : Run Value} (h : KeepsFrame body) (name : String) :
    KeepsFrame (inCall name body) := by
  intro m
  by_cases hdepth : m.callDepth < m.maxCallDepth
  · have hframe := h.inScope_detached { m with callDepth := m.callDepth + 1 }
    rw [(inCall_of_lt name body hdepth).2]
    refine { hframe with callDepth := ?_ }
    simp only [hframe.callDepth]
    omega
  · rw [after_of_error (inCall_of_ge name body (Int.not_lt.mp hdepth))]
    exact .refl m

theorem KeepsFrame.scopes_inCall {body : Run Value} (h : KeepsFrame body) (name : String)
    (m : Machine) : ((Run.inCall name body).after m).scopes = m.scopes := by
  by_cases hdepth : m.callDepth < m.maxCallDepth
  · rw [(inCall_of_lt name body hdepth).2]
    exact h.scopes_inScope_detached { m with callDepth := m.callDepth + 1 }
  · rw [after_of_error (inCall_of_ge name body (Int.not_lt.mp hdepth))]

/-- Staying in the frame passes through evaluation. -/
theorem callCongruence_keepsFrame : CallCongruence fun _ p q => p = q ∧ KeepsFrame p where
  pure a := ⟨rfl, keepsFrame_pure a⟩
  throw fault := ⟨rfl, keepsFrame_throw fault⟩
  bind hp hf := ⟨by rw [hp.1, funext fun a => (hf a).1], hp.2.bind fun a => (hf a).2⟩
  readVariable name := ⟨rfl, keepsFrame_readVariable name⟩
  declare name value := ⟨rfl, keepsFrame_declare name value⟩
  assign name value := ⟨rfl, keepsFrame_assign name value⟩
  inBlock hp := ⟨by rw [hp.1], hp.2.inBlock⟩
  print text := ⟨rfl, keepsFrame_print text⟩
  note line := ⟨rfl, keepsFrame_note line⟩
  refuseCall _ := ⟨rfl, fun m => .refl m⟩
  withFunction name f g hf := by
    obtain rfl : f = g := funext fun found => (hf found).1
    exact ⟨rfl, fun m => (hf (m.function? name)).2 m⟩
  inCall name _ _ hp := ⟨by rw [hp.1], hp.2.inCall name⟩

theorem keepsFrame_callUpTo (count : Nat) (name : String) (args : List Value) :
    KeepsFrame (callUpTo count name args) :=
  (callCongruence_keepsFrame.callUpTo count name args).2

theorem keepsFrame_evalWith (count : Nat) (e : Expr) : KeepsFrame (evalWith (callUpTo count) e) :=
  (callCongruence_keepsFrame.evalWith (callCongruence_keepsFrame.callUpTo count) e).2

theorem keepsFrame_evalSequenceWith (count : Nat) (es : List Expr) (last : Value) :
    KeepsFrame (evalSequenceWith (callUpTo count) es last) :=
  (callCongruence_keepsFrame.evalSequenceWith (callCongruence_keepsFrame.callUpTo count) es last).2

theorem keepsFrame_callBody (count : Nat) (name : String) (args : List Value) :
    KeepsFrame (callBody (callUpTo count) name args) :=
  (callCongruence_keepsFrame.callBody (callCongruence_keepsFrame.callUpTo count) name args).2

theorem keepsFrame_eval (e : Expr) : KeepsFrame (eval e) := by
  intro m
  rw [eval, after_withCalls]
  exact keepsFrame_evalWith (m.callsLeft + 1) e m

theorem keepsFrame_call (name : String) (args : List Value) : KeepsFrame (call name args) := by
  intro m
  rw [call, after_withCalls]
  exact keepsFrame_callUpTo (m.callsLeft + 1) name args m

/-- A call leaves the stack of scopes exactly as it was. -/
theorem scopes_after_call (name : String) (args : List Value) (m : Machine) :
    ((call name args).after m).scopes = m.scopes := by
  rw [call, after_withCalls, callUpTo, callWith_eq_inCall]
  exact (keepsFrame_callBody m.callsLeft name args).scopes_inCall name m

end Run

/-- What is printed later stands behind what was printed before. -/
theorem Machine.Frame.output {m left : Machine} (h : m.Frame left) :
    ∃ text, left.output = m.output ++ text := by
  obtain ⟨pieces, hprints⟩ := h.prints
  refine ⟨String.join pieces.toList, ?_⟩
  rw [Machine.output, Machine.output, hprints, Array.toList_append, String.join_append]

/-- **The frame of evaluation.**  Evaluating any expression on any machine, with whatever outcome,
leaves the table of functions and the number of open calls alone, prints behind what was printed,
and changes the stack of scopes only within its frame.  A call leaves the stack and the number of
open calls exactly as they were. -/
theorem eval_keeps_frame_and_call_keeps_scopes (m : Machine) :
    (∀ e : Expr, m.Frame ((Run.eval e).after m) ∧
      ∃ text, ((Run.eval e).after m).output = m.output ++ text) ∧
    ∀ (name : String) (args : List Value),
      ((Run.call name args).after m).scopes = m.scopes ∧
      ((Run.call name args).after m).callDepth = m.callDepth := by
  refine ⟨fun e => ?_, fun name args => ⟨Run.scopes_after_call name args m, ?_⟩⟩
  · have hframe := Run.keepsFrame_eval e m
    exact ⟨hframe, hframe.output⟩
  · exact (Run.keepsFrame_call name args m).callDepth

end Scriptlet
