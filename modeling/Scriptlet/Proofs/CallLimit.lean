import Mathlib.Control.Monad.Basic
import Scriptlet.Outcome
import Scriptlet.Proofs.Frame

/-!
# Allowing more calls

A machine refuses a call when as many are open as it allows.  Apart from that refusal nothing in a
run depends on the number, so that a run that is never refused is the same run on a machine that
allows more, and a run that is refused has done, up to there, what the other does too.

## The relation between the two runs

`OutlastedBy p q` compares `p` with `q`, which starts from the same machine with a higher limit:
either both come to the same and leave the same machine, limits apart, or `p` was refused a call,
and then what it had printed is the beginning of what `q` prints.  In the second case nothing is
known about where `q` goes from there, except that it prints behind what was printed before; that is
why both runs also have to stay in the frame of their machines.

The relation passes through evaluation by the induction in `Congruence`.  Only the calls do not fit
there, because the two machines let calls go to different depths: `callUpTo n` has to be compared
with `callUpTo n'` for `n ≤ n'`, and this is one more induction (`outlastedBy_callUpTo`).

All this is about the run.  Before it begins, room is made for the calls on the host, and a host
that takes the lower limit may not take the higher one.  The room itself is not part of this: it is
taken to be large enough for the run, once the host has taken the limit.
-/

namespace Scriptlet

/-- The machine with another limit on the calls. -/
def Machine.withLimit (m : Machine) (limit : Int) : Machine :=
  { m with maxCallDepth := limit }

namespace Run

/-! ## Two limits -/

/-- The step was refused a call for want of depth. -/
def Refused (p : Run α) (m : Machine) : Prop :=
  ∃ limit name, p.result m = .error (.callDepth limit name)

/-- With the other limit the second step comes to the same. -/
structure Agree (p q : Run α) (m : Machine) (limit : Int) : Prop where
  result : q.result (m.withLimit limit) = p.result m
  after : q.after (m.withLimit limit) = (p.after m).withLimit limit

/-- The first step was refused a call, and with the other limit the second prints at least what the
first had printed. -/
structure CutShort (p q : Run α) (m : Machine) (limit : Int) : Prop where
  refused : Refused p m
  prints : ∃ pieces, (q.after (m.withLimit limit)).prints = (p.after m).prints ++ pieces

/-- Under any higher limit the second step comes to the same as the first, or the first was cut
short. -/
def OutlastedBy (p q : Run α) : Prop :=
  ∀ (m : Machine) (limit : Int), m.maxCallDepth ≤ limit →
    Agree p q m limit ∨ CutShort p q m limit

variable {p q : Run α} {m : Machine} {limit : Int}

/-- A step that does the same on both machines. -/
theorem Agree.of_ok {a : α} {left : Machine} (hp : p m = .ok a left)
    (hq : q (m.withLimit limit) = .ok a (left.withLimit limit)) : Agree p q m limit := by
  refine ⟨?_, ?_⟩
  · rw [result_of_ok hp, result_of_ok hq]
  · rw [after_of_ok hp, after_of_ok hq]

theorem Agree.of_error {fault : Fault} {left : Machine} (hp : p m = .error fault left)
    (hq : q (m.withLimit limit) = .error fault (left.withLimit limit)) : Agree p q m limit := by
  refine ⟨?_, ?_⟩
  · rw [result_of_error hp, result_of_error hq]
  · rw [after_of_error hp, after_of_error hq]

/-- What the second step does after a success of the first. -/
theorem Agree.apply_of_ok (h : Agree p q m limit) {a : α} {left : Machine} (hp : p m = .ok a left) :
    q (m.withLimit limit) = .ok a (left.withLimit limit) := by
  have hresult := h.result
  have hafter := h.after
  rw [result_of_ok hp] at hresult
  rw [after_of_ok hp] at hafter
  cases hq : q (m.withLimit limit) with
  | ok b last =>
    rw [result_of_ok hq] at hresult
    rw [after_of_ok hq] at hafter
    rw [hafter, Except.ok.inj hresult]
  | error fault last =>
    rw [result_of_error hq] at hresult
    cases hresult

theorem Agree.apply_of_error (h : Agree p q m limit) {fault : Fault} {left : Machine}
    (hp : p m = .error fault left) :
    q (m.withLimit limit) = .error fault (left.withLimit limit) := by
  have hresult := h.result
  have hafter := h.after
  rw [result_of_error hp] at hresult
  rw [after_of_error hp] at hafter
  cases hq : q (m.withLimit limit) with
  | ok b last =>
    rw [result_of_ok hq] at hresult
    cases hresult
  | error fault' last =>
    rw [result_of_error hq] at hresult
    rw [after_of_error hq] at hafter
    rw [hafter, Except.error.inj hresult]

/-- Steps that do the same from another machine can be compared there. -/
theorem outlasted_of_apply_eq (p' q' : Run α) {m' : Machine} (hp : p m = p' m')
    (hq : q (m.withLimit limit) = q' (m'.withLimit limit))
    (h : Agree p' q' m' limit ∨ CutShort p' q' m' limit) :
    Agree p q m limit ∨ CutShort p q m limit := by
  have hresult : p.result m = p'.result m' := by rw [result, hp, result]
  have hafter : p.after m = p'.after m' := by rw [after, hp, after]
  have hresult' : q.result (m.withLimit limit) = q'.result (m'.withLimit limit) := by
    rw [result, hq, result]
  have hafter' : q.after (m.withLimit limit) = q'.after (m'.withLimit limit) := by
    rw [after, hq, after]
  rcases h with hagree | ⟨⟨n, name, hrefused⟩, pieces, hprints⟩
  · refine Or.inl ⟨?_, ?_⟩
    · rw [hresult, hresult', hagree.result]
    · rw [hafter, hafter', hagree.after]
  · refine Or.inr ⟨⟨n, name, ?_⟩, pieces, ?_⟩
    · rw [hresult, hrefused]
    · rw [hafter, hafter', hprints]

/-! ## Through the steps of evaluation -/

theorem outlastedBy_pure (a : α) : OutlastedBy (pure a) (pure a) := fun _ _ _ =>
  Or.inl (.of_ok rfl rfl)

theorem outlastedBy_throw (fault : Fault) : OutlastedBy (throw fault : Run α) (throw fault) :=
  fun _ _ _ => Or.inl (.of_error rfl rfl)

/-- A step that was refused is a beginning of any that stays in the frame. -/
theorem CutShort.of_refused {name : String}
    (hp : p m = .error (.callDepth m.maxCallDepth name) m) (hq : KeepsFrame q) :
    CutShort p q m limit := by
  refine ⟨⟨_, name, result_of_error hp⟩, ?_⟩
  rw [after_of_error hp]
  exact (hq (m.withLimit limit)).prints

theorem OutlastedBy.bind {f g : α → Run β} (h : OutlastedBy p q) (hf : ∀ a, OutlastedBy (f a) (g a))
    (hkeeps : KeepsFrame p) (hg : ∀ a, KeepsFrame (g a)) : OutlastedBy (p >>= f) (q >>= g) := by
  intro m limit hlimit
  rcases h m limit hlimit with hagree | ⟨⟨n, name, hrefused⟩, pieces, hprints⟩
  · cases hp : p m with
    | ok a left =>
      have hq := hagree.apply_of_ok hp
      have hleft : left.maxCallDepth ≤ limit := by
        have hframe := hkeeps m
        rw [after_of_ok hp] at hframe
        rw [hframe.maxCallDepth]
        exact hlimit
      rcases hf a left limit hleft with hnext | ⟨⟨n, name, hrefused⟩, hprints⟩
      · refine Or.inl ⟨?_, ?_⟩
        · rw [result_bind_of_ok hp, result_bind_of_ok hq, hnext.result]
        · rw [after_bind_of_ok hp, after_bind_of_ok hq, hnext.after]
      · refine Or.inr ⟨⟨n, name, ?_⟩, ?_⟩
        · rw [result_bind_of_ok hp, hrefused]
        · rw [after_bind_of_ok hp, after_bind_of_ok hq]
          exact hprints
    | error fault left =>
      exact Or.inl (.of_error (bind_of_error hp f) (bind_of_error (hagree.apply_of_error hp) g))
  · -- the first run ends here, and the second may go on printing
    cases hp : p m with
    | ok a left =>
      rw [result_of_ok hp] at hrefused
      cases hrefused
    | error fault left =>
      rw [result_of_error hp] at hrefused
      rw [after_of_error hp] at hprints
      refine Or.inr ⟨⟨n, name, ?_⟩, ?_⟩
      · rw [result_bind_of_error hp, Except.error.inj hrefused]
      · rw [after_bind_of_error hp]
        cases hq : q (m.withLimit limit) with
        | ok b last =>
          rw [after_of_ok hq] at hprints
          obtain ⟨more, hmore⟩ := (hg b last).prints
          refine ⟨pieces ++ more, ?_⟩
          rw [after_bind_of_ok hq, hmore, hprints, Array.append_assoc]
        | error fault' last =>
          rw [after_of_error hq] at hprints
          rw [after_bind_of_error hq]
          exact ⟨pieces, hprints⟩

theorem outlastedBy_readVariable (name : String) :
    OutlastedBy (readVariable name) (readVariable name) := by
  intro m limit _
  have hscopes : (m.withLimit limit).scopes = m.scopes := rfl
  cases hv : m.scopes.get name with
  | absent =>
    have hread : readVariable name m = .error (.undefinedVariable name) m := by
      simp only [readVariable, hv]
    refine Or.inl (.of_error hread ?_)
    simp only [readVariable, hscopes, hv]
  | _ =>
    have hread : readVariable name m = .ok (m.scopes.get name) m := by simp only [readVariable, hv]
    refine Or.inl (.of_ok hread ?_)
    simp only [readVariable, hscopes, hv]

theorem outlastedBy_assign (name : String) (value : Value) :
    OutlastedBy (assign name value) (assign name value) := by
  intro m limit _
  have hscopes : (m.withLimit limit).scopes = m.scopes := rfl
  cases hset : m.scopes.set? name value with
  | some scopes =>
    have hassign : assign name value m = .ok value { m with scopes } := by simp only [assign, hset]
    refine Or.inl (.of_ok hassign ?_)
    simp only [assign, hscopes, hset]
    rfl
  | none =>
    have hassign : assign name value m = .error (.undeclaredVariable name) m := by
      simp only [assign, hset]
    refine Or.inl (.of_error hassign ?_)
    simp only [assign, hscopes, hset]

theorem outlastedBy_print (text : String) : OutlastedBy (print text) (print text) := fun _ _ _ =>
  Or.inl (.of_ok rfl rfl)

theorem outlastedBy_note (line : String) : OutlastedBy (note line) (note line) := fun _ _ _ =>
  Or.inl (.of_ok rfl rfl)

theorem outlastedBy_declare (name : String) (value : Value) :
    OutlastedBy (declare name value) (declare name value) := by
  intro m limit _
  have hscopes : (m.withLimit limit).scopes = m.scopes := rfl
  cases hcreate : m.scopes.create name value with
  | ok scopes =>
    have hdeclare : declare name value m = .ok value { m with scopes } :=
      bind_of_ok (a := ()) (by simp only [changeScopes, hcreate]) _
    refine Or.inl (.of_ok hdeclare ?_)
    exact bind_of_ok (a := ()) (by simp only [changeScopes, hscopes, hcreate]; rfl) _
  | error fault =>
    have hdeclare : declare name value m = .error (.scopes fault) m :=
      bind_of_error (by simp only [changeScopes, hcreate]) _
    refine Or.inl (.of_error hdeclare ?_)
    exact bind_of_error (by simp only [changeScopes, hscopes, hcreate]) _

/-! ## Scopes and calls -/

theorem OutlastedBy.inScope (h : OutlastedBy p q) (hp : KeepsFrame p) (hq : KeepsFrame q)
    (kind : Scope.Kind) : OutlastedBy (inScope kind p) (inScope kind q) := by
  intro m limit hlimit
  obtain ⟨top, below, hscopes⟩ := hp.exists_cons kind m
  obtain ⟨top', below', hscopes'⟩ := hq.exists_cons kind (m.withLimit limit)
  obtain ⟨hresult, hafter⟩ := inScope_of_cons hscopes
  obtain ⟨hresult', hafter'⟩ := inScope_of_cons hscopes'
  have hin : { m.withLimit limit with scopes := (m.withLimit limit).scopes.enter kind } =
      ({ m with scopes := m.scopes.enter kind } : Machine).withLimit limit := rfl
  rw [hin] at hscopes' hresult' hafter'
  rcases h { m with scopes := m.scopes.enter kind } limit hlimit with
    hagree | ⟨⟨n, name, hrefused⟩, hprints⟩
  · refine Or.inl ⟨?_, ?_⟩
    · rw [hresult, hresult', hagree.result]
    · -- the same scope is left on both sides
      have hbelow : below' = below := by
        have hleft : (q.after (({ m with scopes := m.scopes.enter kind } : Machine).withLimit
            limit)).scopes = top :: below := by
          rw [hagree.after]
          exact hscopes
        rw [hscopes', List.cons.injEq] at hleft
        exact hleft.2
      rw [hafter, hafter', hagree.after, hbelow]
      rfl
  · refine Or.inr ⟨⟨n, name, ?_⟩, ?_⟩
    · rw [hresult, hrefused]
    · rw [hafter, hafter']
      exact hprints

theorem keepsFrame_refuseCall (name : String) : KeepsFrame (refuseCall name) := fun m => .refl m

theorem outlastedBy_refuseCall {q : Run Value} (name : String) (hq : KeepsFrame q) :
    OutlastedBy (refuseCall name) q := fun _ _ _ => Or.inr (.of_refused rfl hq)

/-- A call that one machine refuses and the other opens cuts the first run short. -/
theorem OutlastedBy.inCall {p q : Run Value} (h : OutlastedBy p q) (hp : KeepsFrame p)
    (hq : KeepsFrame q) (name : String) : OutlastedBy (inCall name p) (inCall name q) := by
  intro m limit hlimit
  by_cases hdepth : m.callDepth < m.maxCallDepth
  · have hdepth' : (m.withLimit limit).callDepth < (m.withLimit limit).maxCallDepth :=
      Int.lt_of_lt_of_le hdepth hlimit
    obtain ⟨hresult, hafter⟩ := inCall_of_lt name p hdepth
    obtain ⟨hresult', hafter'⟩ := inCall_of_lt name q hdepth'
    have hin : { m.withLimit limit with callDepth := (m.withLimit limit).callDepth + 1 } =
        ({ m with callDepth := m.callDepth + 1 } : Machine).withLimit limit := rfl
    rw [hin] at hresult' hafter'
    rcases h.inScope hp hq .detached { m with callDepth := m.callDepth + 1 } limit hlimit with
      hagree | ⟨⟨n, refused, hrefused⟩, hprints⟩
    · refine Or.inl ⟨?_, ?_⟩
      · rw [hresult, hresult', hagree.result]
      · rw [hafter, hafter', hagree.after]
        rfl
    · refine Or.inr ⟨⟨n, refused, ?_⟩, ?_⟩
      · rw [hresult, hrefused]
      · rw [hafter, hafter']
        exact hprints
  · exact Or.inr (.of_refused (inCall_of_ge name p (Int.not_lt.mp hdepth)) (hq.inCall name))

/-- Two runs that stay in their frames, of which the second outlasts the first. -/
structure FramedBy (p q : Run α) : Prop where
  first : KeepsFrame p
  second : KeepsFrame q
  outlasted : OutlastedBy p q

theorem callCongruence_framedBy : CallCongruence fun _ p q => FramedBy p q where
  pure a := ⟨keepsFrame_pure a, keepsFrame_pure a, outlastedBy_pure a⟩
  throw fault := ⟨keepsFrame_throw fault, keepsFrame_throw fault, outlastedBy_throw fault⟩
  bind hp hf := ⟨hp.first.bind fun a => (hf a).first, hp.second.bind fun a => (hf a).second,
    hp.outlasted.bind (fun a => (hf a).outlasted) hp.first fun a => (hf a).second⟩
  readVariable name :=
    ⟨keepsFrame_readVariable name, keepsFrame_readVariable name, outlastedBy_readVariable name⟩
  declare name value :=
    ⟨keepsFrame_declare name value, keepsFrame_declare name value, outlastedBy_declare name value⟩
  assign name value :=
    ⟨keepsFrame_assign name value, keepsFrame_assign name value, outlastedBy_assign name value⟩
  inBlock hp :=
    ⟨hp.first.inBlock, hp.second.inBlock, hp.outlasted.inScope hp.first hp.second .nested⟩
  print text := ⟨keepsFrame_print text, keepsFrame_print text, outlastedBy_print text⟩
  note line := ⟨keepsFrame_note line, keepsFrame_note line, outlastedBy_note line⟩
  refuseCall name := ⟨keepsFrame_refuseCall name, keepsFrame_refuseCall name,
    outlastedBy_refuseCall name (keepsFrame_refuseCall name)⟩
  withFunction name f g hf :=
    ⟨fun m => (hf (m.function? name)).first m, fun m => (hf (m.function? name)).second m,
      fun m limit hlimit => outlasted_of_apply_eq (f (m.function? name)) (g (m.function? name))
        rfl rfl ((hf (m.function? name)).outlasted m limit hlimit)⟩
  inCall name _ _ hp :=
    ⟨hp.first.inCall name, hp.second.inCall name, hp.outlasted.inCall hp.first hp.second name⟩

/-- Calls that may go deeper outlast those that may not. -/
theorem framedBy_callUpTo {count count' : Nat} (h : count ≤ count') (name : String)
    (args : List Value) : FramedBy (callUpTo count name args) (callUpTo count' name args) := by
  -- on the smaller count: as long as it lasts, both open the call
  induction count generalizing count' name args with
  | zero =>
    have hkeeps := keepsFrame_callUpTo count' name args
    exact ⟨keepsFrame_callUpTo 0 name args, hkeeps, outlastedBy_refuseCall name hkeeps⟩
  | succ count ih =>
    obtain ⟨less, rfl⟩ : ∃ less, count' = less + 1 := ⟨count' - 1, by omega⟩
    have hinner : ∀ n as, FramedBy (callUpTo count n as) (callUpTo less n as) :=
      fun n as => ih (Nat.le_of_succ_le_succ h) n as
    rw [callUpTo, callUpTo, callWith_eq_inCall, callWith_eq_inCall]
    exact callCongruence_framedBy.inCall name (callCongruence_framedBy.callBody hinner name args)

theorem callsLeft_le_withLimit {m : Machine} {limit : Int} (h : m.maxCallDepth ≤ limit) :
    m.callsLeft ≤ (m.withLimit limit).callsLeft := by
  show (m.maxCallDepth - m.callDepth).toNat ≤ (limit - m.callDepth).toNat
  omega

theorem outlastedBy_call (name : String) (args : List Value) :
    OutlastedBy (call name args) (call name args) := by
  intro m limit hlimit
  have hcount : m.callsLeft + 1 ≤ (m.withLimit limit).callsLeft + 1 :=
    Nat.succ_le_succ (callsLeft_le_withLimit hlimit)
  exact outlasted_of_apply_eq _ _ (withCalls_apply _ m) (withCalls_apply _ (m.withLimit limit))
    ((framedBy_callUpTo hcount name args).outlasted m limit hlimit)

/-! ## Whole programs -/

/-- A program that defines a function twice is not run. -/
theorem interpret_of_repeated {program : Program} {name : String}
    (h : firstRepeated? [] (program.map Function.name) = some name) (m : Machine) :
    interpret program m = .error (.redefinedFunction name) m := by
  refine bind_of_error ?_ _
  rw [load, h]
  rfl

/-- What a program finds when its `main` is called. -/
def loaded (program : Program) (m : Machine) : Machine :=
  let names := program.map Function.name
  { m with
    functions := program
    log := (m.log.push (s!"loaded {names.length} function(s): " ++ ", ".intercalate names)).push
      ("running " ++ mainName) }

theorem interpret_of_distinct {program : Program}
    (h : firstRepeated? [] (program.map Function.name) = none) (m : Machine) :
    interpret program m = call mainName [] (loaded program m) := by
  have hload : load program m = note (s!"loaded {(program.map Function.name).length} function(s): "
      ++ ", ".intercalate (program.map Function.name)) { m with functions := program } := by
    rw [load, h]
    rfl
  rw [interpret, bind_of_ok hload]
  rfl

theorem outlastedBy_interpret (program : Program) :
    OutlastedBy (interpret program) (interpret program) := by
  intro m limit hlimit
  cases hnames : firstRepeated? [] (program.map Function.name) with
  | some name =>
    exact Or.inl (.of_error (interpret_of_repeated hnames m) (interpret_of_repeated hnames _))
  | none =>
    exact outlasted_of_apply_eq _ _ (interpret_of_distinct hnames m)
      (interpret_of_distinct hnames (m.withLimit limit))
      (outlastedBy_call mainName [] (loaded program m) limit hlimit)

end Run

namespace Outcome

/-- The outcome of a run that ended in a value. -/
theorem ofRun_of_ok {limit : Int} {program : Program} {prints : Array String} {value : Value}
    {left : Machine}
    (h : Run.interpret program { maxCallDepth := limit, prints } = .ok value left) :
    ofRun limit program prints = ⟨.ok value, left.prints, left.log⟩ := by
  rw [ofRun, Run.interpretLogged, h]

/-- A fault is only added to the log. -/
theorem ofRun_of_error {limit : Int} {program : Program} {prints : Array String}
    {fault : Fault} {left : Machine}
    (h : Run.interpret program { maxCallDepth := limit, prints } = .error fault left) :
    ofRun limit program prints = ⟨.error (.running fault), left.prints,
      if fault.isOfProgram then left.log.push ("program failed: " ++ fault.message)
      else left.log⟩ := by
  rw [ofRun, Run.interpretLogged, h]
  cases hown : fault.isOfProgram <;> simp [hown]

/-- A run that ends with the same result and the same machine, limits apart, has the same
outcome. -/
theorem ofRun_eq_of_agree {d d' : Int} {program : Program} {prints : Array String}
    (h : Run.Agree (Run.interpret program) (Run.interpret program) { maxCallDepth := d, prints }
      d') : ofRun d' program prints = ofRun d program prints := by
  cases hrun : Run.interpret program { maxCallDepth := d, prints } with
  | ok value left =>
    rw [ofRun_of_ok hrun, ofRun_of_ok (h.apply_of_ok hrun)]
    rfl
  | error fault left =>
    rw [ofRun_of_error hrun, ofRun_of_error (h.apply_of_error hrun)]
    rfl

theorem prints_ofRun (d : Int) (program : Program) (prints : Array String) :
    (ofRun d program prints).prints =
      ((Run.interpret program).after { maxCallDepth := d, prints }).prints := by
  cases hrun : Run.interpret program { maxCallDepth := d, prints } with
  | ok value left => rw [ofRun_of_ok hrun, Run.after_of_ok hrun]
  | error fault left => rw [ofRun_of_error hrun, Run.after_of_error hrun]

theorem result_ofRun (d : Int) (program : Program) (prints : Array String) :
    (ofRun d program prints).result =
      ((Run.interpret program).result { maxCallDepth := d, prints }).mapError .running := by
  cases hrun : Run.interpret program { maxCallDepth := d, prints } with
  | ok value left => rw [ofRun_of_ok hrun, Run.result_of_ok hrun]; rfl
  | error fault left => rw [ofRun_of_error hrun, Run.result_of_error hrun]; rfl

/-- A call was refused because as many were open as the program is allowed. -/
def RefusedCall (o : Outcome) : Prop :=
  ∃ limit name, o.result = .error (.running (.callDepth limit name))

/-- A run with a higher limit comes to the same, or the first one was refused a call and the other
prints more. -/
theorem ofRun_outlasted (program : Program) (prints : Array String) {d d' : Int} (h : d ≤ d') :
    ofRun d' program prints = ofRun d program prints ∨
    (ofRun d program prints).RefusedCall ∧
      ∃ text, (ofRun d' program prints).output = (ofRun d program prints).output ++ text := by
  rcases Run.outlastedBy_interpret program { maxCallDepth := d, prints } d' h with
    hagree | ⟨⟨limit, name, hrefused⟩, pieces, hprints⟩
  · exact Or.inl (ofRun_eq_of_agree hagree)
  · refine Or.inr ⟨⟨limit, name, ?_⟩, String.join pieces.toList, ?_⟩
    · rw [result_ofRun, hrefused]
      rfl
    · have hmore : (ofRun d' program prints).prints =
          (ofRun d program prints).prints ++ pieces := by
        rw [prints_ofRun, prints_ofRun]
        exact hprints
      rw [output, output, hmore, Array.toList_append, String.join_append]

end Outcome

open Settings in
/-- **A higher limit changes nothing in a run that fits, if the host takes it.**  Unless the host
takes the lower limit and not the higher one, this is so: a program that runs without being refused
a call comes to the same where more calls are allowed, the same value or the same fault, the same
printed pieces and the same log; and if it is refused one, what it had printed is the beginning of
what it prints where more calls are allowed.  With a limit that the host does not take, nothing is
run and the host's refusal is the failure. -/
theorem ofProgram_outlasted_under_higher_limit (program : Program) (prints : Array String)
    {d d' : Int} (h : d ≤ d') :
    ((HostLimit.Takes d → HostLimit.Takes d') →
      (¬(Outcome.ofProgram d program prints).RefusedCall →
        Outcome.ofProgram d' program prints = Outcome.ofProgram d program prints) ∧
      ((Outcome.ofProgram d program prints).RefusedCall →
        ∃ text, (Outcome.ofProgram d' program prints).output =
          (Outcome.ofProgram d program prints).output ++ text)) ∧
    (¬HostLimit.Takes d' →
      Outcome.ofProgram d' program prints = ⟨.error .hostLimit, prints, #[]⟩) := by
  refine ⟨fun htakes => ?_, fun hrefuses => Outcome.ofProgram_of_not_takes hrefuses program prints⟩
  have hcases : Outcome.ofProgram d' program prints = Outcome.ofProgram d program prints ∨
      (Outcome.ofProgram d program prints).RefusedCall ∧
        ∃ text, (Outcome.ofProgram d' program prints).output =
          (Outcome.ofProgram d program prints).output ++ text := by
    by_cases hd : HostLimit.Takes d
    · rw [Outcome.ofProgram_of_takes hd, Outcome.ofProgram_of_takes (htakes hd)]
      exact Outcome.ofRun_outlasted program prints h
    · have hd' : ¬HostLimit.Takes d' := fun htaken => hd (htaken.mono h)
      rw [Outcome.ofProgram_of_not_takes hd, Outcome.ofProgram_of_not_takes hd']
      exact Or.inl rfl
  rcases hcases with hsame | ⟨hrefused, hmore⟩
  · refine ⟨fun _ => hsame, fun _ => ⟨"", ?_⟩⟩
    rw [hsame, String.append_empty]
  · exact ⟨fun hfits => absurd hrefused hfits, fun _ => hmore⟩

/-- A program whose `main` prints a line and calls `main`. -/
def echoProgram : Program :=
  [⟨"main", [], [.call "print" [.lit (.string "again")], .call "main" []]⟩]

/-- A program whose `main` prints a line. -/
def sayProgram : Program :=
  [⟨"main", [], [.call "print" [.lit (.string "once")]]⟩]

theorem sayProgram_fits_and_echoProgram_does_not :
    (Settings.HostLimit.Takes 4 ∧ Settings.HostLimit.Takes 7) ∧
    ((Outcome.ofProgram 2 sayProgram #[]).result = .ok .unit ∧
      Outcome.ofProgram 7 sayProgram #[] = Outcome.ofProgram 2 sayProgram #[]) ∧
    (Outcome.ofProgram 2 echoProgram #[]).result = .error (.running (.callDepth 2 "print")) ∧
      ∃ text, (Outcome.ofProgram 4 echoProgram #[]).output =
        (Outcome.ofProgram 2 echoProgram #[]).output ++ text := by
  have htakes : Settings.HostLimit.Takes 4 ∧ Settings.HostLimit.Takes 7 := by decide
  have hfits : (Outcome.ofProgram 2 sayProgram #[]).result = .ok .unit := by decide +kernel
  have hrefused : (Outcome.ofProgram 2 echoProgram #[]).result =
      .error (.running (.callDepth 2 "print")) := by decide +kernel
  have hsay := ofProgram_outlasted_under_higher_limit sayProgram #[] (by decide : (2 : Int) ≤ 7)
  have hecho := ofProgram_outlasted_under_higher_limit echoProgram #[] (by decide : (2 : Int) ≤ 4)
  refine ⟨htakes, ⟨hfits, ?_⟩, hrefused, ?_⟩
  · refine (hsay.1 fun _ => htakes.2).1 ?_
    rintro ⟨limit, name, hcall⟩
    rw [hfits] at hcall
    cases hcall
  · exact (hecho.1 fun _ => htakes.1).2 ⟨2, "print", hrefused⟩

/-- Where the host does not take the higher limit, a program that fits comes to something else. -/
theorem sayProgram_is_not_run_under_too_high_limit :
    ¬(Outcome.ofProgram 2 sayProgram #[]).RefusedCall ∧
    (Outcome.ofProgram 2 sayProgram #[]).result = .ok .unit ∧
    (Outcome.ofProgram 2 sayProgram #[]).output = "once\n" ∧
    (Outcome.ofProgram 85899306 sayProgram #[]).result = .error .hostLimit ∧
    (Outcome.ofProgram 85899306 sayProgram #[]).output = "" := by
  have hfits : (Outcome.ofProgram 2 sayProgram #[]).result = .ok .unit := by decide +kernel
  refine ⟨?_, hfits, by decide +kernel, by decide +kernel, by decide +kernel⟩
  rintro ⟨limit, name, hcall⟩
  rw [hfits] at hcall
  cases hcall

end Scriptlet
