import Scriptlet.Diagnostic
import Scriptlet.Proofs.Completeness
import Scriptlet.Proofs.Equations

/-!
# A negative integer behind a term

`n-1` is scanned as a name and a negative integer, and is read as a sum: what is added to `n` is the
term that the integer begins.  With a blank behind the sign it is a subtraction.  So `n-2*x` adds
the product of `-2` and `x`, where `n - 2*x` subtracts the product of `2` and `x`.

The two are the same because the sign can be moved through a chain of factors.  Multiplication,
division toward zero and the remainder that goes with it all commute with negation in their left
operand (`Operator.exactResult?_neg`); the operands on the right are evaluated in the same order and
the same machine on both sides, whatever they do there.  The range of integers is the one thing that
is not symmetric.  It holds `-2^63` and not `2^63`, so that the two sides can part where an exact
result along the chain has that magnitude, and nowhere else (`Operator.checked_neg`).

`Run.evalChain` is the evaluation of a chain, and `Run.exactResults` the results along it before
they are checked.  The lemma that carries the induction is `Run.evalChain_opposite`: from opposite
integers a chain comes to opposite integers, or fails on both sides in the same way.
-/

namespace Scriptlet

/-! ## Exact results -/

namespace Operator

variable {op : Operator} {a b r : Int}

/-- The exact result of an operator of a term, if there is one. -/
def exactResult? (op : Operator) (a b : Int) : Option Int :=
  match op with
  | .mul => some (a * b)
  | .div => if b = 0 then none else some (a.tdiv b)
  | .mod => if b = 0 then none else some (a.tmod b)
  | _ => none

/-- Negation can be moved out of the left operand. -/
theorem exactResult?_neg (op : Operator) (a b : Int) :
    op.exactResult? (-a) b = (op.exactResult? a b).map (- ·) := by
  cases op with
  | mul => exact congrArg some (Int.neg_mul a b)
  | div => by_cases hb : b = 0 <;> simp [exactResult?, hb, Int.neg_tdiv]
  | mod => by_cases hb : b = 0 <;> simp [exactResult?, hb, Int.neg_tmod]
  | _ => rfl

/-- The result on integers is the exact one, checked. -/
theorem apply_of_exactResult? (h : op.exactResult? a b = some r) :
    op.apply (.int a) (.int b) = checked op r := by
  cases op with
  | mul =>
    obtain rfl : a * b = r := by simpa [exactResult?] using h
    rfl
  | div =>
    by_cases hb : b = 0
    · simp [exactResult?, hb] at h
    · obtain rfl : a.tdiv b = r := by simpa [exactResult?, hb] using h
      rw [apply, onInts, quotient_of_ne_zero a hb]
      rfl
  | mod =>
    by_cases hb : b = 0
    · simp [exactResult?, hb] at h
    · obtain rfl : a.tmod b = r := by simpa [exactResult?, hb] using h
      rw [apply, onInts, remainder_of_ne_zero a hb]
      rfl
  | _ => cases h

/-- Only zero has no exact result. -/
theorem apply_of_exactResult?_eq_none (hop : op.level = .term)
    (h : op.exactResult? a b = none) :
    ∃ fault, op.apply (.int a) (.int b) = .error fault ∧ fault.kind = .zeroDivision := by
  cases op with
  | mul => cases h
  | div =>
    obtain rfl : b = 0 := by
      by_contra hb
      simp [exactResult?, hb] at h
    exact ⟨.divisionByZero, rfl, rfl⟩
  | mod =>
    obtain rfl : b = 0 := by
      by_contra hb
      simp [exactResult?, hb] at h
    exact ⟨.moduloByZero, rfl, rfl⟩
  | _ => cases hop

/-- Apart from one magnitude, an integer is in range when its opposite is. -/
theorem inRange_neg (h : r.natAbs ≠ 9223372036854775808) :
    Word64.InRange (-r) ↔ Word64.InRange r := by
  unfold Word64.InRange
  omega

/-- Opposite results, but for that magnitude, are both in range or both overflow. -/
theorem checked_neg (op : Operator) (h : r.natAbs ≠ 9223372036854775808) :
    (checked op (-r) = .ok (.int (-r)) ∧ checked op r = .ok (.int r) ∧ Word64.InRange r) ∨
    (checked op (-r) = .error (.overflow op) ∧ checked op r = .error (.overflow op)) := by
  by_cases hr : Word64.InRange r
  · exact Or.inl ⟨if_pos ((inRange_neg h).mpr hr), if_pos hr, hr⟩
  · exact Or.inr ⟨if_neg fun hneg => hr ((inRange_neg h).mp hneg), if_neg hr⟩

theorem apply_of_ne_int (hop : op.level = .term) (left : Value) {right : Value}
    (h : ∀ k, right ≠ .int k) : op.apply left right = .error (.operands op left right) := by
  refine apply_of_not_ints ?_ ?_ fun ⟨_, k, _, hright⟩ => h k hright
  · rintro rfl
    cases hop
  · rintro rfl
    cases hop

/-- One operator of a term, from opposite integers: the results are opposite, or both sides fail in
the same way. -/
theorem apply_neg (hop : op.level = .term) (n : Int) (right : Value)
    (h : ∀ k r, right = .int k → op.exactResult? n k = some r → r.natAbs ≠ 9223372036854775808) :
    (∃ k r, right = .int k ∧ op.exactResult? n k = some r ∧ Word64.InRange r ∧
      op.apply (.int (-n)) right = .ok (.int (-r)) ∧ op.apply (.int n) right = .ok (.int r)) ∨
    ∃ fault fault', op.apply (.int (-n)) right = .error fault ∧
      op.apply (.int n) right = .error fault' ∧ fault.kind = fault'.kind := by
  by_cases hint : ∃ k, right = .int k
  · obtain ⟨k, rfl⟩ := hint
    cases hexact : op.exactResult? n k with
    | none =>
      have hexact' : op.exactResult? (-n) k = none := by rw [exactResult?_neg, hexact]; rfl
      obtain ⟨fault, happly, hkind⟩ := apply_of_exactResult?_eq_none hop hexact'
      obtain ⟨fault', happly', hkind'⟩ := apply_of_exactResult?_eq_none hop hexact
      exact Or.inr ⟨fault, fault', happly, happly', hkind.trans hkind'.symm⟩
    | some r =>
      have hexact' : op.exactResult? (-n) k = some (-r) := by rw [exactResult?_neg, hexact]; rfl
      rw [apply_of_exactResult? hexact, apply_of_exactResult? hexact']
      rcases op.checked_neg (h k r rfl hexact) with ⟨hneg, hpos, hrange⟩ | ⟨hneg, hpos⟩
      · exact Or.inl ⟨k, r, rfl, hexact, hrange, hneg, hpos⟩
      · exact Or.inr ⟨_, _, hneg, hpos, rfl⟩
  · have hne := not_exists.mp hint
    exact Or.inr ⟨_, _, apply_of_ne_int hop _ hne, apply_of_ne_int hop _ hne, rfl⟩

end Operator

/-! ## Chains of factors -/

namespace Run

/-- Two runs that end in the same machine, with the same value or with faults of the same kind. -/
inductive EndsAlike : EStateM.Result Fault Machine Value → EStateM.Result Fault Machine Value → Prop
  | ok (value : Value) (m : Machine) : EndsAlike (.ok value m) (.ok value m)
  | error {fault fault' : Fault} (m : Machine) : fault.kind = fault'.kind →
    EndsAlike (.error fault m) (.error fault' m)

/-- Two runs that end in the same machine, with opposite integers or faults of the same kind. -/
inductive EndsOpposite :
    EStateM.Result Fault Machine Value → EStateM.Result Fault Machine Value → Prop
  | ok (n : Int) (m : Machine) : EndsOpposite (.ok (.int (-n)) m) (.ok (.int n) m)
  | error {fault fault' : Fault} (m : Machine) : fault.kind = fault'.kind →
    EndsOpposite (.error fault m) (.error fault' m)

/-- Applies the operators of a chain to a value, from the left, evaluating each operand before. -/
def evalChain : Value → List (Operator × Expr) → Run Value
  | value, [] => pure value
  | value, (op, operand) :: chain => do
    let right ← eval operand
    let value' ← ofOperator (op.apply value right)
    evalChain value' chain

/-- A chain is evaluated from the left. -/
theorem eval_applyChain (first : Expr) (chain : List (Operator × Expr)) :
    eval (Parser.applyChain first chain) = eval first >>= fun value => evalChain value chain := by
  induction chain generalizing first with
  | nil => exact (bind_pure (eval first)).symm
  | cons factor chain ih =>
    obtain ⟨op, operand⟩ := factor
    show eval (Parser.applyChain (.binary op first operand) chain) = _
    rw [ih, eval_eq_evalParts (.binary op first operand), evalParts]
    simp only [bind_assoc, evalChain]

/-- The exact results along a chain that starts from an integer, as far as it gets: until an operand
fails or is no integer, or a result does not exist or is out of range. -/
def exactResults (m : Machine) (n : Int) : List (Operator × Expr) → List Int
  | [] => []
  | (op, operand) :: chain =>
    match eval operand m with
    | .ok (.int k) left =>
      match op.exactResult? n k with
      | some r => r :: (if Word64.InRange r then exactResults left r chain else [])
      | none => []
    | _ => []

/-- **The sign moves through a chain of factors.**  From opposite integers it comes to opposite
integers, or it fails in the same way, unless an exact result is `2^63` or its opposite. -/
theorem evalChain_opposite {chain : List (Operator × Expr)} {n : Int} {m : Machine}
    (hchain : ∀ factor ∈ chain, factor.1.level = .term)
    (hresults : ∀ r ∈ exactResults m n chain, r.natAbs ≠ 9223372036854775808) :
    EndsOpposite (evalChain (.int (-n)) chain m) (evalChain (.int n) chain m) := by
  induction chain generalizing n m with
  | nil => exact .ok n m
  | cons factor chain ih =>
    obtain ⟨op, operand⟩ := factor
    have hop : op.level = .term := hchain _ List.mem_cons_self
    rw [evalChain, evalChain]
    cases hoperand : eval operand m with
    | error fault left =>
      rw [bind_of_error hoperand, bind_of_error hoperand]
      exact .error left rfl
    | ok right left =>
      rw [bind_of_ok hoperand, bind_of_ok hoperand]
      have hfirst : ∀ k r, right = .int k → op.exactResult? n k = some r →
          exactResults m n ((op, operand) :: chain) =
            r :: (if Word64.InRange r then exactResults left r chain else []) := by
        rintro k r rfl hexact
        rw [exactResults, hoperand]
        simp only [hexact]
      -- the operand has come to the same value in the same machine on both sides
      rcases Operator.apply_neg hop n right fun k r hright hexact =>
        hresults r (hfirst k r hright hexact ▸ List.mem_cons_self) with
        ⟨k, r, hright, hexact, hrange, hneg, hpos⟩ | ⟨fault, fault', hneg, hpos, hkind⟩
      · rw [hneg, hpos]
        rw [hfirst k r hright hexact, if_pos hrange] at hresults
        exact ih (fun factor hfactor => hchain factor (List.mem_cons_of_mem _ hfactor))
          fun r' hr' => hresults r' (List.mem_cons_of_mem _ hr')
      · rw [hneg, hpos]
        exact .error left hkind

/-- Adding the opposite is subtracting, whatever is on the left. -/
theorem endsAlike_add_sub (left : Value) (n : Int) (m : Machine) :
    EndsAlike (ofOperator (Operator.apply .add left (.int (-n))) m)
      (ofOperator (Operator.apply .sub left (.int n)) m) := by
  cases left with
  | int a =>
    rw [Operator.apply, Operator.apply, Operator.onInts, Operator.onInts, ← Int.sub_eq_add_neg,
      Operator.checked, Operator.checked]
    by_cases hrange : Word64.InRange (a - n)
    · rw [if_pos hrange, if_pos hrange]
      exact .ok _ m
    · rw [if_neg hrange, if_neg hrange]
      exact .error m rfl
  | string | bool | tuple | absent => exact .error m rfl

/-- A sum with the opposite chain is the difference. -/
theorem endsAlike_negated (e : Expr) {chain : List (Operator × Expr)} {d : Int} {m : Machine}
    (hchain : ∀ factor ∈ chain, factor.1.level = .term)
    (hresults : ∀ left m', eval e m = .ok left m' →
      ∀ r ∈ exactResults m' d chain, r.natAbs ≠ 9223372036854775808) :
    EndsAlike (eval (.binary .add e (Parser.applyChain (.lit (.int (-d))) chain)) m)
      (eval (.binary .sub e (Parser.applyChain (.lit (.int d)) chain)) m) := by
  -- the literal touches nothing, so that the chain starts where `e` has left the machine
  have hlit : ∀ n : Int, eval (Parser.applyChain (.lit (.int n)) chain) =
      evalChain (.int n) chain := fun n => eval_applyChain (.lit (.int n)) chain
  rw [eval_eq_evalParts (.binary .add _ _), eval_eq_evalParts (.binary .sub _ _), evalParts,
    evalParts, hlit, hlit]
  cases he : eval e m with
  | error fault m' =>
    rw [bind_of_error he, bind_of_error he]
    exact .error m' rfl
  | ok left m' =>
    rw [bind_of_ok he, bind_of_ok he]
    have hopposite := evalChain_opposite hchain (hresults left m' he)
    generalize hneg : evalChain (.int (-d)) chain m' = x, hpos : evalChain (.int d) chain m' = y
      at hopposite
    cases hopposite with
    | ok n m'' =>
      rw [bind_of_ok hneg, bind_of_ok hpos]
      exact endsAlike_add_sub left n m''
    | error m'' hkind =>
      rw [bind_of_error hneg, bind_of_error hpos]
      exact .error m'' hkind

end Run

/-! ## Reading -/

namespace Grammar

variable {ts us vs : List Token} {chain : List (Operator × Expr)} {e e' : Expr} {d : Int}

/-- Operators of a term with their operands, as they stand behind a first factor. -/
inductive Factors : List Token → List (Operator × Expr) → Prop
  | nil : Factors [] []
  | cons (op : Operator) {ts us : List Token} {operand : Expr} {chain : List (Operator × Expr)} :
    op.level = .term → Derives .unary ts operand → Factors us chain →
    Factors (.mark op.mark :: (ts ++ us)) ((op, operand) :: chain)

theorem Factors.derives (h : Factors us chain) (first : Expr) :
    Derives (.termRest first) us (Parser.applyChain first chain) := by
  induction h generalizing first with
  | nil => exact ⟨.termEnd⟩
  | @cons op _ _ operand _ hop hoperand _ ih =>
    obtain ⟨doperand⟩ := hoperand
    obtain ⟨drest⟩ := ih (.binary op first operand)
    exact ⟨.factor op hop doperand drest⟩

/-- Behind what goes on with a sum, the sum may go on once more. -/
theorem Derivation.sumRest_append {l e : Expr} {us : List Token}
    (dsum : Derivation (.sumRest l) us e) (hrest : Derives (.sumRest e) vs e') :
    Derives (.sumRest l) (us ++ vs) e' := by
  match dsum with
  | .sumEnd => exact hrest
  | .sign op hop dterm dmore =>
    obtain ⟨d⟩ := dmore.sumRest_append hrest
    rw [List.cons_append, List.append_assoc]
    exact ⟨.sign op hop dterm d⟩
  | .negative n hn dterm dmore =>
    obtain ⟨d⟩ := dmore.sumRest_append hrest
    rw [List.cons_append, List.append_assoc]
    exact ⟨.negative n hn dterm d⟩
termination_by us.length
decreasing_by all_goals simp only [List.length_cons, List.length_append]; omega

theorem Derives.sum_append (h : Derives .sum ts e) (hrest : Derives (.sumRest e) us e') :
    Derives .sum (ts ++ us) e' := by
  obtain ⟨dsum⟩ := h
  cases dsum with
  | sum dterm dsum =>
    obtain ⟨d⟩ := dsum.sumRest_append hrest
    rw [List.append_assoc]
    exact ⟨.sum dterm d⟩

/-- A negative integer and factors behind a sum are added to it. -/
theorem Factors.sum_negative (h : Factors us chain) (hsum : Derives .sum ts e) (hd : 0 < d) :
    Derives .sum (ts ++ .int (-d) :: us)
      (.binary .add e (Parser.applyChain (.lit (.int (-d))) chain)) := by
  obtain ⟨dterm⟩ := h.derives (.lit (.int (-d)))
  have drest := Derivation.negative (l := e) (-d) (by omega) dterm .sumEnd
  rw [List.append_nil] at drest
  exact hsum.sum_append ⟨drest⟩

/-- An integer and factors behind a minus sign are subtracted. -/
theorem Factors.sum_minus (h : Factors us chain) (hsum : Derives .sum ts e) (d : Int) :
    Derives .sum (ts ++ .mark .minus :: .int d :: us)
      (.binary .sub e (Parser.applyChain (.lit (.int d)) chain)) := by
  obtain ⟨dterm⟩ := h.derives (.lit (.int d))
  have drest := Derivation.sign (l := e) .sub rfl (.term (.plainPrimary (.int d)) dterm) .sumEnd
  rw [List.append_nil] at drest
  exact hsum.sum_append ⟨drest⟩

end Grammar

namespace Parser

open Grammar

variable {ts us : List Token} {e : Expr} {chain : List (Operator × Expr)} {d : Int}

/-- The rule of sums reads the tokens as that tree, and leaves whatever stands behind them that does
not go on with a sum.  It can fail only for a budget that is too small for so many tokens. -/
def ReadsSum (ts : List Token) (e : Expr) : Prop :=
  ∀ n rest, Closes 3 rest → Gives (n < 10 * ts.length + 4) (sum n) (ts ++ rest) e rest

theorem readsSum_of_derives (h : Derives .sum ts e) : ReadsSum ts e := by
  obtain ⟨dsum⟩ := h
  intro n rest hrest
  have henough : Enough (n < 10 * ts.length + 4) (10 * ts.length + 4) n :=
    (Nat.lt_or_ge n (10 * ts.length + 4)).symm
  exact completes _ dsum n henough rest hrest

/-- **Reading a negative integer as a subtraction preserves meaning.**  Behind a sum `e` the integer
`-d` and the factors of `chain` are read as an addition; with a blank behind the sign they are read
as a subtraction.  From every machine the two trees come to the same value and machine, or fail with
the same kind of fault in the same machine, unless an exact result along the chain is `2^63` or its
opposite. -/
theorem negative_integer_subtracts {d : Int} (hd : 0 < d) (e : Expr)
    {chain : List (Operator × Expr)} (hchain : ∀ factor ∈ chain, factor.1.level = .term) :
    (∀ ts us, Derives .sum ts e → Factors us chain →
      ReadsSum (ts ++ .int (-d) :: us) (.binary .add e (applyChain (.lit (.int (-d))) chain)) ∧
      ReadsSum (ts ++ .mark .minus :: .int d :: us)
        (.binary .sub e (applyChain (.lit (.int d)) chain))) ∧
    ∀ m : Machine,
      (∀ left m', Run.eval e m = .ok left m' →
        ∀ r ∈ Run.exactResults m' d chain, r.natAbs ≠ 9223372036854775808) →
      Run.EndsAlike (Run.eval (.binary .add e (applyChain (.lit (.int (-d))) chain)) m)
        (Run.eval (.binary .sub e (applyChain (.lit (.int d)) chain)) m) := by
  refine ⟨fun ts us hsum hfactors => ⟨?_, ?_⟩, fun m hresults => ?_⟩
  · exact readsSum_of_derives (hfactors.sum_negative hsum hd)
  · exact readsSum_of_derives (hfactors.sum_minus hsum d)
  · exact Run.endsAlike_negated e hchain hresults

/-- What stands behind the `7` in `n-7*n%4`. -/
def remainderFactors : List (Operator × Expr) := [(.mul, .name "n"), (.mod, .lit (.int 4))]

/-- A machine where `n` is `3`. -/
def machineOfThree : Machine where
  scopes := [{ kind := .detached, bindings := [("n", .int 3)] }]
  maxCallDepth := 9

theorem remainder_of_seven_is_subtracted :
    ReadsSum [.name "n", .int (-7), .mark .star, .name "n", .mark .percent, .int 4]
      (.binary .add (.name "n") (applyChain (.lit (.int (-7))) remainderFactors)) ∧
    ReadsSum [.name "n", .mark .minus, .int 7, .mark .star, .name "n", .mark .percent, .int 4]
      (.binary .sub (.name "n") (applyChain (.lit (.int 7)) remainderFactors)) ∧
    Run.exactResults machineOfThree 7 remainderFactors = [21, 1] ∧
    Run.EndsAlike
      (Run.eval (.binary .add (.name "n") (applyChain (.lit (.int (-7))) remainderFactors))
        machineOfThree)
      (Run.eval (.binary .sub (.name "n") (applyChain (.lit (.int 7)) remainderFactors))
        machineOfThree) ∧
    Run.eval (.binary .sub (.name "n") (applyChain (.lit (.int 7)) remainderFactors))
      machineOfThree = .ok (.int 2) machineOfThree := by
  have hchain : ∀ factor ∈ remainderFactors, factor.1.level = .term := by decide
  have hsum : Derives .sum [.name "n"] (.name "n") :=
    ⟨.sum (.term (.plainPrimary (.name "n")) .termEnd) .sumEnd⟩
  have hfactors : Factors [.mark .star, .name "n", .mark .percent, .int 4] remainderFactors :=
    .cons .mul rfl ⟨.plainPrimary (.name "n")⟩ (.cons .mod rfl ⟨.plainPrimary (.int 4)⟩ .nil)
  have hexact : Run.exactResults machineOfThree 7 remainderFactors = [21, 1] := by rfl
  obtain ⟨hreads, hruns⟩ := negative_integer_subtracts (d := 7) (by decide) (.name "n") hchain
  refine ⟨(hreads _ _ hsum hfactors).1, (hreads _ _ hsum hfactors).2, hexact, ?_, by rfl⟩
  refine hruns machineOfThree fun left m' hleft => ?_
  obtain rfl : machineOfThree = m' := by
    have hread : Run.eval (.name "n") machineOfThree = .ok (.int 3) machineOfThree := by rfl
    exact (EStateM.Result.ok.inj (hread.symm.trans hleft)).2
  rw [hexact]
  decide

-- the one exception: the product is in range below zero only
example :
    Run.eval (.binary .add (.name "n") (applyChain (.lit (.int (-4611686018427387904)))
      [(.mul, .lit (.int 2))])) machineOfThree = .ok (.int (-9223372036854775805)) machineOfThree ∧
    Run.eval (.binary .sub (.name "n") (applyChain (.lit (.int 4611686018427387904))
      [(.mul, .lit (.int 2))])) machineOfThree =
        .error (.operator (.overflow .mul)) machineOfThree :=
  ⟨rfl, rfl⟩

end Parser

end Scriptlet
