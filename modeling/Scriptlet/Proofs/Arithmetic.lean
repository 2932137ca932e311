import Scriptlet.Diagnostic
import Scriptlet.Proofs.Grammar

/-!
# Exact results, or none

An operator of arithmetic never rounds, wraps or saturates.  It gives the exact result or it fails,
and how it fails tells why: the exact result is out of range, or there is none because the divisor
is zero.

What the exact result is is said here without the operations that compute it.  For sums and
products that is the integers' own business.  For division it is the pair of a quotient and a
remainder, `DividesTo a b q r`: the remainder is smaller than the divisor, and where it is not zero
it has the sign of the dividend.  There is exactly one such pair (`DividesTo.eq_tdiv`), and
`Exact op a b n` says that `n` is the exact result of `op` on `a` and `b`.

The quotient is computed from the magnitudes of both operands, rounded down and given a sign, and
the remainder from the quotient.  So a wrong sign would spoil both; that it is the right one in all
four cases is `truncDiv_eq_tdiv`.

The range is not symmetric, and that matters in one place.  A quotient is no larger than the
dividend, so it leaves the range only for the lowest dividend and the divisor `-1`, where it would
be `2^63`.  A remainder is no larger than the dividend either, and it has the dividend's sign.
-/

namespace Scriptlet
namespace Operator

variable {op : Operator} {a b n q r q' r' : Int}

/-! ## Division toward zero -/

/-- `q` and `r` are the quotient and the remainder of a division toward zero. -/
structure DividesTo (a b q r : Int) : Prop where
  eq : a = q * b + r
  natAbs_lt : r.natAbs < b.natAbs
  sign : r = 0 ∨ r.sign = a.sign

theorem DividesTo.ne_zero (h : DividesTo a b q r) : b ≠ 0 := by
  rintro rfl
  exact absurd h.natAbs_lt (Nat.not_lt_zero _)

theorem dividesTo_tdiv (a : Int) (hb : b ≠ 0) : DividesTo a b (a.tdiv b) (a.tmod b) where
  eq := by rw [Int.mul_comm, Int.mul_tdiv_add_tmod]
  natAbs_lt := by
    rw [Int.natAbs_tmod]
    exact Nat.mod_lt _ (Int.natAbs_pos.mpr hb)
  sign := by
    by_cases hdvd : b ∣ a
    · exact Or.inl (Int.tmod_eq_zero_of_dvd hdvd)
    · exact Or.inr (by rw [Int.sign_tmod, if_neg hdvd])

/-- The remainder lies on the dividend's side of zero. -/
theorem DividesTo.side (h : DividesTo a b q r) : (0 ≤ a → 0 ≤ r) ∧ (a ≤ 0 → r ≤ 0) := by
  rcases h.sign with rfl | hsign
  · exact ⟨fun _ => Int.le_refl 0, fun _ => Int.le_refl 0⟩
  · refine ⟨fun ha => ?_, fun ha => ?_⟩
    · rw [← Int.sign_nonneg_iff, hsign]
      exact Int.sign_nonneg_iff.mpr ha
    · rw [← Int.sign_nonpos_iff, hsign]
      exact Int.sign_nonpos_iff.mpr ha

/-- Two remainders on the same side of zero differ by less than the divisor, and their difference
is a multiple of it. -/
theorem DividesTo.unique (h : DividesTo a b q r) (h' : DividesTo a b q' r') : q = q' ∧ r = r' := by
  have hmultiple : r - r' = b * (q' - q) := by
    have heq := h.eq.symm.trans h'.eq
    rw [Int.mul_sub, Int.mul_comm b, Int.mul_comm b]
    omega
  have hless : (r - r').natAbs < b.natAbs := by
    have hside := h.side
    have hside' := h'.side
    have hlt := h.natAbs_lt
    have hlt' := h'.natAbs_lt
    omega
  have hzero : r - r' = 0 :=
    Int.eq_zero_of_dvd_of_natAbs_lt_natAbs ⟨q' - q, hmultiple⟩ hless
  rw [hzero, eq_comm, Int.mul_eq_zero] at hmultiple
  have hq := hmultiple.resolve_left h.ne_zero
  exact ⟨by omega, by omega⟩

theorem DividesTo.eq_tdiv (h : DividesTo a b q r) : q = a.tdiv b ∧ r = a.tmod b :=
  h.unique (dividesTo_tdiv a h.ne_zero)

/-- A quotient of the largest magnitude belongs to a divisor of magnitude one. -/
theorem DividesTo.inRange_quotient (h : DividesTo a b q r) (ha : Word64.InRange a)
    (hexcept : ¬(a = -9223372036854775808 ∧ b = -1)) : Word64.InRange q := by
  obtain ⟨rfl, -⟩ := h.eq_tdiv
  have hne := h.ne_zero
  unfold Word64.InRange at ha ⊢
  by_cases hone : b.natAbs = 1
  · obtain rfl | rfl : b = 1 ∨ b = -1 := by omega
    · rwa [Int.tdiv_one]
    · rw [Int.tdiv_neg, Int.tdiv_one]
      omega
  · have hhalf : (a.tdiv b).natAbs ≤ a.natAbs / 2 := by
      rw [Int.natAbs_tdiv]
      exact Nat.div_le_div_left (by omega) (by decide)
    omega

theorem DividesTo.inRange_remainder (h : DividesTo a b q r) (ha : Word64.InRange a) :
    Word64.InRange r := by
  obtain ⟨-, rfl⟩ := h.eq_tdiv
  have hle : (a.tmod b).natAbs ≤ a.natAbs := by
    rw [Int.natAbs_tmod]
    exact Nat.mod_le _ _
  have hside := h.side
  unfold Word64.InRange at ha ⊢
  omega

/-! ## Exact results -/

/-- The exact result of an operator of arithmetic. -/
inductive Exact : Operator → Int → Int → Int → Prop
  | add (a b : Int) : Exact .add a b (a + b)
  | sub (a b : Int) : Exact .sub a b (a - b)
  | mul (a b : Int) : Exact .mul a b (a * b)
  | div {a b q r : Int} : DividesTo a b q r → Exact .div a b q
  | mod {a b q r : Int} : DividesTo a b q r → Exact .mod a b r

/-- The operator divides, and the divisor is zero. -/
def DividesByZero (op : Operator) (b : Int) : Prop :=
  (op = .div ∨ op = .mod) ∧ b = 0

/-- An exact result is checked and nothing else happens to it. -/
theorem Exact.apply_eq (h : Exact op a b n) : op.apply (.int a) (.int b) = checked op n := by
  cases h with
  | add | sub | mul => rfl
  | div h =>
    obtain ⟨rfl, -⟩ := h.eq_tdiv
    rw [apply, onInts, quotient_of_ne_zero a h.ne_zero]
    rfl
  | mod h =>
    obtain ⟨-, rfl⟩ := h.eq_tdiv
    rw [apply, onInts, remainder_of_ne_zero a h.ne_zero]
    rfl

theorem Exact.not_dividesByZero (h : Exact op a b n) : ¬op.DividesByZero b := by
  rintro ⟨hop, rfl⟩
  cases h with
  | add | sub | mul => simp at hop
  | div h | mod h => exact h.ne_zero rfl

theorem Exact.unique {m : Int} (h : Exact op a b n) (hm : Exact op a b m) : m = n := by
  cases h with
  | add | sub | mul =>
    cases hm
    rfl
  | div h =>
    cases hm with
    | div hm => exact (hm.unique h).1
  | mod h =>
    cases hm with
    | mod hm => exact (hm.unique h).2

/-- There is an exact result unless the divisor is zero. -/
theorem exists_exact (hop : op.level ≠ .comparison) (hzero : ¬op.DividesByZero b) (a : Int) :
    ∃ n, Exact op a b n := by
  cases op with
  | add => exact ⟨_, .add a b⟩
  | sub => exact ⟨_, .sub a b⟩
  | mul => exact ⟨_, .mul a b⟩
  | div => exact ⟨_, .div (dividesTo_tdiv a fun hb => hzero ⟨Or.inl rfl, hb⟩)⟩
  | mod => exact ⟨_, .mod (dividesTo_tdiv a fun hb => hzero ⟨Or.inr rfl, hb⟩)⟩
  | _ => exact absurd rfl hop

/-! ## Ways to fail -/

/-- The operator has no result on the operands, and the fault is of the kind. -/
def FailsAs (op : Operator) (left right : Value) (kind : Diagnostic.Kind) : Prop :=
  ∃ fault, op.apply left right = .error fault ∧ fault.kind = kind

theorem FailsAs.kind_eq {left right : Value} {kind kind' : Diagnostic.Kind}
    (h : op.FailsAs left right kind) (h' : op.FailsAs left right kind') : kind = kind' := by
  obtain ⟨fault, hfault, rfl⟩ := h
  obtain ⟨fault', hfault', rfl⟩ := h'
  rw [hfault] at hfault'
  cases hfault'
  rfl

theorem FailsAs.ne_ok {left right v : Value} {kind : Diagnostic.Kind}
    (h : op.FailsAs left right kind) : op.apply left right ≠ .ok v := by
  obtain ⟨fault, hfault, -⟩ := h
  rw [hfault]
  exact nofun

theorem DividesByZero.failsAs (h : op.DividesByZero b) (a : Int) :
    op.FailsAs (.int a) (.int b) .zeroDivision := by
  obtain ⟨rfl | rfl, rfl⟩ := h
  · exact ⟨.divisionByZero, rfl, rfl⟩
  · exact ⟨.moduloByZero, rfl, rfl⟩

theorem Exact.apply_of_inRange (h : Exact op a b n) (hrange : Word64.InRange n) :
    op.apply (.int a) (.int b) = .ok (.int n) := by
  rw [h.apply_eq, checked, if_pos hrange]

theorem Exact.failsAs_overflow (h : Exact op a b n) (hrange : ¬Word64.InRange n) :
    op.FailsAs (.int a) (.int b) .overflow :=
  ⟨.overflow op, by rw [h.apply_eq, checked, if_neg hrange], rfl⟩

/-- What an operator of arithmetic does with two integers. -/
structure ExactOrFails (op : Operator) (a b : Int) : Prop where
  /-- The results are the exact ones that are in range. -/
  result_iff : ∀ v, op.apply (.int a) (.int b) = .ok v ↔
    ∃ n, v = .int n ∧ Exact op a b n ∧ Word64.InRange n
  overflow_iff : op.FailsAs (.int a) (.int b) .overflow ↔ ∃ n, Exact op a b n ∧ ¬Word64.InRange n
  zeroDivision_iff : op.FailsAs (.int a) (.int b) .zeroDivision ↔ op.DividesByZero b
  /-- It fails in no other way. -/
  kind_of_fails : ∀ kind, op.FailsAs (.int a) (.int b) kind →
    kind = .overflow ∨ kind = .zeroDivision

theorem exactOrFails_of_dividesByZero (h : op.DividesByZero b) (a : Int) : ExactOrFails op a b where
  result_iff v := ⟨fun hok => absurd hok (h.failsAs a).ne_ok,
    fun ⟨_, _, hexact, _⟩ => absurd h hexact.not_dividesByZero⟩
  overflow_iff := ⟨fun hover => absurd (hover.kind_eq (h.failsAs a)) (by decide),
    fun ⟨_, hexact, _⟩ => absurd h hexact.not_dividesByZero⟩
  zeroDivision_iff := ⟨fun _ => h, fun _ => h.failsAs a⟩
  kind_of_fails _ hfails := Or.inr (hfails.kind_eq (h.failsAs a))

theorem Exact.exactOrFails (h : Exact op a b n) : ExactOrFails op a b := by
  by_cases hrange : Word64.InRange n
  · have hok := h.apply_of_inRange hrange
    have hnever : ∀ kind, ¬op.FailsAs (.int a) (.int b) kind := fun _ hfails => hfails.ne_ok hok
    refine ⟨fun v => ⟨fun hv => ?_, ?_⟩, ⟨fun hover => absurd hover (hnever _), ?_⟩,
      ⟨fun hzero => absurd hzero (hnever _), fun hzero => absurd hzero h.not_dividesByZero⟩,
      fun kind hfails => absurd hfails (hnever kind)⟩
    · rw [hok] at hv
      cases hv
      exact ⟨n, rfl, h, hrange⟩
    · rintro ⟨m, rfl, hm, _⟩
      rw [hok, h.unique hm]
    · rintro ⟨m, hm, hout⟩
      exact absurd hrange (h.unique hm ▸ hout)
  · have hover := h.failsAs_overflow hrange
    refine ⟨fun v => ⟨fun hv => absurd hv hover.ne_ok, ?_⟩,
      ⟨fun _ => ⟨n, h, hrange⟩, fun _ => hover⟩,
      ⟨fun hzero => absurd (hzero.kind_eq hover) (by decide),
        fun hzero => absurd hzero h.not_dividesByZero⟩,
      fun kind hfails => Or.inl (hfails.kind_eq hover)⟩
    rintro ⟨m, rfl, hm, hin⟩
    exact absurd (h.unique hm ▸ hin) hrange

theorem exactOrFails (hop : op.level ≠ .comparison) (a b : Int) : ExactOrFails op a b := by
  by_cases hzero : op.DividesByZero b
  · exact exactOrFails_of_dividesByZero hzero a
  · obtain ⟨n, hexact⟩ := exists_exact hop hzero a
    exact hexact.exactOrFails

/-- Nothing but two integers is added, divided or put in order. -/
theorem failsAs_typing {left right : Value} (hequals : op ≠ .equals) (hnotEquals : op ≠ .notEquals)
    (h : ¬∃ a b, left = .int a ∧ right = .int b) : op.FailsAs left right .typing :=
  ⟨.operands op left right, apply_of_not_ints hequals hnotEquals h, rfl⟩

/-! ## All operators -/

/-- **Integer operators are exact or fail.**  On two integers an operator of arithmetic gives the
exact result where it is in range.  It overflows exactly where the exact result is out of range, and
it fails for a zero divisor exactly where it divides by zero.  On integers that are in range
themselves only one quotient overflows, and no remainder.  Whatever the integers are, the quotient
and the remainder by an integer other than zero are the one pair that belongs to a division toward
zero.  And operands that are not both integers are refused by every operator but the two that
compare any values. -/
theorem operators_are_exact_or_fail :
    (∀ (op : Operator) (a b : Int), op.level ≠ .comparison → ExactOrFails op a b) ∧
    (∀ a b : Int, Word64.InRange a → Word64.InRange b →
      (FailsAs .div (.int a) (.int b) .overflow ↔ a = -9223372036854775808 ∧ b = -1) ∧
      ¬FailsAs .mod (.int a) (.int b) .overflow) ∧
    (∀ a b : Int, b ≠ 0 → ∃ q r, quotient a b = .ok q ∧ remainder a b = .ok r ∧
      ∀ q' r', DividesTo a b q' r' ↔ q' = q ∧ r' = r) ∧
    (∀ (op : Operator) (left right : Value), op ≠ .equals → op ≠ .notEquals →
      (¬∃ a b, left = .int a ∧ right = .int b) → op.FailsAs left right .typing) := by
  refine ⟨fun op a b hop => exactOrFails hop a b, fun a b ha _ => ⟨?_, ?_⟩, fun a b hb => ?_,
    fun op left right => failsAs_typing⟩
  · have hdiv : ExactOrFails .div a b := exactOrFails (by decide) a b
    rw [hdiv.overflow_iff]
    constructor
    · rintro ⟨n, hexact, hout⟩
      cases hexact with
      | div hdivides =>
        exact Decidable.not_not.mp fun hexcept => hout (hdivides.inRange_quotient ha hexcept)
    · rintro ⟨rfl, rfl⟩
      exact ⟨9223372036854775808, .div (dividesTo_tdiv _ (by decide)), by decide⟩
  · have hmod : ExactOrFails .mod a b := exactOrFails (by decide) a b
    rw [hmod.overflow_iff]
    rintro ⟨n, hexact, hout⟩
    cases hexact with
    | mod hdivides => exact hout (hdivides.inRange_remainder ha)
  · refine ⟨a.tdiv b, a.tmod b, quotient_of_ne_zero a hb, remainder_of_ne_zero a hb,
      fun q r => ⟨DividesTo.eq_tdiv, ?_⟩⟩
    rintro ⟨rfl, rfl⟩
    exact dividesTo_tdiv a hb

/-- The lowest integer: by `-1` it overflows, by `3` it leaves a negative remainder. -/
theorem lowest_integer_divides_or_overflows :
    FailsAs .div (.int (-9223372036854775808)) (.int (-1)) .overflow ∧
    apply .mod (.int (-9223372036854775808)) (.int 3) = .ok (.int (-2)) ∧
    FailsAs .less (.bool true) (.int 1) .typing := by
  have hlowest : Word64.InRange (-9223372036854775808) := by decide
  obtain ⟨hexact, hlimits, -, htyping⟩ := operators_are_exact_or_fail
  refine ⟨(hlimits _ _ hlowest (by decide)).1.mpr ⟨rfl, rfl⟩, ?_,
    htyping _ _ _ (by decide) (by decide) (by simp)⟩
  have hdivides : DividesTo (-9223372036854775808) 3 (-3074457345618258602) (-2) :=
    ⟨by decide, by decide, by decide⟩
  exact ((hexact .mod _ 3 (by decide)).result_iff _).mpr ⟨-2, rfl, .mod hdivides, by decide⟩

end Operator
end Scriptlet
