import Scriptlet.Value.Basic

/-!
# Operators

The eleven operators that take the values of both operands.  Equality and inequality take any two
values and never fail; the other nine take two integers.

Arithmetic is exact and then checked: a result outside the 64-bit range is an overflow, whatever
the operands were.  Division goes toward zero and the remainder has the sign of the dividend, so
that dividend = quotient * divisor + remainder.
-/

namespace Scriptlet

/-- An operator between two evaluated operands. -/
inductive Operator where
  | equals
  | notEquals
  | less
  | lessEquals
  | greater
  | greaterEquals
  | add
  | sub
  | mul
  | div
  | mod
  deriving DecidableEq, Repr

/-- The operators that decide how far their right operand is evaluated by their left one. -/
inductive Conditional where
  | and
  | or
  deriving DecidableEq, Repr

/-- How a conditional operator is written. -/
def Conditional.text : Conditional → String
  | .and => "&&"
  | .or => "||"

/-- The conditional operator with that spelling. -/
def Conditional.ofText? (text : String) : Option Conditional :=
  [Conditional.and, .or].find? (·.text == text)

namespace Operator

/-- How an operator is written. -/
def text : Operator → String
  | .equals => "=="
  | .notEquals => "!="
  | .less => "<"
  | .lessEquals => "<="
  | .greater => ">"
  | .greaterEquals => ">="
  | .add => "+"
  | .sub => "-"
  | .mul => "*"
  | .div => "/"
  | .mod => "%"

/-- The operators, each once. -/
def all : List Operator :=
  [.equals, .notEquals, .less, .lessEquals, .greater, .greaterEquals, .add, .sub, .mul, .div, .mod]

/-- The operator with that spelling. -/
def ofText? (text : String) : Option Operator :=
  all.find? (·.text == text)

/-- Why an operator has no result. -/
inductive Fault where
  /-- The operands are not both integers. -/
  | operands (op : Operator) (left right : Value)
  | divisionByZero
  | moduloByZero
  /-- The exact result is outside the 64-bit range. -/
  | overflow (op : Operator)
  deriving DecidableEq, Repr

/-- The text of a fault. -/
def Fault.message : Fault → String
  | .operands op left right =>
    s!"Operator {op.text} requires two ints, got {left.typeName} and {right.typeName}"
  | .divisionByZero => "Division by zero"
  | .moduloByZero => "Modulo by zero"
  | .overflow op => s!"Integer overflow in {op.text}"

/-! ## Division toward zero -/

/-- The quotient of the magnitudes, with the sign that belongs to it.  The magnitudes are divided
with the quotient rounded down, which is rounded toward zero once the sign is there. -/
def truncDiv (a b : Int) : Int :=
  let q := Int.fdiv a.natAbs b.natAbs
  if a < 0 ↔ b < 0 then q else -q

/-- That is the quotient rounded toward zero. -/
theorem truncDiv_eq_tdiv (a b : Int) : truncDiv a b = a.tdiv b := by
  have hmagnitudes : Int.fdiv a.natAbs b.natAbs = (a.natAbs : Int).tdiv b.natAbs :=
    Int.fdiv_eq_tdiv_of_nonneg (Int.natCast_nonneg _) (Int.natCast_nonneg _)
  have hneg : ∀ {c : Int}, c < 0 → (c.natAbs : Int) = -c := fun h =>
    Int.ofNat_natAbs_of_nonpos (Int.le_of_lt h)
  have hpos : ∀ {c : Int}, ¬c < 0 → (c.natAbs : Int) = c := fun h =>
    Int.natAbs_of_nonneg (Int.not_lt.mp h)
  rw [truncDiv, hmagnitudes]
  by_cases ha : a < 0
  · by_cases hb : b < 0
    · rw [if_pos (iff_of_true ha hb), hneg ha, hneg hb, Int.neg_tdiv, Int.tdiv_neg, Int.neg_neg]
    · rw [if_neg fun h => hb (h.mp ha), hneg ha, hpos hb, Int.neg_tdiv, Int.neg_neg]
  · by_cases hb : b < 0
    · rw [if_neg fun h => ha (h.mpr hb), hpos ha, hneg hb, Int.tdiv_neg, Int.neg_neg]
    · rw [if_pos (iff_of_false ha hb), hpos ha, hpos hb]

/-- The quotient, rounded toward zero. -/
def quotient (a b : Int) : Except Fault Int :=
  if b = 0 then .error .divisionByZero else .ok (truncDiv a b)

/-- The remainder: what the quotient leaves of the dividend. -/
def remainder (a b : Int) : Except Fault Int :=
  if b = 0 then .error .moduloByZero else .ok (a - b * truncDiv a b)

theorem quotient_of_ne_zero (a : Int) {b : Int} (h : b ≠ 0) : quotient a b = .ok (a.tdiv b) := by
  rw [quotient, if_neg h, truncDiv_eq_tdiv]

theorem remainder_of_ne_zero (a : Int) {b : Int} (h : b ≠ 0) :
    remainder a b = .ok (a.tmod b) := by
  rw [remainder, if_neg h, truncDiv_eq_tdiv, Int.tmod_def]

/-! ## Application -/

/-- The value of an exact result, if it is in range. -/
def checked (op : Operator) (n : Int) : Except Fault Value :=
  if Word64.InRange n then .ok (.int n) else .error (.overflow op)

/-- Applies an operation on integers, and refuses operands that are none. -/
def onInts (op : Operator) (operation : Int → Int → Except Fault Value) :
    Value → Value → Except Fault Value
  | .int a, .int b => operation a b
  | left, right => .error (.operands op left right)

/-- The result on any two values. -/
def apply (op : Operator) (left right : Value) : Except Fault Value :=
  match op with
  | .equals => .ok (.bool (left.same right))
  | .notEquals => .ok (.bool (!left.same right))
  | .less => op.onInts (fun a b => .ok (.bool (a < b))) left right
  | .lessEquals => op.onInts (fun a b => .ok (.bool (a ≤ b))) left right
  | .greater => op.onInts (fun a b => .ok (.bool (a > b))) left right
  | .greaterEquals => op.onInts (fun a b => .ok (.bool (a ≥ b))) left right
  | .add => op.onInts (fun a b => checked op (a + b)) left right
  | .sub => op.onInts (fun a b => checked op (a - b)) left right
  | .mul => op.onInts (fun a b => checked op (a * b)) left right
  | .div => op.onInts (fun a b => quotient a b >>= checked op) left right
  | .mod => op.onInts (fun a b => remainder a b >>= checked op) left right

@[simp] theorem apply_equals (left right : Value) :
    apply .equals left right = .ok (.bool (left.same right)) := rfl

@[simp] theorem apply_notEquals (left right : Value) :
    apply .notEquals left right = .ok (.bool (!left.same right)) := rfl

/-- What an operation on integers gives, it gives for two integers. -/
theorem exists_of_onInts_eq_ok {op : Operator} {operation : Int → Int → Except Fault Value}
    {left right v : Value} (h : op.onInts operation left right = .ok v) :
    ∃ a b, left = .int a ∧ right = .int b ∧ operation a b = .ok v := by
  rw [onInts.eq_def] at h
  split at h
  · exact ⟨_, _, rfl, rfl, h⟩
  · cases h

/-- All other operands are refused, except by the two operators that compare any values. -/
theorem apply_of_not_ints {op : Operator} (hequals : op ≠ .equals) (hnotEquals : op ≠ .notEquals)
    {left right : Value} (h : ¬∃ a b, left = .int a ∧ right = .int b) :
    op.apply left right = .error (.operands op left right) := by
  have hrefused : ∀ operation : Int → Int → Except Fault Value,
      op.onInts operation left right = .error (.operands op left right) := by
    intro operation
    rw [onInts.eq_def]
    split
    · exact absurd ⟨_, _, rfl, rfl⟩ h
    · rfl
  cases op with
  | equals => exact absurd rfl hequals
  | notEquals => exact absurd rfl hnotEquals
  | _ => exact hrefused _

end Operator
end Scriptlet
