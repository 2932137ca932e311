/-!
# Values

What an expression evaluates to.  The language itself has integers, strings, bools and tuples,
the empty tuple being the unit.  `absent` is no value of the language: it stands for a value that
a caller left out, when a tree or a binding is put together by hand, and a variable bound to it
counts as undefined when it is read.

Integers here are unbounded.  An integer of the language fits a signed word of 64 bits, and nothing
wraps: a literal outside the range is refused when it is read, and an operator whose exact result
falls outside fails.

`same` is the equality that the language's `==` tests.  It goes through the two values side by
side, and `same_iff_eq` says that it finds exactly the pairs that are the same value, so that a
bool is never the same as an integer, at any depth.
-/

namespace Scriptlet

/-- The integer lies in the signed 64-bit range: at least -2^63 and below 2^63. -/
def Word64.InRange (n : Int) : Prop :=
  -9223372036854775808 ≤ n ∧ n ≤ 9223372036854775807

instance : DecidablePred Word64.InRange := fun n =>
  inferInstanceAs (Decidable (-9223372036854775808 ≤ n ∧ n ≤ 9223372036854775807))

/-- A runtime value. -/
inductive Value where
  | int (n : Int)
  | string (text : String)
  | bool (b : Bool)
  | tuple (items : List Value)
  | absent
  deriving Inhabited, Repr

namespace Value

/-- The empty tuple: the value of an empty sequence and of a call that only has an effect. -/
def unit : Value :=
  .tuple []

/-- The type of a value, as messages name it. -/
def typeName : Value → String
  | .int _ => "int"
  | .string _ => "string"
  | .bool _ => "bool"
  | .tuple _ => "tuple"
  | .absent => "NoneType"

/-! ## Sameness -/

mutual

/-- Whether two values have the same type and the same content, item by item for tuples. -/
def same : Value → Value → Bool
  | .int m, .int n => m == n
  | .string s, .string t => s == t
  | .bool b, .bool c => b == c
  | .tuple xs, .tuple ys => sameItems xs ys
  | .absent, .absent => true
  | _, _ => false

/-- Whether two lists of values have the same length and the same value at each place. -/
def sameItems : List Value → List Value → Bool
  | [], [] => true
  | x :: xs, y :: ys => same x y && sameItems xs ys
  | _, _ => false

end

mutual

/-- Values are the same exactly when they are equal. -/
theorem same_iff_eq : ∀ a b : Value, same a b = true ↔ a = b
  | .int m, b => by cases b <;> simp [same]
  | .string s, b => by cases b <;> simp [same]
  | .bool c, b => by cases b <;> simp [same]
  | .absent, b => by cases b <;> simp [same]
  | .tuple xs, b => by
    cases b with
    | tuple ys => simpa [same] using sameItems_iff_eq xs ys
    | int | string | bool | absent => simp [same]

/-- Lists of values are the same at each place exactly when they are equal. -/
theorem sameItems_iff_eq : ∀ xs ys : List Value, sameItems xs ys = true ↔ xs = ys
  | [], ys => by cases ys <;> simp [sameItems]
  | x :: xs, ys => by
    cases ys with
    | nil => simp [sameItems]
    | cons y ys => simp [sameItems, same_iff_eq x y, sameItems_iff_eq xs ys]

end

instance : DecidableEq Value := fun a b =>
  decidable_of_iff (same a b = true) (same_iff_eq a b)

end Value
end Scriptlet
