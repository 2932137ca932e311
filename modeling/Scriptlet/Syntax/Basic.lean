import Scriptlet.Operator

/-!
# Syntax trees

A program is a list of functions, and everything inside a function is an expression: declarations,
assignments, blocks and conditions have values like the rest.

Trees need not come from a source text.  One that is put together by hand may hold any value as a
literal, any text as a name, declarations where the grammar has no place for them, and `missing`
where an expression was left out.
-/

namespace Scriptlet

/-- An expression. -/
inductive Expr where
  | lit (value : Value)
  /-- The value of a variable. -/
  | name (name : String)
  | call (name : String) (args : List Expr)
  /-- Binds a name in the active scope. -/
  | declare (name : String) (value : Expr)
  /-- Gives a visible variable another value. -/
  | assign (name : String) (value : Expr)
  /-- A sequence in a scope of its own. -/
  | block (body : List Expr)
  | binary (op : Operator) (left right : Expr)
  | conditional (op : Conditional) (left right : Expr)
  | ifElse (condition : Expr) (thenBody elseBody : List Expr)
  | not (operand : Expr)
  | tuple (items : List Expr)
  /-- No expression; it has no value. -/
  | missing
  deriving Inhabited, Repr

namespace Expr

/-! ## Equality of trees -/

mutual

/-- Whether two trees are built alike. -/
def same : Expr → Expr → Bool
  | .lit v, .lit w => v == w
  | .name n, .name m => n == m
  | .call n xs, .call m ys => n == m && sameEach xs ys
  | .declare n x, .declare m y => n == m && same x y
  | .assign n x, .assign m y => n == m && same x y
  | .block xs, .block ys => sameEach xs ys
  | .binary p x x', .binary q y y' => p == q && same x y && same x' y'
  | .conditional p x x', .conditional q y y' => p == q && same x y && same x' y'
  | .ifElse x xs xs', .ifElse y ys ys' => same x y && sameEach xs ys && sameEach xs' ys'
  | .not x, .not y => same x y
  | .tuple xs, .tuple ys => sameEach xs ys
  | .missing, .missing => true
  | _, _ => false

/-- Whether two lists hold trees built alike, place by place. -/
def sameEach : List Expr → List Expr → Bool
  | [], [] => true
  | x :: xs, y :: ys => same x y && sameEach xs ys
  | _, _ => false

end

mutual

/-- Trees are built alike exactly when they are equal. -/
theorem same_iff_eq : ∀ a b : Expr, same a b = true ↔ a = b
  | .lit _, b => by cases b <;> simp [same]
  | .name _, b => by cases b <;> simp [same]
  | .call _ xs, b => by cases b <;> simp [same, sameEach_iff_eq xs]
  | .declare _ x, b => by cases b <;> simp [same, same_iff_eq x]
  | .assign _ x, b => by cases b <;> simp [same, same_iff_eq x]
  | .block xs, b => by cases b <;> simp [same, sameEach_iff_eq xs]
  | .binary _ x x', b => by cases b <;> simp [same, same_iff_eq x, same_iff_eq x', and_assoc]
  | .conditional _ x x', b => by
    cases b <;> simp [same, same_iff_eq x, same_iff_eq x', and_assoc]
  | .ifElse x xs xs', b => by
    cases b <;> simp [same, same_iff_eq x, sameEach_iff_eq xs, sameEach_iff_eq xs', and_assoc]
  | .not x, b => by cases b <;> simp [same, same_iff_eq x]
  | .tuple xs, b => by cases b <;> simp [same, sameEach_iff_eq xs]
  | .missing, b => by cases b <;> simp [same]

/-- Lists hold trees built alike exactly when they are equal. -/
theorem sameEach_iff_eq : ∀ xs ys : List Expr, sameEach xs ys = true ↔ xs = ys
  | [], ys => by cases ys <;> simp [sameEach]
  | x :: xs, ys => by
    cases ys with
    | nil => simp [sameEach]
    | cons y ys => simp [sameEach, same_iff_eq x y, sameEach_iff_eq xs ys]

end

instance : DecidableEq Expr := fun a b =>
  decidable_of_iff (same a b = true) (same_iff_eq a b)

end Expr

/-- A parameter.  The annotation is kept and means nothing. -/
structure Param where
  name : String
  annotation : Option String := none
  deriving DecidableEq, Repr

/-- A function definition. -/
structure Function where
  name : String
  params : List Param
  body : List Expr
  deriving Inhabited, DecidableEq, Repr

/-- How many arguments a function takes. -/
def Function.arity (f : Function) : Nat :=
  f.params.length

/-- The functions of a source text, in order. -/
abbrev Program := List Function

end Scriptlet
