import Scriptlet.Operator
import Scriptlet.Value.Text

/-!
# Sameness of values

`Value.same` goes through two values side by side and compares the types at every step.  What it
decides can be said in two ways.  By `same_iff_eq` the two are one value.  And what is seen of them
from outside is the same at every depth.

For the second way a value is taken apart by paths.  A path is a list of indices, and `part?` is
what it leads to; `label` is what shows of a part without looking further into it, its type and
content, or the length of a tuple.  Two values with the same label behind every path are equal
(`eq_of_forall_label`), and a label tells a bool from an integer, however deep it lies.
-/

namespace Scriptlet
namespace Value

/-! ## Parts and labels -/

/-- What shows of a value from outside. -/
inductive Label where
  | int (n : Int)
  | string (text : String)
  | bool (b : Bool)
  | tuple (length : Nat)
  | absent
  deriving DecidableEq, Repr

/-- The type of a value and its content, of a tuple only the length. -/
def label : Value → Label
  | .int n => .int n
  | .string text => .string text
  | .bool b => .bool b
  | .tuple items => .tuple items.length
  | .absent => .absent

/-- The part of a value behind a path: each index is the place of an item in a tuple. -/
def part? : Value → List Nat → Option Value
  | v, [] => some v
  | .tuple items, i :: path => items[i]?.bind fun item => part? item path
  | _, _ :: _ => none

@[simp] theorem part?_nil (v : Value) : v.part? [] = some v := by
  cases v <;> rfl

/-- What shows behind a path, if it leads anywhere. -/
def labelAt? (v : Value) (path : List Nat) : Option Label :=
  (v.part? path).map label

theorem labelAt?_nil (v : Value) : v.labelAt? [] = some v.label := by
  rw [labelAt?, part?_nil, Option.map_some]

theorem label_eq_of_labelAt? {a b : Value} (h : ∀ path, a.labelAt? path = b.labelAt? path) :
    a.label = b.label := by
  have hroot := h []
  rwa [labelAt?_nil, labelAt?_nil, Option.some_inj] at hroot

mutual

/-- Values with the same label behind every path are equal. -/
theorem eq_of_forall_label :
    ∀ a b : Value, (∀ path, a.labelAt? path = b.labelAt? path) → a = b
  | .int m, b, h => by
    have hlabel := label_eq_of_labelAt? h
    cases b <;> simp_all [label]
  | .string s, b, h => by
    have hlabel := label_eq_of_labelAt? h
    cases b <;> simp_all [label]
  | .bool c, b, h => by
    have hlabel := label_eq_of_labelAt? h
    cases b <;> simp_all [label]
  | .absent, b, h => by
    have hlabel := label_eq_of_labelAt? h
    cases b <;> simp_all [label]
  | .tuple xs, b, h => by
    have hlabel := label_eq_of_labelAt? h
    cases b with
    | tuple ys =>
      refine congrArg tuple (items_eq_of_forall_label xs ys ?_ fun i path => h (i :: path))
      simpa [label] using hlabel
    | int | string | bool | absent => simp [label] at hlabel

/-- Lists of the same length, with the same label behind every path into their items, are equal. -/
theorem items_eq_of_forall_label : ∀ xs ys : List Value, xs.length = ys.length →
    (∀ i path, (tuple xs).labelAt? (i :: path) = (tuple ys).labelAt? (i :: path)) → xs = ys
  | [], ys, hlength, _ => (List.eq_nil_of_length_eq_zero hlength.symm).symm
  | x :: xs, [], hlength, _ => absurd hlength (Nat.succ_ne_zero _)
  | x :: xs, y :: ys, hlength, h => by
    have hhead := eq_of_forall_label x y fun path => h 0 path
    have htail := items_eq_of_forall_label xs ys (Nat.succ.inj hlength)
      fun i path => h (i + 1) path
    rw [hhead, htail]

end

/-! ## What sameness decides -/

theorem same_iff_forall_label (a b : Value) :
    a.same b = true ↔ ∀ path, a.labelAt? path = b.labelAt? path := by
  rw [same_iff_eq]
  exact ⟨fun h path => h ▸ rfl, eq_of_forall_label a b⟩

/-- Two values with different labels behind some path are not the same. -/
theorem same_eq_false_of_label {a b x y : Value} {path : List Nat} (ha : a.part? path = some x)
    (hb : b.part? path = some y) (h : x.label ≠ y.label) : a.same b = false := by
  rw [Bool.eq_false_iff, Ne, same_iff_forall_label]
  intro hsame
  have hpath := hsame path
  rw [labelAt?, labelAt?, ha, hb, Option.map_some, Option.map_some, Option.some_inj] at hpath
  exact h hpath

theorem equivalence_same : Equivalence fun a b : Value => a.same b = true where
  refl a := (same_iff_eq a a).mpr rfl
  symm {a b} h := (same_iff_eq b a).mpr ((same_iff_eq a b).mp h).symm
  trans {a b c} hab hbc :=
    (same_iff_eq a c).mpr (((same_iff_eq a b).mp hab).trans ((same_iff_eq b c).mp hbc))

/-- Tuples are the same item by item. -/
theorem same_tuple_iff (xs ys : List Value) : (tuple xs).same (tuple ys) = true ↔
    xs.length = ys.length ∧
      ∀ i (hx : i < xs.length) (hy : i < ys.length), (xs[i]).same ys[i] = true := by
  rw [same_iff_eq, tuple.injEq]
  constructor
  · rintro rfl
    exact ⟨rfl, fun i _ _ => (same_iff_eq _ _).mpr rfl⟩
  · rintro ⟨hlength, hitems⟩
    exact List.ext_getElem hlength fun i hx hy => (same_iff_eq _ _).mp (hitems i hx hy)

/-- **Sameness is equality of tagged values.**  Two values are the same exactly when they are equal,
and exactly when they show the same type and content behind every path.  So a bool and an integer
in the same place, at any depth, make two values different.  Sameness is an equivalence and goes
through tuples item by item; the operators for it and against it never fail and never agree; and
values that are the same are printed alike and have the same type. -/
theorem same_decides_equality :
    (∀ a b : Value, (a.same b = true ↔ a = b) ∧
      (a.same b = true ↔ ∀ path, a.labelAt? path = b.labelAt? path)) ∧
    (∀ (a b : Value) (path : List Nat) (c : Bool) (n : Int), a.part? path = some (.bool c) →
      b.part? path = some (.int n) → a.same b = false ∧ b.same a = false) ∧
    (Equivalence fun a b : Value => a.same b = true) ∧
    (∀ xs ys : List Value, (tuple xs).same (tuple ys) = true ↔ xs.length = ys.length ∧
      ∀ i (hx : i < xs.length) (hy : i < ys.length), (xs[i]).same ys[i] = true) ∧
    (∀ a b : Value, ∃ e : Bool, Operator.apply .equals a b = .ok (.bool e) ∧
      Operator.apply .notEquals a b = .ok (.bool !e) ∧ (e = true ↔ a = b)) ∧
    (∀ a b : Value, a.same b = true → a.display = b.display ∧ a.typeName = b.typeName) := by
  refine ⟨fun a b => ⟨same_iff_eq a b, same_iff_forall_label a b⟩, fun a b path c n ha hb => ?_,
    equivalence_same, same_tuple_iff, fun a b => ?_, fun a b h => ?_⟩
  · exact ⟨same_eq_false_of_label ha hb (by simp [label]),
      same_eq_false_of_label hb ha (by simp [label])⟩
  · exact ⟨a.same b, Operator.apply_equals a b, Operator.apply_notEquals a b, same_iff_eq a b⟩
  · obtain rfl := (same_iff_eq a b).mp h
    exact ⟨rfl, rfl⟩

/-- A bool and an integer two tuples deep. -/
theorem nestedTrue_is_not_nestedOne :
    (tuple [.string "x", .tuple [.bool true]]).same (.tuple [.string "x", .tuple [.int 1]]) =
      false ∧
    (tuple [.string "x", .tuple [.int 1]]).same (.tuple [.string "x", .tuple [.bool true]]) =
      false := by
  obtain ⟨-, hdepth, -⟩ := same_decides_equality
  exact hdepth _ _ [1, 0] true 1 rfl rfl

end Value
end Scriptlet
