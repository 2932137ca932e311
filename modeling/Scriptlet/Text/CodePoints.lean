/-!
# Tables of code points

A character class of the Unicode standard is kept as a list of closed ranges of code points in
ascending order.  Looking a code point up walks the list and stops at the first range that begins
beyond it, so a table costs an ASCII character only a step or two.
-/

namespace Scriptlet.Text

/-- Closed ranges of code points, lowest first and none touching the next. -/
abbrev CodePoints := List (Nat × Nat)

/-- Whether `n` lies in one of the ranges. -/
def CodePoints.has : CodePoints → Nat → Bool
  | [], _ => false
  | (low, high) :: ranges, n =>
    if n < low then false else if n ≤ high then true else CodePoints.has ranges n

/-- Whether the ranges ascend and stay at or above `start`: what `has` relies on. -/
def CodePoints.ascends : CodePoints → Nat → Bool
  | [], _ => true
  | (low, high) :: ranges, start =>
    start ≤ low && low ≤ high && CodePoints.ascends ranges (high + 1)

/-- In an ascending table, stopping early loses nothing: `has` finds exactly the code points that
some range of the table covers. -/
theorem CodePoints.has_iff_of_ascends {table : CodePoints} {start : Nat}
    (h : table.ascends start = true) (n : Nat) :
    table.has n = true ↔ ∃ r ∈ table, r.1 ≤ n ∧ n ≤ r.2 := by
  have above : ∀ (t : CodePoints) (s : Nat), t.ascends s = true → ∀ r ∈ t, s ≤ r.1 := by
    intro t
    induction t with
    | nil => simp
    | cons r t ih =>
      intro s hs q hq
      obtain ⟨low, high⟩ := r
      simp only [ascends, Bool.and_eq_true, decide_eq_true_eq] at hs
      rcases List.mem_cons.1 hq with rfl | hq
      · exact hs.1.1
      · have := ih _ hs.2 q hq
        omega
  induction table generalizing start with
  | nil => simp [has]
  | cons r t ih =>
    obtain ⟨low, high⟩ := r
    simp only [ascends, Bool.and_eq_true, decide_eq_true_eq] at h
    rw [has]
    split
    · rename_i hlt
      refine ⟨fun hf => absurd hf (by simp), fun ⟨q, hq, hle, _⟩ => ?_⟩
      rcases List.mem_cons.1 hq with rfl | hq
      · omega
      · have := above t _ h.2 q hq
        omega
    · split
      · exact ⟨fun _ => ⟨(low, high), by simp, by omega, by omega⟩, fun _ => rfl⟩
      · refine (ih h.2).trans ?_
        constructor
        · rintro ⟨q, hq, hqn⟩
          exact ⟨q, List.mem_cons_of_mem _ hq, hqn⟩
        · rintro ⟨q, hq, hqn⟩
          rcases List.mem_cons.1 hq with rfl | hq
          · exfalso
            simp only at hqn
            omega
          · exact ⟨q, hq, hqn⟩

end Scriptlet.Text
