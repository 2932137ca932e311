/-!
# Room on the host's stack

The host allows only so many calls of its own inside one another.  Before a run its limit is raised,
if need be, to what the calls of the program can take up, and afterwards it is what it was.

The host keeps its limit in a signed word of 32 bits.  A limit that does not fit is refused when it
is set, so that the run is not begun.
-/

namespace Scriptlet.Settings.HostLimit

/-- The limit of a host that was told nothing else. -/
def usual : Int := 1000

/-- The largest limit that the host takes. -/
def largest : Int := 2147483647

/-- The limit that so many open calls of a program need. -/
def needed (callDepth : Int) : Int :=
  callDepth * 25 + 1000

/-- The host takes a limit that is enough for so many open calls. -/
def Takes (callDepth : Int) : Prop :=
  needed callDepth ≤ largest

instance (callDepth : Int) : Decidable (Takes callDepth) :=
  inferInstanceAs (Decidable (needed callDepth ≤ largest))

/-- What it takes for some calls it takes for fewer. -/
theorem Takes.mono {d d' : Int} (h : Takes d') (hle : d ≤ d') : Takes d := by
  simp only [Takes, needed] at h ⊢
  omega

/-- A new limit, if the host takes it. -/
def set? (limit : Int) : Option Int :=
  if limit ≤ largest then some limit else none

/-- The limit during a run: raised, never lowered. -/
def raise? (limit callDepth : Int) : Option Int :=
  if limit < needed callDepth then set? (needed callDepth) else some limit

/-- Whether a limit can be raised does not depend on what it was: the host has taken that one. -/
theorem raise?_eq_none_iff {limit : Int} (h : limit ≤ largest) (callDepth : Int) :
    raise? limit callDepth = none ↔ ¬Takes callDepth := by
  rw [raise?, set?, Takes]
  by_cases hraised : limit < needed callDepth
  · simp [hraised]
  · simp only [if_neg hraised, reduceCtorEq, false_iff]
    omega

/-! ## Runs inside one another -/

/-- The limit during a run, on a host that takes every limit. -/
def during (limit callDepth : Int) : Int :=
  if limit < needed callDepth then needed callDepth else limit

/-- A limit that can be raised is raised as it would be on such a host. -/
theorem eq_during_of_raise? {limit callDepth raised : Int}
    (h : raise? limit callDepth = some raised) : raised = during limit callDepth := by
  rw [raise?, set?] at h
  rw [during]
  by_cases hraised : limit < needed callDepth
  · rw [if_pos hraised] at h ⊢
    split at h
    · exact (Option.some.inj h).symm
    · cases h
  · rw [if_neg hraised] at h ⊢
    exact (Option.some.inj h).symm

/-- The limits that are seen on such a host as runs begin one inside the other, and, unless the
innermost one fails, as they end again. -/
def trace (fails : Bool) (limit : Int) : List Int → List Int
  | [] => []
  | depth :: depths =>
    let raised := during limit depth
    raised :: trace fails raised depths ++ (if fails then [] else [limit])

end Scriptlet.Settings.HostLimit
