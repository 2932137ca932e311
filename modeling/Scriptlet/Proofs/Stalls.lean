import Scriptlet.Proofs.Places

/-!
# What was read when a parser failed

A parser that fails has read some tokens by then.  If a token could not stand where it stands, they
are the tokens before it; if the parser ran into the error at the end of the outlook, they are all
tokens of the outlook.

`Stalls p ts W` says that whenever `p` fails from a cursor with the outlook `ts`, what it had read
satisfies `W`, failures for the nesting set aside.  For a step behind others, `W` speaks about what
these have read as well: behind the tokens `us` it is `fun vs => W (us ++ vs)`.  A primitive fails
only where it starts, so that for it `W []` is all that has to be known.

In a loop `W` may depend on the outlook.  In a body, for instance, another statement can follow only
where a semicolon stood behind the last one.
-/

namespace Scriptlet
namespace Parser

open Grammar (semicolons)

variable {α β : Type} {c c' : Cursor} {ts mid rest : List Token} {ending : Option ReadError}
  {W W' : List Token → Prop}

/-- How much had been read of the outlook `ts` when a parser failed with `e` at the cursor `c'`. -/
inductive Stops (ending : Option ReadError) (c' : Cursor) :
    ReadError → List Token → List Token → Prop
  | wrong {cause : ReadError.Cause} {position : Nat} {read rest : List Token} :
    c'.Holds rest ending → Stops ending c' (.grammar cause position) (read ++ rest) read
  | unreadable {e : ReadError} {ts : List Token} : ending = some e → Stops ending c' e ts ts

theorem Stops.append {e : ReadError} {read : List Token} (h : Stops ending c' e ts read)
    (us : List Token) : Stops ending c' e (us ++ ts) (us ++ read) := by
  cases h with
  | wrong hrest =>
    rw [← List.append_assoc]
    exact .wrong hrest
  | unreadable hending => exact .unreadable hending

/-- Whenever the parser fails, what it had read of the outlook satisfies `W`. -/
def Stalls (p : Parser α) (ts : List Token) (W : List Token → Prop) : Prop :=
  ∀ ⦃c c' : Cursor⦄ ⦃ending : Option ReadError⦄ ⦃e : ReadError⦄, c.Holds ts ending →
    p c = .error e c' → (∀ position, e ≠ .nestedTooDeeply position) →
      ∃ read, Stops ending c' e ts read ∧ W read

theorem Stalls.mono {p : Parser α} (h : Stalls p ts W) (hW : ∀ us, W us → W' us) :
    Stalls p ts W' := by
  intro c c' ending e hc hrun hdeep
  obtain ⟨read, hstops, hread⟩ := h hc hrun hdeep
  exact ⟨read, hstops, hW read hread⟩

/-! ## Steps one after the other -/

theorem stalls_pure (a : α) (ts : List Token) (W : List Token → Prop) :
    Stalls (pure a : Parser α) ts W :=
  fun _ _ _ _ _ hrun => nomatch hrun

theorem stalls_tooDeep (ts : List Token) (W : List Token → Prop) :
    Stalls (tooDeep : Parser α) ts W := by
  intro c c' ending e _ hrun hdeep
  cases hrun
  exact absurd rfl (hdeep _)

/-- Either the first step fails, or the second does behind what the first has read. -/
theorem Stalls.bind {p : Parser α} {f : α → Parser β} {R : List Token → α → List Token → Prop}
    (hp : Stalls p ts W) (hreads : Reads p R) (hf : ∀ a mid, R ts a mid →
      ∃ us, ts = us ++ mid ∧ Stalls (f a) mid fun vs => W (us ++ vs)) :
    Stalls (p >>= f) ts W := by
  intro c c' ending e hc hrun hdeep
  rcases cases_of_bind_eq_error hrun with hfirst | ⟨a, c₁, hfirst, hrest⟩
  · exact hp hc hfirst hdeep
  · obtain ⟨mid, hread, hc₁⟩ := hreads hc hfirst
    obtain ⟨us, rfl, hnext⟩ := hf a mid hread
    obtain ⟨vs, hstops, hvs⟩ := hnext hc₁ hrest hdeep
    exact ⟨us ++ vs, hstops.append us, hvs⟩

/-- Behind the last step nothing can fail. -/
theorem Stalls.bind_pure {p : Parser α} (hp : Stalls p ts W) (f : α → β) :
    Stalls (p >>= fun a => pure (f a)) ts W := by
  intro c c' ending e hc hrun hdeep
  rcases cases_of_bind_eq_error hrun with hfirst | ⟨a, c₁, _, hrest⟩
  · exact hp hc hfirst hdeep
  · cases hrest

theorem Stalls.map {p : Parser α} (hp : Stalls p ts W) (f : α → β) : Stalls (f <$> p) ts W := by
  rw [map_eq_pure_bind]
  exact hp.bind_pure f

/-! ## Looking ahead -/

theorem stalls_peekAhead {ahead : Nat} (h : ts.length ≤ ahead → W ts) :
    Stalls (peekAhead ahead) ts W := by
  intro c c' ending e hc hrun _
  rcases peekAhead_cases ahead hc with ⟨c₁, hpeek, _⟩ | ⟨e', c₁, hpeek, hending, hshort⟩
  · rw [hpeek] at hrun
    cases hrun
  · rw [hpeek] at hrun
    obtain ⟨rfl, _⟩ : e' = e ∧ c₁ = c' := by simpa using hrun
    exact ⟨ts, .unreadable hending, h hshort⟩

theorem stalls_peek (h : W []) : Stalls peek ts W :=
  stalls_peekAhead fun hshort => by rwa [List.eq_nil_of_length_eq_zero (Nat.le_zero.mp hshort)]

theorem stalls_peek_bind {f : Option Token → Parser β} (h : W [])
    (hf : Stalls (f ts.head?) ts W) : Stalls (peek >>= f) ts W := by
  refine (stalls_peek h).bind reads_peek ?_
  rintro next mid ⟨rfl, rfl⟩
  exact ⟨[], rfl, hf⟩

theorem stalls_isAtMark_bind {m : Mark} {f : Bool → Parser β} (h : W [])
    (htrue : ∀ rest, ts = .mark m :: rest → Stalls (f true) ts W)
    (hfalse : ts.head? ≠ some (.mark m) → Stalls (f false) ts W) :
    Stalls (isAtMark m >>= f) ts W := by
  refine ((stalls_peek h).bind_pure _).bind (reads_isAtMark m) ?_
  rintro here mid ⟨hhere, rfl⟩
  refine ⟨[], rfl, ?_⟩
  cases here with
  | true =>
    obtain ⟨rest, hmid⟩ := List.head?_eq_some_iff.mp (hhere.mp rfl)
    exact htrue rest hmid
  | false => exact hfalse fun hmid => by simpa using hhere.mpr hmid

theorem stalls_fail (cause : ReadError.Cause) (h : W []) :
    Stalls (fail cause : Parser α) ts W := by
  intro c c' ending e hc hrun _
  rcases fill_cases 1 hc with ⟨c₁, hfill, hc₁, _⟩ | ⟨e', c₁, hfill, hending, hshort⟩
  · rw [fail, bind_of_ok (position_of_fill hfill)] at hrun
    cases hrun
    rw [← List.nil_append ts]
    exact ⟨[], .wrong hc₁, h⟩
  · have hposition : position c = .error e' c₁ := by rw [position, bind_of_error hfill]
    rw [fail, bind_of_error hposition] at hrun
    obtain ⟨rfl, _⟩ : e' = e ∧ c₁ = c' := by simpa using hrun
    obtain rfl : ts = [] := List.eq_nil_of_length_eq_zero (by omega)
    exact ⟨[], .unreadable hending, h⟩

/-! ## Taking a token -/

/-- Where a token is next, it can be taken. -/
theorem stalls_advance_bind {t : Token} {f : Token → Parser β}
    (hf : Stalls (f t) ts fun us => W (t :: us)) : Stalls (advance >>= f) (t :: ts) W := by
  intro c c' ending e hc hrun hdeep
  obtain ⟨c₁, hadvance, hc₁⟩ := advance_cases hc
  rw [bind_of_ok hadvance] at hrun
  obtain ⟨us, hstops, hus⟩ := hf hc₁ hrun hdeep
  exact ⟨t :: us, hstops.append [t], hus⟩

theorem stalls_expectBy {kind : Token.Kind} {accept : Token → Option α} (h : W []) :
    Stalls (expectBy kind accept) ts W := by
  refine stalls_peek_bind h ?_
  cases ts with
  | nil => exact stalls_fail _ h
  | cons t ts =>
    cases haccept : accept t with
    | none =>
      simp only [List.head?_cons, Option.bind_some, haccept]
      exact stalls_fail _ h
    | some a =>
      simp only [List.head?_cons, Option.bind_some, haccept]
      exact stalls_advance_bind (stalls_pure _ _ _)

theorem stalls_expectMark_bind {m : Mark} {f : Unit → Parser β} (h : W [])
    (hf : ∀ rest, ts = .mark m :: rest → Stalls (f ()) rest fun us => W (.mark m :: us)) :
    Stalls (expectMark m >>= f) ts W := by
  refine ((stalls_expectBy h).bind_pure _).bind (reads_expectMark m) ?_
  rintro _ rest rfl
  exact ⟨[_], rfl, hf rest rfl⟩

theorem stalls_expectName_bind {f : String → Parser β} (h : W [])
    (hf : ∀ name rest, ts = .name name :: rest →
      Stalls (f name) rest fun us => W (.name name :: us)) :
    Stalls (expectName >>= f) ts W := by
  refine (stalls_expectBy h).bind reads_expectName ?_
  rintro name rest rfl
  exact ⟨[_], rfl, hf name rest rfl⟩

theorem stalls_afterMark {m : Mark} {next : Parser α} (h : W [])
    (hnext : ∀ mid, ts = .mark m :: mid → Stalls next mid fun us => W (.mark m :: us)) :
    Stalls (afterMark m next) ts W := by
  refine stalls_isAtMark_bind h (fun mid hts => ?_) fun _ => stalls_pure _ _ _
  subst hts
  exact stalls_advance_bind ((hnext mid rfl).map some)

/-! ## Loops -/

/-- What is read by a loop with steps in the relation `R` satisfies `V`, turn by turn.  Where the
outlook is `ts` it is to satisfy `V ts`. -/
structure Carries (R : List Token → Option α → List Token → Prop)
    (V : List Token → List Token → Prop) : Prop where
  stop : ∀ ⦃ts rest : List Token⦄, R ts none rest → ∃ us, ts = us ++ rest ∧ V ts us
  more : ∀ ⦃ts mid : List Token⦄ ⦃a : α⦄, R ts (some a) mid →
    ∃ us, ts = us ++ mid ∧ ∀ vs, V mid vs → V ts (us ++ vs)

section Loops

variable {step : Parser (Option α)} {R : List Token → Option α → List Token → Prop}
  {V : List Token → List Token → Prop}

/-- What a loop has read when it is over. -/
theorem Carries.exists_read (hV : Carries R V) {as : List α} (h : Repeats R ts as rest) :
    ∃ us, ts = us ++ rest ∧ V ts us := by
  induction h with
  | stop hstop => exact hV.stop hstop
  | more hfirst _ _ ih =>
    obtain ⟨us, rfl, hus⟩ := hV.more hfirst
    obtain ⟨vs, rfl, hvs⟩ := ih
    exact ⟨us ++ vs, by rw [List.append_assoc], hus vs hvs⟩

/-- What a loop has read when it fails: what its turns have found, and what the last of them had
read. -/
theorem stalls_manyUpTo (hV : Carries R V) (hreads : Reads step R)
    (hstep : ∀ ts, Stalls step ts (V ts)) (fuel : Nat) (ts : List Token) :
    Stalls (manyUpTo step fuel) ts (V ts) := by
  induction fuel generalizing ts with
  | zero => exact stalls_pure _ _ _
  | succ fuel ih =>
    refine (hstep ts).bind hreads fun found mid hread => ?_
    cases found with
    | none =>
      obtain ⟨us, hts, _⟩ := hV.stop hread
      exact ⟨us, hts, stalls_pure _ _ _⟩
    | some a =>
      obtain ⟨us, hts, hus⟩ := hV.more hread
      exact ⟨us, hts, ((ih mid).mono hus).bind_pure _⟩

theorem stalls_many (hV : Carries R V) (hreads : Reads step R)
    (hstep : ∀ ts, Stalls step ts (V ts)) (ts : List Token) : Stalls (many step) ts (V ts) := by
  refine (hstep ts).bind hreads fun found mid hread => ?_
  cases found with
  | none =>
    obtain ⟨us, hts, _⟩ := hV.stop hread
    exact ⟨us, hts, stalls_pure _ _ _⟩
  | some a =>
    obtain ⟨us, hts, hus⟩ := hV.more hread
    refine ⟨us, hts, fun c c' ending e hc hrun hdeep => ?_⟩
    have hloop := (stalls_manyUpTo hV hreads hstep (c.size + 1) mid).mono hus
    exact hloop.bind_pure (a :: ·) hc hrun hdeep

/-- A loop, and what follows when it is over. -/
theorem stalls_many_bind {f : List α → Parser β} (hV : Carries R V) (hreads : Reads step R)
    (hless : ∀ ⦃ts a mid⦄, R ts (some a) mid → mid.length < ts.length)
    (hstep : ∀ ts, Stalls step ts (V ts)) (hW : ∀ us, V ts us → W us)
    (hf : ∀ as us rest, V ts us → Stalls (f as) rest fun vs => W (us ++ vs)) :
    Stalls (many step >>= f) ts W := by
  refine ((stalls_many hV hreads hstep ts).mono hW).bind (reads_many hreads hless) ?_
  intro as rest hrepeats
  obtain ⟨us, hts, hus⟩ := hV.exists_read hrepeats
  exact ⟨us, hts, hf as us rest hus⟩

end Loops

theorem stalls_skipSemicolons_bind {f : Unit → Parser β} (h : ∀ count, W (semicolons count))
    (hf : ∀ count rest, ts = semicolons count ++ rest →
      Stalls (f ()) rest fun us => W (semicolons count ++ us)) :
    Stalls (skipSemicolons >>= f) ts W := by
  have hcarries : Carries (AfterMark .semicolon fun ts (_ : Unit) rest => rest = ts)
      fun _ us => ∃ count, us = semicolons count := by
    constructor
    · rintro ts rest ⟨_, rfl⟩
      exact ⟨[], rfl, 0, rfl⟩
    · rintro ts mid a ⟨left, rfl, rfl⟩
      refine ⟨[_], rfl, ?_⟩
      rintro vs ⟨count, rfl⟩
      exact ⟨count + 1, rfl⟩
  have hloop := stalls_many hcarries (reads_afterMark .semicolon reads_unit)
    (fun ts => stalls_afterMark ⟨0, rfl⟩ fun mid _ => stalls_pure _ _ _) ts
  have hskip : Stalls skipSemicolons ts W := by
    refine (hloop.mono ?_).bind_pure _
    rintro us ⟨count, rfl⟩
    exact h count
  refine hskip.bind reads_skipSemicolons ?_
  rintro _ rest ⟨count, rfl, _⟩
  exact ⟨_, rfl, hf count rest rfl⟩

end Parser
end Scriptlet
