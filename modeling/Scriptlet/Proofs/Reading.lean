import Scriptlet.Proofs.Grammar
import Scriptlet.Proofs.Outlook

/-!
# What a parser reads

Two ways to say what a parser does to the outlook of the cursor it starts at.

`Reads p R` looks back from a success: whenever `p` answers, the outlook before, the answer and the
outlook behind are in the relation `R`.  It says nothing about when `p` succeeds, and it holds
whatever comes behind the last token.

`Gives deep p ts a rest` looks forward: from every cursor with the outlook `ts` and no error at its
end, `p` answers `a` and leaves `rest`.  A parser that has a budget may not get that far; where
`deep` allows it, it may fail for the nesting instead.  With `deep` false the budget was enough, and
with `deep` true nothing is said about the budget; a rule is shown to be complete once for both.

Both are closed under putting steps one after the other, so that a rule of the grammar is taken
apart and put together step by step.  For loops there is `Repeats`, the relation between the
outlooks at both ends of a loop, made from the relation of its step.  What a step finds takes at
least one token; therefore the fuel of a loop never runs out.
-/

namespace Scriptlet
namespace Parser

open Grammar (semicolons)

variable {α β : Type} {c c' : Cursor} {ts mid rest : List Token} {ending : Option ReadError}

/-! ## Looking back -/

/-- When the parser succeeds, the outlook before, the answer and the outlook behind are in the
relation. -/
def Reads (p : Parser α) (R : List Token → α → List Token → Prop) : Prop :=
  ∀ ⦃c c' : Cursor⦄ ⦃ts : List Token⦄ ⦃ending : Option ReadError⦄ ⦃a : α⦄,
    c.Holds ts ending → p c = .ok a c' → ∃ rest, R ts a rest ∧ c'.Holds rest ending

/-- Takes the first step off a parser that succeeded. -/
theorem Reads.of_bind {p : Parser α} {f : α → Parser β} {R : List Token → α → List Token → Prop}
    {b : β} (hR : Reads p R) (h : c.Holds ts ending) (hp : (p >>= f) c = .ok b c') :
    ∃ a mid c₁, R ts a mid ∧ c₁.Holds mid ending ∧ f a c₁ = .ok b c' := by
  obtain ⟨a, c₁, hfirst, hrest⟩ := exists_of_bind_eq_ok hp
  obtain ⟨mid, hread, h₁⟩ := hR h hfirst
  exact ⟨a, mid, c₁, hread, h₁, hrest⟩

theorem reads_unit : Reads (pure () : Parser Unit) fun ts _ rest => rest = ts := by
  intro c c' ts ending a h hp
  obtain ⟨_, rfl⟩ := eq_of_pure_eq_ok hp
  exact ⟨ts, rfl, h⟩

theorem reads_peekAhead (ahead : Nat) :
    Reads (peekAhead ahead) fun ts next rest => next = ts[ahead]? ∧ rest = ts := by
  intro c c' ts ending next h hp
  rcases peekAhead_cases ahead h with ⟨c₁, hpeek, h₁⟩ | ⟨e, c₁, hpeek, _⟩
  · rw [hpeek] at hp
    obtain ⟨rfl, rfl⟩ : ts[ahead]? = next ∧ c₁ = c' := by simpa using hp
    exact ⟨ts, ⟨rfl, rfl⟩, h₁⟩
  · rw [hpeek] at hp
    cases hp

theorem reads_peek : Reads peek fun ts next rest => next = ts.head? ∧ rest = ts := by
  intro c c' ts ending next h hp
  obtain ⟨rest, ⟨rfl, rfl⟩, h₁⟩ := reads_peekAhead 0 h hp
  exact ⟨rest, ⟨List.head?_eq_getElem?.symm, rfl⟩, h₁⟩

theorem map_kind_eq_mark_iff (next : Option Token) (m : Mark) :
    (next.map Token.kind == some (.mark m)) = true ↔ next = some (.mark m) := by
  cases next with
  | none => simp
  | some t => cases t <;> simp [Token.kind]

theorem reads_isAtMark (m : Mark) :
    Reads (isAtMark m) fun ts b rest => (b = true ↔ ts.head? = some (.mark m)) ∧ rest = ts := by
  intro c c' ts ending b h hp
  obtain ⟨next, mid, c₁, ⟨rfl, rfl⟩, h₁, hp⟩ := reads_peek.of_bind h hp
  obtain ⟨rfl, rfl⟩ := eq_of_pure_eq_ok hp
  exact ⟨_, ⟨map_kind_eq_mark_iff _ m, rfl⟩, h₁⟩

theorem reads_advance : Reads advance fun ts token rest => ts = token :: rest := by
  intro c c' ts ending token h hp
  cases ts with
  | nil => exact absurd hp (advance_ne_ok h)
  | cons t ts =>
    obtain ⟨c₁, hadvance, h₁⟩ := advance_cases h
    rw [hadvance] at hp
    obtain ⟨rfl, rfl⟩ : t = token ∧ c₁ = c' := by simpa using hp
    exact ⟨ts, rfl, h₁⟩

theorem reads_expectBy (kind : Token.Kind) (accept : Token → Option α) :
    Reads (expectBy kind accept) fun ts a rest =>
      ∃ token, ts = token :: rest ∧ accept token = some a := by
  intro c c' ts ending a h hp
  obtain ⟨next, mid, c₁, ⟨rfl, rfl⟩, h₁, hp⟩ := reads_peek.of_bind h hp
  cases mid with
  | nil => exact absurd hp fail_ne_ok
  | cons t mid =>
    simp only [List.head?_cons, Option.bind_some] at hp
    cases haccept : accept t with
    | none =>
      simp only [haccept] at hp
      exact absurd hp fail_ne_ok
    | some b =>
      simp only [haccept] at hp
      obtain ⟨t', rest, c₂, hcons, h₂, hp⟩ := reads_advance.of_bind h₁ hp
      obtain ⟨rfl, rfl⟩ := eq_of_pure_eq_ok hp
      obtain ⟨rfl, rfl⟩ := List.cons.inj hcons
      exact ⟨mid, ⟨t, rfl, haccept⟩, h₂⟩

theorem reads_expectMark (m : Mark) :
    Reads (expectMark m) fun ts _ rest => ts = .mark m :: rest := by
  intro c c' ts ending a h hp
  obtain ⟨t, mid, c₁, ⟨token, rfl, haccept⟩, h₁, hp⟩ := (reads_expectBy _ _).of_bind h hp
  obtain ⟨_, rfl⟩ := eq_of_pure_eq_ok hp
  refine ⟨mid, ?_, h₁⟩
  cases token <;> simp [Token.kind] at haccept
  rw [haccept.1]

theorem reads_expectName : Reads expectName fun ts name rest => ts = .name name :: rest := by
  intro c c' ts ending name h hp
  obtain ⟨rest, ⟨token, rfl, haccept⟩, h₁⟩ := reads_expectBy _ _ h hp
  refine ⟨rest, ?_, h₁⟩
  cases token <;> simp at haccept
  rw [haccept]

/-- Reading on behind a mark: the mark is not next and nothing happens, or it is consumed. -/
def AfterMark (m : Mark) (R : List Token → α → List Token → Prop) (ts : List Token) :
    Option α → List Token → Prop
  | none, rest => ts.head? ≠ some (.mark m) ∧ rest = ts
  | some a, rest => ∃ mid, ts = .mark m :: mid ∧ R mid a rest

theorem reads_afterMark (m : Mark) {next : Parser α} {R : List Token → α → List Token → Prop}
    (hnext : Reads next R) : Reads (afterMark m next) (AfterMark m R) := by
  intro c c' ts ending o h hp
  obtain ⟨b, mid, c₁, ⟨hb, rfl⟩, h₁, hp⟩ := (reads_isAtMark m).of_bind h hp
  cases b with
  | false =>
    obtain ⟨rfl, rfl⟩ := eq_of_pure_eq_ok hp
    exact ⟨mid, ⟨fun hmark => absurd (hb.mpr hmark) (by simp), rfl⟩, h₁⟩
  | true =>
    obtain ⟨t, left, c₂, rfl, h₂, hp⟩ := reads_advance.of_bind h₁ hp
    obtain ⟨a, hlast, rfl⟩ := exists_of_map_eq_ok hp
    obtain ⟨rest, hread, h₃⟩ := hnext h₂ hlast
    have ht : t = .mark m := by simpa using hb.mp rfl
    exact ⟨rest, ⟨left, by rw [ht], hread⟩, h₃⟩

/-! ## Loops -/

/-- The outlooks before and behind a loop, and what its steps found. -/
inductive Repeats (R : List Token → Option α → List Token → Prop) :
    List Token → List α → List Token → Prop
  | stop {ts rest : List Token} : R ts none rest → Repeats R ts [] rest
  | more {ts mid rest : List Token} {a : α} {as : List α} :
    R ts (some a) mid → mid.length < ts.length → Repeats R mid as rest →
    Repeats R ts (a :: as) rest

section Loops

variable {step : Parser (Option α)} {R : List Token → Option α → List Token → Prop}

theorem reads_manyUpTo (hstep : Reads step R)
    (hless : ∀ ⦃ts a mid⦄, R ts (some a) mid → mid.length < ts.length) {as : List α} (fuel : Nat)
    (hfuel : ts.length < fuel) (h : c.Holds ts ending) (hp : manyUpTo step fuel c = .ok as c') :
    ∃ rest, Repeats R ts as rest ∧ c'.Holds rest ending := by
  induction fuel generalizing c ts as with
  | zero => omega
  | succ fuel ih =>
    obtain ⟨o, mid, c₁, hfirst, h₁, hp⟩ := hstep.of_bind h hp
    cases o with
    | none =>
      obtain ⟨rfl, rfl⟩ := eq_of_pure_eq_ok hp
      exact ⟨mid, .stop hfirst, h₁⟩
    | some a =>
      obtain ⟨as, c₂, hloop, hp⟩ := exists_of_bind_eq_ok hp
      obtain ⟨rfl, rfl⟩ := eq_of_pure_eq_ok hp
      have hlt := hless hfirst
      obtain ⟨rest, hrest, h₂⟩ := ih (by omega) h₁ hloop
      exact ⟨rest, .more hfirst hlt hrest, h₂⟩

theorem reads_many (hstep : Reads step R)
    (hless : ∀ ⦃ts a mid⦄, R ts (some a) mid → mid.length < ts.length) :
    Reads (many step) (Repeats R) := by
  intro c c' ts ending as h hp
  obtain ⟨o, mid, c₁, hfirst, h₁, hp⟩ := hstep.of_bind h hp
  cases o with
  | none =>
    obtain ⟨rfl, rfl⟩ := eq_of_pure_eq_ok hp
    exact ⟨mid, .stop hfirst, h₁⟩
  | some a =>
    obtain ⟨as, c₂, hloop, hp⟩ := exists_of_bind_eq_ok (p := manyUpTo step (c₁.size + 1)) hp
    obtain ⟨rfl, rfl⟩ := eq_of_pure_eq_ok hp
    -- the tokens left after the first time bound the times that follow
    have hfuel : mid.length < c₁.size + 1 := Nat.lt_succ_of_le h₁.length_le_size
    obtain ⟨rest, hrest, h₂⟩ := reads_manyUpTo hstep hless _ hfuel h₁ hloop
    exact ⟨rest, .more hfirst (hless hfirst) hrest, h₂⟩

end Loops

theorem reads_skipSemicolons : Reads skipSemicolons fun ts _ rest =>
    ∃ count, ts = semicolons count ++ rest ∧ rest.head? ≠ some (.mark .semicolon) := by
  have hloop := reads_many (reads_afterMark .semicolon reads_unit) (by
    rintro ts a mid ⟨left, rfl, rfl⟩
    exact Nat.lt_succ_self _)
  intro c c' ts ending a h hp
  obtain ⟨found, rest, c₁, hfound, h₁, hp⟩ := hloop.of_bind h hp
  obtain ⟨_, rfl⟩ := eq_of_pure_eq_ok hp
  refine ⟨rest, ?_, h₁⟩
  clear h h₁ hp
  induction hfound with
  | stop hstop => exact ⟨0, hstop.2.symm, hstop.2 ▸ hstop.1⟩
  | more hfirst _ _ ih =>
    obtain ⟨left, rfl, rfl⟩ := hfirst
    obtain ⟨count, rfl, hrest⟩ := ih
    exact ⟨count + 1, rfl, hrest⟩

/-! ## Looking forward -/

/-- From every cursor with that outlook and no error behind it, the parser answers `a` and leaves
`rest`, unless it may and does fail for the nesting. -/
def Gives (deep : Prop) (p : Parser α) (ts : List Token) (a : α) (rest : List Token) : Prop :=
  ∀ ⦃c : Cursor⦄, c.Holds ts none →
    (∃ c', p c = .ok a c' ∧ c'.Holds rest none) ∨
    (deep ∧ ∃ position c', p c = .error (.nestedTooDeeply position) c')

section Forward

variable {deep : Prop} {p : Parser α} {a : α}

theorem gives_pure (a : α) (ts : List Token) : Gives deep (pure a : Parser α) ts a ts :=
  fun c h => Or.inl ⟨c, rfl, h⟩

/-- Puts a step before another. -/
theorem Gives.bind {f : α → Parser β} {b : β} (hp : Gives deep p ts a mid)
    (hf : Gives deep (f a) mid b rest) : Gives deep (p >>= f) ts b rest := by
  intro c h
  rcases hp h with ⟨c₁, hfirst, h₁⟩ | ⟨hdeep, position, c₁, hfirst⟩
  · rw [bind_of_ok hfirst]
    exact hf h₁
  · exact Or.inr ⟨hdeep, position, c₁, bind_of_error hfirst f⟩

theorem Gives.map (f : α → β) (hp : Gives deep p ts a rest) :
    Gives deep (f <$> p) ts (f a) rest := by
  rw [map_eq_pure_bind]
  exact hp.bind (gives_pure _ _)

theorem gives_peekAhead (ahead : Nat) (ts : List Token) :
    Gives deep (peekAhead ahead) ts ts[ahead]? ts := by
  intro c h
  rcases peekAhead_cases ahead h with hpeek | ⟨e, c₁, _, hending, _⟩
  · exact Or.inl hpeek
  · cases hending

theorem gives_peek (ts : List Token) : Gives deep peek ts ts.head? ts := by
  rw [List.head?_eq_getElem?]
  exact gives_peekAhead 0 ts

theorem gives_isAtMark_true (m : Mark) (ts : List Token) :
    Gives deep (isAtMark m) (.mark m :: ts) true (.mark m :: ts) := by
  refine (gives_peek _).bind ?_
  rw [(map_kind_eq_mark_iff _ m).mpr List.head?_cons]
  exact gives_pure _ _

theorem gives_isAtMark_false {m : Mark} (h : ts.head? ≠ some (.mark m)) :
    Gives deep (isAtMark m) ts false ts := by
  refine (gives_peek _).bind ?_
  rw [Bool.eq_false_iff.mpr fun hat => h ((map_kind_eq_mark_iff _ m).mp hat)]
  exact gives_pure _ _

theorem gives_advance (token : Token) (ts : List Token) :
    Gives deep advance (token :: ts) token ts :=
  fun _ h => Or.inl (advance_cases h)

theorem gives_expectMark (m : Mark) (ts : List Token) :
    Gives deep (expectMark m) (.mark m :: ts) () ts := by
  have hexpect : Gives deep (expect (.mark m)) (.mark m :: ts) (.mark m) ts := by
    refine (gives_peek _).bind ?_
    simp only [List.head?_cons, Option.bind_some, Token.kind, if_true]
    exact (gives_advance _ _).bind (gives_pure _ _)
  exact hexpect.bind (gives_pure _ _)

theorem gives_expectName (name : String) (ts : List Token) :
    Gives deep expectName (.name name :: ts) name ts := by
  refine (gives_peek _).bind ?_
  simp only [List.head?_cons, Option.bind_some]
  exact (gives_advance _ _).bind (gives_pure _ _)

theorem gives_afterMark_none {m : Mark} (p : Parser α) (h : ts.head? ≠ some (.mark m)) :
    Gives deep (afterMark m p) ts none ts :=
  (gives_isAtMark_false h).bind (gives_pure _ _)

theorem gives_afterMark_some (m : Mark) (hp : Gives deep p ts a rest) :
    Gives deep (afterMark m p) (.mark m :: ts) (some a) rest :=
  (gives_isAtMark_true m ts).bind ((gives_advance _ _).bind (hp.map some))

theorem gives_manyUpTo {step : Parser (Option α)} {as : List α}
    (hloop : Repeats (Gives deep step) ts as rest) (fuel : Nat) (hfuel : ts.length < fuel) :
    Gives deep (manyUpTo step fuel) ts as rest := by
  induction hloop generalizing fuel with
  | stop hstop =>
    obtain ⟨fuel, rfl⟩ := Nat.exists_eq_add_one_of_ne_zero (Nat.ne_of_gt (Nat.zero_lt_of_lt hfuel))
    exact hstop.bind (gives_pure _ _)
  | more hfirst hless _ ih =>
    obtain ⟨fuel, rfl⟩ := Nat.exists_eq_add_one_of_ne_zero (Nat.ne_of_gt (Nat.zero_lt_of_lt hfuel))
    exact hfirst.bind ((ih fuel (by omega)).bind (gives_pure _ _))

theorem gives_many {step : Parser (Option α)} {as : List α}
    (hloop : Repeats (Gives deep step) ts as rest) : Gives deep (many step) ts as rest := by
  cases hloop with
  | stop hstop => exact hstop.bind (gives_pure _ _)
  | @more _ _ _ a as hfirst _ hrest =>
    refine hfirst.bind fun c h => ?_
    have hfuel := Nat.lt_succ_of_le h.length_le_size
    exact (gives_manyUpTo hrest _ hfuel).bind (gives_pure (a :: as) _) h

theorem gives_skipSemicolons (count : Nat) (h : rest.head? ≠ some (.mark .semicolon)) :
    Gives deep skipSemicolons (semicolons count ++ rest) () rest := by
  have hloop : ∃ found, Repeats (Gives deep (afterMark .semicolon (pure ())))
      (semicolons count ++ rest) found rest := by
    induction count with
    | zero => exact ⟨[], .stop (gives_afterMark_none _ h)⟩
    | succ count ih =>
      obtain ⟨found, hfound⟩ := ih
      exact ⟨() :: found,
        .more (gives_afterMark_some _ (gives_pure _ _)) (Nat.lt_succ_self _) hfound⟩
  obtain ⟨found, hfound⟩ := hloop
  exact (gives_many hfound).bind (gives_pure _ _)

end Forward

/-! ## Answers are determined -/

/-- What a parser gives is all that it gives. -/
theorem Gives.unique {p : Parser α} {a a' : α} {rest' : List Token}
    (h : Gives False p ts a rest) (h' : Gives False p ts a' rest') : a = a' ∧ rest = rest' := by
  obtain ⟨c, hc⟩ := Cursor.exists_of_tokens ts
  obtain ⟨c₁, hp, h₁⟩ := (h hc).resolve_right fun hdeep => hdeep.1
  obtain ⟨c₂, hp', h₂⟩ := (h' hc).resolve_right fun hdeep => hdeep.1
  rw [hp] at hp'
  obtain ⟨rfl, rfl⟩ : a = a' ∧ c₁ = c₂ := by simpa using hp'
  exact ⟨rfl, (h₁.unique h₂).1⟩

end Parser
end Scriptlet
