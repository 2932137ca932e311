import Scriptlet.Proofs.Places

/-!
# No parser looks beyond the token it stops at

Where a parser stops, whether with an answer or at a token that cannot stand there, depends on the
tokens up to that one and on nothing behind it.  Put differently: if the outlook is changed behind
that token, the parser does the same again.

`Local p` compares two cursors whose outlooks begin alike, with `v ++ w`.  If on the first of them
`p` stops in front of `w`, it does so on the second as well.  The property passes through steps one
after the other, since a parser can only go forward: where two steps stop in front of `w`, the first
of them has stopped in front of `w` or before.

## Loops

A loop takes its fuel from the size of the cursor, and so from the whole outlook.  The fuel never
runs out, and it is shown that any two amounts that do not run out lead to the same.

## The second token of a statement

A statement that begins with a name is the exception, because there two tokens are looked at.  But
no expression stops at a name that it begins with (`PassesName`); so where a statement stops, the
token behind the name lies before that place or is that token itself.
-/

namespace Scriptlet
namespace Parser

variable {α β : Type} {c c' c₂ : Cursor} {ts v w r r₂ : List Token} {ending : Option ReadError}

/-! ## Two runs -/

/-- If the first run stops in front of `w`, so does the second. -/
structure Follows (w r r₂ : List Token) (ending : Option ReadError)
    (x y : EStateM.Result ReadError Cursor α) : Prop where
  ok : ∀ ⦃a : α⦄ ⦃c' : Cursor⦄, x = .ok a c' → c'.Holds (w ++ r) ending →
    ∃ c₂, y = .ok a c₂ ∧ c₂.Holds (w ++ r₂) none
  wrong : ∀ ⦃cause : ReadError.Cause⦄ ⦃position : Nat⦄ ⦃c' : Cursor⦄,
    x = .error (.grammar cause position) c' → c'.Holds (w ++ r) ending →
    ∃ cause₂ position₂ c₂, y = .error (.grammar cause₂ position₂) c₂

/-- What the parser does does not depend on what lies behind the token it stops at. -/
def Local (p : Parser α) : Prop :=
  ∀ ⦃v w r r₂ : List Token⦄ ⦃ending : Option ReadError⦄ ⦃c c₂ : Cursor⦄, w ≠ [] →
    c.Holds (v ++ (w ++ r)) ending → c₂.Holds (v ++ (w ++ r₂)) none →
    Follows w r r₂ ending (p c) (p c₂)

/-- A place between two others. -/
theorem exists_split {mid s : List Token} (hmid : mid <:+ v ++ s) (hs : s <:+ mid) :
    ∃ v₁ v₂, v = v₁ ++ v₂ ∧ mid = v₂ ++ s := by
  obtain ⟨v₂, rfl⟩ := hs
  obtain ⟨v₁, hv⟩ := hmid
  rw [← List.append_assoc] at hv
  exact ⟨v₁, v₂, (List.append_cancel_right hv).symm, rfl⟩

/-- Two steps: the first stops in front of what the second has taken off and `w`. -/
theorem Follows.bind {p q : Parser α} {f g : α → Parser β} (hp : Placed p)
    (hf : ∀ a, Placed (f a)) (hc : c.Holds (v ++ (w ++ r)) ending)
    (hfirst : ∀ v₁ v₂, v = v₁ ++ v₂ → Follows (v₂ ++ w) r r₂ ending (p c) (q c₂))
    (hnext : ∀ ⦃a c' c₂' v₁ v₂⦄, v = v₁ ++ v₂ → p c = .ok a c' →
      c'.Holds (v₂ ++ (w ++ r)) ending → c₂'.Holds (v₂ ++ (w ++ r₂)) none →
      Follows w r r₂ ending (f a c') (g a c₂')) :
    Follows w r r₂ ending ((p >>= f) c) ((q >>= g) c₂) := by
  -- where the first step succeeds, both runs reach the same place in between
  have hbetween : ∀ ⦃a : α⦄ ⦃mid : Cursor⦄ ⦃m : List Token⦄, p c = .ok a mid →
      mid.Holds m ending → w ++ r <:+ m →
      ∃ mid₂, q c₂ = .ok a mid₂ ∧ Follows w r r₂ ending (f a mid) (g a mid₂) := by
    intro a mid m hok hm hrest
    obtain ⟨m', hsuffix, hm'⟩ := hp.suffix_of_ok hc hok
    obtain ⟨rfl, _⟩ := hm.unique hm'
    obtain ⟨v₁, v₂, hv, rfl⟩ := exists_split hsuffix hrest
    obtain ⟨mid₂, hok₂, hm₂⟩ := (hfirst v₁ v₂ hv).ok hok (by rwa [List.append_assoc])
    rw [List.append_assoc] at hm₂
    exact ⟨mid₂, hok₂, hnext hv hok hm hm₂⟩
  refine ⟨fun b c' hrun hc' => ?_, fun cause position c' hrun hc' => ?_⟩
  · obtain ⟨a, mid, hok, hrest⟩ := exists_of_bind_eq_ok hrun
    obtain ⟨m, _, hm⟩ := hp.suffix_of_ok hc hok
    obtain ⟨rest, hsuffix, hrest'⟩ := (hf a).suffix_of_ok hm hrest
    obtain ⟨rfl, _⟩ := hc'.unique hrest'
    obtain ⟨mid₂, hok₂, hfollows⟩ := hbetween hok hm hsuffix
    rw [bind_of_ok hok₂]
    exact hfollows.ok hrest hc'
  · rcases cases_of_bind_eq_error hrun with hwrong | ⟨a, mid, hok, hrest⟩
    · obtain ⟨cause₂, position₂, c₂', hwrong₂⟩ :=
        (hfirst v [] (List.append_nil v).symm).wrong hwrong hc'
      exact ⟨cause₂, position₂, c₂', bind_of_error hwrong₂ g⟩
    · obtain ⟨m, _, hm⟩ := hp.suffix_of_ok hc hok
      obtain ⟨rest, hsuffix, hrest'⟩ := (hf a).suffix_of_error hm hrest (hc.ending_ne_grammar _ _)
      obtain ⟨rfl, _⟩ := hc'.unique hrest'
      obtain ⟨mid₂, hok₂, hfollows⟩ := hbetween hok hm hsuffix
      rw [bind_of_ok hok₂]
      exact hfollows.wrong hrest hc'

/-- The first of two steps stops in front of what is left of `v` and `w`. -/
theorem Local.follows {p : Parser α} (hlocal : Local p) (hw : w ≠ [])
    (hc : c.Holds (v ++ (w ++ r)) ending) (hc₂ : c₂.Holds (v ++ (w ++ r₂)) none)
    (v₁ v₂ : List Token) (hv : v = v₁ ++ v₂) : Follows (v₂ ++ w) r r₂ ending (p c) (p c₂) := by
  subst hv
  rw [List.append_assoc, ← List.append_assoc v₂] at hc hc₂
  exact hlocal (by simp [hw]) hc hc₂

theorem Local.bind {p : Parser α} {f : α → Parser β} (hp : Placed p) (hf : ∀ a, Placed (f a))
    (hlocal : Local p) (hnext : ∀ a, Local (f a)) : Local (p >>= f) := by
  intro v w r r₂ ending c c₂ hw hc hc₂
  exact Follows.bind hp hf hc (hlocal.follows hw hc hc₂) fun a c' c₂' v₁ v₂ _ _ hc' hc₂' =>
    hnext a hw hc' hc₂'

/-! ## Primitives -/

theorem local_pure (a : α) : Local (pure a : Parser α) := by
  intro v w r r₂ ending c c₂ hw hc hc₂
  refine ⟨fun b c' hrun hc' => ?_, fun cause position c' hrun _ => nomatch hrun⟩
  obtain ⟨rfl, rfl⟩ := eq_of_pure_eq_ok hrun
  obtain rfl : v = [] := List.self_eq_append_left.mp (hc'.unique hc).1
  exact ⟨c₂, rfl, hc₂⟩

theorem local_tooDeep : Local (tooDeep : Parser α) := fun _ _ _ _ _ _ _ _ _ _ =>
  ⟨fun _ _ hrun _ => (nomatch hrun), fun _ _ _ hrun _ => (nomatch hrun)⟩

/-- What lies that far ahead is the same before both cursors. -/
theorem getElem?_common {ahead : Nat} (h : ahead < (v ++ w).length) (r : List Token) :
    (v ++ (w ++ r))[ahead]? = (v ++ w)[ahead]? := by
  rw [← List.append_assoc, List.getElem?_append_left h]

/-- Looking ahead, as long as what is looked at is common. -/
theorem peekAhead_common {ahead : Nat} (h : ahead < (v ++ w).length)
    (hc : c.Holds (v ++ (w ++ r)) ending) :
    ∃ c', peekAhead ahead c = .ok (v ++ w)[ahead]? c' ∧ c'.Holds (v ++ (w ++ r)) ending := by
  rcases peekAhead_cases ahead hc with ⟨c', hpeek, hc'⟩ | ⟨e, c', _, _, hshort⟩
  · rw [getElem?_common h] at hpeek
    exact ⟨c', hpeek, hc'⟩
  · rw [← List.append_assoc, List.length_append] at hshort
    omega

theorem local_peek : Local peek := by
  intro v w r r₂ ending c c₂ hw hc hc₂
  have hlength : 0 < (v ++ w).length := List.length_pos_of_ne_nil (by simp [hw])
  obtain ⟨c₁, hpeek, hc₁⟩ := peekAhead_common hlength hc
  obtain ⟨c₃, hpeek₂, hc₃⟩ := peekAhead_common hlength hc₂
  refine ⟨fun next c' hrun hc' => ?_, fun cause position c' hrun _ => ?_⟩
  · rw [peek, hpeek] at hrun
    obtain ⟨rfl, rfl⟩ : (v ++ w)[0]? = next ∧ c₁ = c' := by simpa using hrun
    obtain rfl : v = [] := List.self_eq_append_left.mp (hc'.unique hc₁).1
    exact ⟨c₃, hpeek₂, hc₃⟩
  · rw [peek, hpeek] at hrun
    cases hrun

theorem local_advance : Local advance := by
  intro v w r r₂ ending c c₂ hw hc hc₂
  obtain ⟨t, w', rfl⟩ := List.exists_cons_of_ne_nil hw
  cases v with
  | nil =>
    -- a token is taken off, so that no cursor is left in front of it
    have hfront : c.Holds (t :: (w' ++ r)) ending := hc
    obtain ⟨c₁, hadvance, hc₁⟩ := advance_cases hfront
    refine ⟨fun token c' hrun hc' => ?_, fun cause position c' hrun _ => ?_⟩
    · rw [hadvance] at hrun
      obtain ⟨_, rfl⟩ : t = token ∧ c₁ = c' := by simpa using hrun
      have hlength := congrArg List.length (hc'.unique hc₁).1
      simp at hlength
    · rw [hadvance] at hrun
      cases hrun
  | cons t' v =>
    rw [List.cons_append] at hc hc₂
    obtain ⟨c₁, hadvance, hc₁⟩ := advance_cases hc
    obtain ⟨c₃, hadvance₂, hc₃⟩ := advance_cases hc₂
    refine ⟨fun token c' hrun hc' => ?_, fun cause position c' hrun _ => ?_⟩
    · rw [hadvance] at hrun
      obtain ⟨rfl, rfl⟩ : t' = token ∧ c₁ = c' := by simpa using hrun
      obtain rfl : v = [] := List.self_eq_append_left.mp (hc'.unique hc₁).1
      exact ⟨c₃, hadvance₂, hc₃⟩
    · rw [hadvance] at hrun
      cases hrun

theorem local_fail (cause : ReadError.Cause) : Local (fail cause : Parser α) := by
  intro v w r r₂ ending c c₂ hw hc hc₂
  refine ⟨fun a c' hrun _ => absurd hrun fail_ne_ok, fun _ _ _ _ _ => ?_⟩
  rcases fill_cases 1 hc₂ with ⟨c₃, hfill, _⟩ | ⟨e, c₃, _, hending, _⟩
  · exact ⟨cause, _, c₃, bind_of_ok (position_of_fill hfill) _⟩
  · cases hending

/-! ## Loops -/

section Loops

variable {step : Parser (Option α)} {R : List Token → Option α → List Token → Prop}

/-- Loops with fuel enough do the same, whatever the fuel. -/
theorem follows_manyUpTo (hplaced : Placed step) (hlocal : Local step) (hreads : Reads step R)
    (hless : ∀ ⦃ts a mid⦄, R ts (some a) mid → mid.length < ts.length) {fuel fuel₂ : Nat}
    (hw : w ≠ []) (hc : c.Holds (v ++ (w ++ r)) ending) (hc₂ : c₂.Holds (v ++ (w ++ r₂)) none)
    (hfuel : (v ++ (w ++ r)).length < fuel) (hfuel₂ : (v ++ (w ++ r₂)).length < fuel₂) :
    Follows w r r₂ ending (manyUpTo step fuel c) (manyUpTo step fuel₂ c₂) := by
  induction fuel generalizing fuel₂ v w c c₂ with
  | zero => omega
  | succ fuel ih =>
    obtain ⟨fuel₂, rfl⟩ := Nat.exists_eq_add_one_of_ne_zero (by omega : fuel₂ ≠ 0)
    refine Follows.bind hplaced (fun found => ?_) hc (hlocal.follows hw hc hc₂)
      fun found c' c₂' v₁ v₂ hv hrun hc' hc₂' => ?_
    · cases found with
      | none => exact placed_pure []
      | some a => exact (placed_manyUpTo hplaced fuel).bind fun as => placed_pure _
    · cases found with
      | none => exact local_pure [] hw hc' hc₂'
      | some a =>
        -- what was found took a token, and so the fuel that is left is enough
        obtain ⟨rest, hread, hrest⟩ := hreads hc hrun
        obtain ⟨rfl, _⟩ := hc'.unique hrest
        have hshorter := hless hread
        subst hv
        refine Follows.bind (placed_manyUpTo hplaced fuel) (fun as => placed_pure _) hc'
          (fun u₁ u₂ hu => ?_) fun as c'' c₂'' u₁ u₂ _ _ hc'' hc₂'' => local_pure _ hw hc'' hc₂''
        subst hu
        rw [List.append_assoc, ← List.append_assoc u₂] at hc' hc₂'
        simp only [List.length_append] at hshorter hfuel hfuel₂
        refine ih (by simp [hw]) hc' hc₂' ?_ ?_
        · simp only [List.length_append]
          omega
        · simp only [List.length_append]
          omega

theorem local_many (hplaced : Placed step) (hlocal : Local step) (hreads : Reads step R)
    (hless : ∀ ⦃ts a mid⦄, R ts (some a) mid → mid.length < ts.length) : Local (many step) := by
  refine Local.bind hplaced (placed_manyAfter hplaced) hlocal fun found => ?_
  cases found with
  | none => exact local_pure []
  | some a =>
    intro v w r r₂ ending c c₂ hw hc hc₂
    show Follows w r r₂ ending ((manyUpTo step (c.size + 1) >>= fun as => pure (a :: as)) c)
      ((manyUpTo step (c₂.size + 1) >>= fun as => pure (a :: as)) c₂)
    have hfuel := Nat.lt_succ_of_le hc.length_le_size
    have hfuel₂ := Nat.lt_succ_of_le hc₂.length_le_size
    refine Follows.bind (placed_manyUpTo hplaced _) (fun as => placed_pure _) hc
      (fun v₁ v₂ hv => ?_) fun as c' c₂' v₁ v₂ _ _ hc' hc₂' => local_pure _ hw hc' hc₂'
    subst hv
    rw [List.append_assoc, ← List.append_assoc v₂] at hc hc₂ hfuel hfuel₂
    exact follows_manyUpTo hplaced hlocal hreads hless (by simp [hw]) hc hc₂ hfuel hfuel₂

end Loops

/-! ## Names at the front -/

/-- The parser does not stop at a name that it starts at, neither with an answer nor with an error,
unless it is the error at the end of the outlook. -/
def PassesName (p : Parser α) : Prop :=
  ∀ ⦃c c' : Cursor⦄ ⦃name : String⦄ ⦃ts : List Token⦄ ⦃ending : Option ReadError⦄,
    c.Holds (.name name :: ts) ending → c'.Holds (.name name :: ts) ending →
    (∀ a, p c ≠ .ok a c') ∧ ∀ e, ending ≠ some e → p c ≠ .error e c'

/-- If the first step does not stop at the name, the steps behind it cannot go back. -/
theorem PassesName.bind {p : Parser α} {f : α → Parser β} (h : PassesName p) (hp : Placed p)
    (hf : ∀ a, Placed (f a)) : PassesName (p >>= f) := by
  intro c c' name ts ending hc hc'
  -- between the place where both steps start and the place where both stop there is no other
  have hstays : ∀ ⦃a : α⦄ ⦃mid : Cursor⦄ ⦃m : List Token⦄, p c = .ok a mid → mid.Holds m ending →
      Token.name name :: ts <:+ m → False := by
    intro a mid m hok hm hle
    obtain ⟨m', hge, hm'⟩ := hp.suffix_of_ok hc hok
    obtain ⟨rfl, _⟩ := hm.unique hm'
    obtain rfl : m = .name name :: ts := hge.eq_of_length_le hle.length_le
    exact (h hc hm).1 a hok
  refine ⟨fun b hrun => ?_, fun e hending hrun => ?_⟩
  · obtain ⟨a, mid, hok, hnext⟩ := exists_of_bind_eq_ok hrun
    obtain ⟨m, _, hm⟩ := hp.suffix_of_ok hc hok
    obtain ⟨rest, hle, hrest⟩ := (hf a).suffix_of_ok hm hnext
    obtain ⟨rfl, _⟩ := hc'.unique hrest
    exact hstays hok hm hle
  · rcases cases_of_bind_eq_error hrun with hwrong | ⟨a, mid, hok, hnext⟩
    · exact (h hc hc').2 e hending hwrong
    · obtain ⟨m, _, hm⟩ := hp.suffix_of_ok hc hok
      obtain ⟨rest, hle, hrest⟩ := (hf a).suffix_of_error hm hnext hending
      obtain ⟨rfl, _⟩ := hc'.unique hrest
      exact hstays hok hm hle

theorem passesName_advance : PassesName advance := by
  intro c c' name ts ending hc hc'
  obtain ⟨c₁, hadvance, hc₁⟩ := advance_cases hc
  refine ⟨fun token hrun => ?_, fun e _ hrun => ?_⟩
  · rw [hadvance] at hrun
    obtain ⟨_, rfl⟩ : .name name = token ∧ c₁ = c' := by simpa using hrun
    have hlength := congrArg List.length (hc'.unique hc₁).1
    simp at hlength
  · rw [hadvance] at hrun
    cases hrun

/-- Looking ahead changes nothing, and what is seen decides how to go on. -/
theorem passesName_peekAhead_bind {ahead : Nat} {f : Option Token → Parser β}
    (h : ∀ name ts, PassesName (f (Token.name name :: ts)[ahead]?)) :
    PassesName (peekAhead ahead >>= f) := by
  intro c c' name ts ending hc hc'
  rcases peekAhead_cases ahead hc with ⟨c₁, hpeek, hc₁⟩ | ⟨e, c₁, hpeek, hending, _⟩
  · rw [bind_of_ok hpeek]
    exact h name ts hc₁ hc'
  · rw [bind_of_error hpeek]
    refine ⟨fun a hrun => (nomatch hrun), fun e' hother hrun => ?_⟩
    obtain ⟨rfl, _⟩ : e = e' ∧ c₁ = c' := by simpa using hrun
    exact hother hending

theorem passesName_primaryOf {arguments body : Parser (List Expr)}
    {parenthesised ifElse : Parser Expr} (harguments : Placed arguments) :
    PassesName (primaryOf arguments parenthesised body ifElse) := by
  refine passesName_peekAhead_bind fun name ts => ?_
  refine passesName_advance.bind placed_advance fun _ => ?_
  refine (ruleClosed_placed.afterMark .openParen harguments).bind fun args => ?_
  cases args with
  | some args => exact placed_pure _
  | none => exact placed_pure _

theorem passesName_unaryOf {unary primary : Parser Expr} (h : PassesName primary) :
    PassesName (unaryOf unary primary) := by
  intro c c' name ts ending hc hc'
  rcases peekAhead_cases 0 hc with ⟨c₁, hpeek, hc₁⟩ | ⟨e, c₁, _, _, hshort⟩
  · have hnone : afterMark .bang unary c = .ok none c₁ := by
      have hat : isAtMark .bang c = .ok false c₁ := bind_of_ok hpeek _
      exact bind_of_ok hat _
    rw [unaryOf, bind_of_ok hnone]
    exact h hc₁ hc'
  · simp at hshort

theorem passesName_conditionalChain (op : Conditional) (m : Mark) {operand : Parser Expr}
    {R : List Token → Expr → List Token → Prop} (hreads : Reads operand R)
    (hle : ∀ ⦃ts a rest⦄, R ts a rest → rest.length ≤ ts.length) (hplaced : Placed operand)
    (h : PassesName operand) : PassesName (conditionalChain op m operand) := by
  refine h.bind hplaced fun first => ?_
  exact (ruleClosed_placed.many_afterMark m hreads hle hplaced).bind fun others => placed_pure _

theorem passesName_comparisonOf {sum : Parser Expr} (hplaced : Placed sum) (h : PassesName sum) :
    PassesName (comparisonOf sum) := by
  refine h.bind hplaced fun left => ?_
  refine (placed_peekAhead 0).bind fun next => ?_
  cases next.bind comparison? with
  | none => exact placed_pure left
  | some op =>
    refine placed_advance.bind fun _ => ?_
    exact hplaced.bind fun right => placed_pure _

/-- An expression does not stop at a name that it starts at: with that much budget it comes to the
primary expression there, which consumes the name. -/
theorem passesName_expr {budget : Nat} (h : descent ≤ budget) : PassesName (expr budget) := by
  obtain ⟨n, rfl⟩ := Nat.exists_eq_add_of_le' h
  have hreads := fun n => readsPhrases n
  have hplaced := fun n => ruleClosed_placed.rules n
  have hprimary : PassesName (primary (n + 1)) := passesName_primaryOf (hplaced n).arguments
  have hunary : PassesName (unary (n + 2)) := passesName_unaryOf hprimary
  have hterm : PassesName (term (n + 3)) := hunary.bind (hplaced _).unary
    (ruleClosed_placed.termFromOf (hreads _).unary (hplaced _).unary)
  have hsum : PassesName (sum (n + 4)) := hterm.bind (hplaced _).term fun first =>
    (ruleClosed_placed.many_nextSummand (hreads _).term (hreads _).termFrom (hplaced _).term
      (hplaced _).termFrom).bind fun others => placed_pure _
  have hcomparison : PassesName (comparison (n + 5)) :=
    passesName_comparisonOf (hplaced _).sum hsum
  have hconjunction : PassesName (conjunction (n + 6)) :=
    passesName_conditionalChain _ _ (hreads _).comparison (fun _ _ _ => Phrase.length_le)
      (hplaced _).comparison hcomparison
  exact passesName_conditionalChain _ _ (hreads _).conjunction (fun _ _ _ => Phrase.length_le)
    (hplaced _).conjunction hconjunction

/-! ## Statements -/

/-- Behind a name, the second token can be looked at where what follows passes the name. -/
theorem follows_second {name : String} {f : Option Token → Parser β} (hlocal : ∀ t, Local (f t))
    (hpasses : ∀ t, PassesName (f t)) (hw : w ≠ []) (hname : (v ++ w)[0]? = some (.name name))
    (hc : c.Holds (v ++ (w ++ r)) ending) (hc₂ : c₂.Holds (v ++ (w ++ r₂)) none) :
    Follows w r r₂ ending ((peekAhead 1 >>= f) c) ((peekAhead 1 >>= f) c₂) := by
  cases v with
  | nil =>
    -- stopping in front of `w` would be stopping at the name
    obtain ⟨t, w', rfl⟩ := List.exists_cons_of_ne_nil hw
    obtain rfl : t = .name name := by simpa using hname
    have hstops : PassesName (peekAhead 1 >>= f) := passesName_peekAhead_bind fun _ _ => hpasses _
    exact ⟨fun a c' hrun hc' => absurd hrun ((hstops hc hc').1 a),
      fun cause position c' hrun hc' =>
        absurd hrun ((hstops hc hc').2 _ (hc.ending_ne_grammar cause position))⟩
  | cons t v =>
    have hlength : 1 < (t :: v ++ w).length := by
      have hpos := List.length_pos_of_ne_nil hw
      rw [List.length_append, List.length_cons]
      omega
    obtain ⟨c₁, hpeek, hc₁⟩ := peekAhead_common hlength hc
    obtain ⟨c₃, hpeek₂, hc₃⟩ := peekAhead_common hlength hc₂
    rw [bind_of_ok hpeek, bind_of_ok hpeek₂]
    exact hlocal _ hw hc₁ hc₃

theorem local_statementOf {expr : Parser Expr} (hplaced : Placed expr) (hlocal : Local expr)
    (hpasses : PassesName expr) : Local (statementOf expr) := by
  have hlast : ∀ build : Expr → Expr, Placed (expr >>= fun e => pure (build e)) := fun build =>
    hplaced.bind fun e => placed_pure _
  have hlocalBehind : ∀ build : Expr → Expr, Local (do
      let _ ← advance; let _ ← advance; return build (← expr)) := by
    intro build
    refine Local.bind placed_advance (fun _ => placed_advance.bind fun _ => hlast build)
      local_advance fun _ => ?_
    refine Local.bind placed_advance (fun _ => hlast build) local_advance fun _ => ?_
    exact Local.bind hplaced (fun e => placed_pure _) hlocal fun e => local_pure _
  have hpassesBehind : ∀ build : Expr → Expr, PassesName (do
      let _ ← advance; let _ ← advance; return build (← expr)) := fun build =>
    passesName_advance.bind placed_advance fun _ => placed_advance.bind fun _ => hlast build
  intro v w r r₂ ending c c₂ hw hc hc₂
  have hlength : 0 < (v ++ w).length := List.length_pos_of_ne_nil (by simp [hw])
  obtain ⟨c₁, hpeek, hc₁⟩ := peekAhead_common hlength hc
  obtain ⟨c₃, hpeek₂, hc₃⟩ := peekAhead_common hlength hc₂
  rw [statementOf, peek, bind_of_ok hpeek, bind_of_ok hpeek₂]
  generalize hnext : (v ++ w)[0]? = next
  match next with
  | some (.name name) =>
    refine follows_second (fun second => ?_) (fun second => ?_) hw hnext hc₁ hc₃
    · split
      · exact hlocalBehind _
      · exact hlocalBehind _
      · exact hlocal
    · split
      · exact hpassesBehind _
      · exact hpassesBehind _
      · exact hpasses
  | none | some (.mark _) | some (.bool _) | some (.string _) | some (.int _) =>
    exact hlocal hw hc₁ hc₃

theorem ruleClosed_local : RuleClosed fun _ p => Placed p ∧ Local p where
  pure a := ⟨placed_pure a, local_pure a⟩
  bind hp hf := ⟨hp.1.bind fun a => (hf a).1,
    Local.bind hp.1 (fun a => (hf a).1) hp.2 fun a => (hf a).2⟩
  peek := ⟨placed_peekAhead 0, local_peek⟩
  advance := ⟨placed_advance, local_advance⟩
  fail cause := ⟨placed_fail cause, local_fail cause⟩
  tooDeep {_} := ⟨placed_tooDeep, local_tooDeep⟩
  many hreads hless hstep := ⟨placed_many hstep.1, local_many hstep.1 hstep.2 hreads hless⟩
  statement _ hroom h :=
    ⟨placed_statementOf h.1, local_statementOf h.1 h.2 (passesName_expr hroom)⟩

end Parser
end Scriptlet
