import Scriptlet.Proofs.Places
import Scriptlet.Proofs.Tiling

/-!
# Scanning ahead of reading

A program is read while its text is scanned, and each token is scanned when it is first looked at.
Or the text is scanned to its end before, and the items are read then.  With the same budget both
ways come to the same, also for a text that cannot be read, although the tokens behind the place of
an error are never scanned in the first way.  The one exception is an integer too long to be read,
which stops the scanner wherever it stands; scanning ahead then has nothing to hand to the parser.
What changes with the budget is the matter of `NestingRoom`.

Two cursors are abreast (`Cursor.Abreast`) when they have the same in the buffer and their feeds
will hand out the same, whatever the feeds are.  Nothing that a parser does shows which of the two
it reads from: it answers the same and leaves them abreast, or it fails with the same error
(`Parser.SameFrom`).  That is shown for the primitives, where drawing a token is the only step that
looks at a feed, and passes through the rules by `RuleClosed`.  The fuel of a loop is the one thing
that is not the same from both cursors.  It bounds the tokens that are left and is not exact, but it
is enough on both sides, because what a step finds takes at least one token.

The two feeds of a source text are a scanner and the items that it is drained to.  They hand out the
same by `Scanner.hands_of_drain` and `Feed.hands_items`.
-/

namespace Scriptlet

/-! ## Two feeds of a source text -/

/-- Scanned items hand out their spans, and the error behind them. -/
theorem Feed.hands_items (spans : List Span) (ending : Option LexError) :
    (Feed.items (Item.ofSpans spans ending)).Hands spans (ending.map .lexical) := by
  induction spans with
  | nil =>
    cases ending with
    | none => exact .finished rfl
    | some e => exact .error rfl
  | cons span spans ih => exact .token rfl ih

theorem Item.ofSpans_inj {spans spans' : List Span} {ending ending' : Option LexError}
    (h : Item.ofSpans spans ending = Item.ofSpans spans' ending') :
    spans = spans' ∧ ending = ending' := by
  have hhands := Feed.hands_items spans ending
  rw [h] at hhands
  obtain ⟨rfl, hending⟩ := hhands.unique (Feed.hands_items spans' ending')
  exact ⟨rfl, Option.map_injective (fun _ _ heq => ReadError.lexical.inj heq) hending⟩

namespace Scanner

variable {s after : Scanner} {items : List Item}

/-- After an error nothing is left. -/
theorem rest_of_error {e : LexError} (h : s.next = (.error e, after)) : after.rest = [] := by
  have hstep := step_next s
  rw [h] at hstep
  cases hstep with
  | error => rfl

theorem hands_of_drainUpTo (fuel : Nat) (hfuel : s.rest.length < fuel)
    (h : s.drainUpTo fuel = .ok items) :
    ∃ spans ending, items = Item.ofSpans spans ending ∧
      (Feed.scanner s).Hands spans (ending.map .lexical) := by
  induction fuel generalizing s items with
  | zero => omega
  | succ fuel ih =>
    rw [drainUpTo] at h
    cases hnext : s.next with
    | mk scanned after =>
      have hfeed := Feed.next_scanner hnext
      rw [hnext] at h
      cases scanned with
      | finished =>
        cases h
        exact ⟨[], none, rfl, .finished hfeed⟩
      | overlong digits => cases h
      | error e =>
        have hrest : after.drainUpTo fuel = .ok [] := by
          cases fuel with
          | zero => rfl
          | succ fuel => rw [drainUpTo, next_of_rest_nil (rest_of_error hnext)]
        simp only [hrest] at h
        cases h
        exact ⟨[], some e, rfl, .error hfeed⟩
      | token span =>
        have hshorter := length_lt_of_token hnext
        cases hdrain : after.drainUpTo fuel with
        | error digits =>
          simp only [hdrain] at h
          cases h
        | ok left =>
          simp only [hdrain] at h
          cases h
          obtain ⟨spans, ending, rfl, hleft⟩ := ih (by omega) hdrain
          exact ⟨span :: spans, ending, rfl, .token hfeed hleft⟩

/-- A scanner hands out the items that it is drained to. -/
theorem hands_of_drain (h : s.drain = .ok items) :
    ∃ spans ending, items = Item.ofSpans spans ending ∧
      (Feed.scanner s).Hands spans (ending.map .lexical) :=
  hands_of_drainUpTo _ (Nat.lt_succ_self _) h

end Scanner

/-! ## Cursors that are abreast -/

/-- Two cursors at the same place: the same tokens are drawn and not consumed, and the feeds will
hand out the same. -/
structure Cursor.Abreast (c d : Cursor) : Prop where
  buffer : c.buffer = d.buffer
  stop : c.stop = d.stop
  hands : ∃ spans ending, c.feed.Hands spans ending ∧ d.feed.Hands spans ending

/-- Cursors that are abreast have the same outlook. -/
theorem Cursor.Abreast.exists_holds {c d : Cursor} (h : c.Abreast d) :
    ∃ ts ending, c.Holds ts ending ∧ d.Holds ts ending := by
  obtain ⟨hbuffer, _, spans, ending, hc, hd⟩ := h
  exact ⟨_, ending, ⟨_, hc.yields, rfl⟩, ⟨_, hd.yields, by rw [hbuffer]⟩⟩

/-- The cursor before a source text is abreast of the one before its items. -/
theorem Cursor.abreast_ofItems {source : String} {items : List Item}
    (h : (Scanner.ofSource source).drain = .ok items) :
    (Cursor.ofSource source).Abreast (Cursor.ofItems items) := by
  obtain ⟨spans, ending, rfl, hscanner⟩ := Scanner.hands_of_drain h
  exact ⟨rfl, rfl, spans, _, hscanner, Feed.hands_items spans ending⟩

namespace Parser

variable {α β : Type} {c d : Cursor} {ts : List Token} {ending : Option ReadError}

/-- Two runs with the same answer that leave cursors abreast, or with the same error. -/
inductive Agree : EStateM.Result ReadError Cursor α → EStateM.Result ReadError Cursor α → Prop
  | ok {a : α} {c d : Cursor} : c.Abreast d → Agree (.ok a c) (.ok a d)
  | error {e : ReadError} {c d : Cursor} : Agree (.error e c) (.error e d)

/-- Two runs, from two cursors, of a first step and then of what follows its answer. -/
theorem Agree.bind {p q : Parser α} {f g : α → Parser β} (h : Agree (p c) (q d))
    (hf : ∀ ⦃a c' d'⦄, p c = .ok a c' → c'.Abreast d' → Agree (f a c') (g a d')) :
    Agree ((p >>= f) c) ((q >>= g) d) := by
  generalize hp : p c = r, hq : q d = r' at h
  cases h with
  | ok habreast =>
    rw [bind_of_ok hp, bind_of_ok hq]
    exact hf hp habreast
  | error =>
    rw [bind_of_error hp, bind_of_error hq]
    exact .error

/-- The parser does the same from cursors that are abreast. -/
def SameFrom (p : Parser α) : Prop :=
  ∀ ⦃c d : Cursor⦄, c.Abreast d → Agree (p c) (p d)

theorem SameFrom.result_eq {p : Parser α} (hp : SameFrom p) (h : c.Abreast d) :
    p.result c = p.result d := by
  have hagree := hp h
  rw [result, result]
  generalize p c = r, p d = r' at hagree
  cases hagree <;> rfl

/-! ## Steps -/

theorem sameFrom_pure (a : α) : SameFrom (pure a : Parser α) := fun _ _ h => .ok h

theorem sameFrom_tooDeep : SameFrom (tooDeep : Parser α) := by
  intro c d h
  rw [tooDeep, tooDeep, h.stop]
  exact .error

theorem SameFrom.bind {p : Parser α} {f : α → Parser β} (hp : SameFrom p)
    (hf : ∀ a, SameFrom (f a)) : SameFrom (p >>= f) := fun _ _ h =>
  (hp h).bind fun a _ _ _ h' => hf a h'

/-- Drawing a token: the feeds hand out the same, and what is left of them as well. -/
theorem sameFrom_draw : SameFrom draw := by
  rintro c d ⟨hbuffer, hstop, spans, ending, hc, hd⟩
  cases hc with
  | finished hnext =>
    cases hd with
    | finished hnext' =>
      simp only [draw, hnext, hnext']
      exact .ok ⟨hbuffer, hstop, [], none, .finished (Feed.next_of_finished hnext),
        .finished (Feed.next_of_finished hnext')⟩
  | error hnext =>
    cases hd with
    | error hnext' =>
      simp only [draw, hnext, hnext']
      exact .error
  | overlong hnext =>
    cases hd with
    | overlong hnext' =>
      simp only [draw, hnext, hnext']
      exact .error
  | token hnext hleft =>
    cases hd with
    | token hnext' hleft' =>
      simp only [draw, hnext, hnext', hbuffer]
      exact .ok ⟨rfl, rfl, _, _, hleft, hleft'⟩

theorem sameFrom_drawUpTo (count : Nat) : SameFrom (drawUpTo count) := by
  induction count with
  | zero => exact sameFrom_pure ()
  | succ count ih =>
    refine sameFrom_draw.bind fun drawn => ?_
    cases drawn with
    | true => exact ih
    | false => exact sameFrom_pure ()

theorem sameFrom_fill (count : Nat) : SameFrom (fill count) := by
  intro c d h
  rw [fill, fill, h.buffer]
  exact sameFrom_drawUpTo _ h

theorem sameFrom_peekAhead (ahead : Nat) : SameFrom (peekAhead ahead) := by
  refine (sameFrom_fill _).bind fun _ c d h => ?_
  show Agree (.ok (c.buffer[ahead]?.map Prod.fst) c) (.ok (d.buffer[ahead]?.map Prod.fst) d)
  rw [h.buffer]
  exact .ok h

theorem sameFrom_position : SameFrom position := by
  intro c d h
  have hfill := sameFrom_fill 1 h
  generalize hc : fill 1 c = r, hd : fill 1 d = r' at hfill
  cases hfill with
  | ok h' =>
    rw [position_of_fill hc, position_of_fill hd, h'.buffer, h'.stop]
    exact .ok h'
  | error =>
    rw [position, bind_of_error hc, bind_of_error hd]
    exact .error

theorem sameFrom_fail (cause : ReadError.Cause) : SameFrom (fail cause : Parser α) :=
  sameFrom_position.bind fun _ _ _ _ => .error

theorem sameFrom_consume : SameFrom consume := by
  rintro c d ⟨hbuffer, hstop, hhands⟩
  simp only [consume, hbuffer, hstop]
  cases d.buffer with
  | nil => exact .error
  | cons place buffer => exact .ok ⟨rfl, rfl, hhands⟩

theorem sameFrom_advance : SameFrom advance :=
  (sameFrom_fill 1).bind fun _ => sameFrom_consume

/-! ## Loops and statements -/

section Loops

variable {step : Parser (Option α)} {R : List Token → Option α → List Token → Prop}

/-- Loops with fuel enough do the same, whatever the fuel. -/
theorem agree_manyUpTo (hstep : SameFrom step) (hreads : Reads step R)
    (hless : ∀ ⦃ts a mid⦄, R ts (some a) mid → mid.length < ts.length) {fuel fuel' : Nat}
    (h : c.Abreast d) (hc : c.Holds ts ending) (hfuel : ts.length < fuel)
    (hfuel' : ts.length < fuel') : Agree (manyUpTo step fuel c) (manyUpTo step fuel' d) := by
  induction fuel generalizing fuel' c d ts with
  | zero => omega
  | succ fuel ih =>
    obtain ⟨fuel', rfl⟩ := Nat.exists_eq_add_one_of_ne_zero (by omega : fuel' ≠ 0)
    refine (hstep h).bind fun found c₁ d₁ hrun h₁ => ?_
    cases found with
    | none => exact .ok h₁
    | some a =>
      -- what was found took a token, so that the fuel left is enough on both sides
      obtain ⟨mid, hread, hmid⟩ := hreads hc hrun
      have hshorter := hless hread
      have hloop := ih h₁ hmid (by omega) (by omega : mid.length < fuel')
      exact hloop.bind fun as _ _ _ h₂ => .ok h₂

theorem sameFrom_many (hstep : SameFrom step) (hreads : Reads step R)
    (hless : ∀ ⦃ts a mid⦄, R ts (some a) mid → mid.length < ts.length) : SameFrom (many step) := by
  refine hstep.bind fun found => ?_
  cases found with
  | none => exact sameFrom_pure []
  | some a =>
    intro c d h
    obtain ⟨ts, ending, hc, hd⟩ := h.exists_holds
    have hloop := agree_manyUpTo hstep hreads hless h hc
      (Nat.lt_succ_of_le hc.length_le_size) (Nat.lt_succ_of_le hd.length_le_size)
    exact hloop.bind fun as _ _ _ h' => .ok h'

end Loops

theorem sameFrom_statementOf {expr : Parser Expr} (h : SameFrom expr) :
    SameFrom (statementOf expr) := by
  have hbehind : ∀ build : Expr → Expr,
      SameFrom (do let _ ← advance; let _ ← advance; return build (← expr)) := fun build =>
    sameFrom_advance.bind fun _ => sameFrom_advance.bind fun _ =>
      h.bind fun e => sameFrom_pure (build e)
  refine (sameFrom_peekAhead 0).bind fun next => ?_
  split
  · refine (sameFrom_peekAhead 1).bind fun second => ?_
    split
    · exact hbehind _
    · exact hbehind _
    · exact h
  · exact h

theorem ruleClosed_sameFrom : RuleClosed fun _ p => SameFrom p where
  pure := sameFrom_pure
  bind := SameFrom.bind
  peek := sameFrom_peekAhead 0
  advance := sameFrom_advance
  fail := sameFrom_fail
  tooDeep {_} := sameFrom_tooDeep
  many hreads hless hstep := sameFrom_many hstep hreads hless
  statement _ _ := sameFrom_statementOf

end Parser

end Scriptlet
