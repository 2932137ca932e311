import Scriptlet.Proofs.Rules
import Scriptlet.Proofs.Spans

/-!
# Where reading stops

An error of reading carries an offset: where the token starts that cannot stand there, or where the
last token stopped when there is none.  The offset is taken from the cursor that the parser has
reached, however many tokens it has drawn by then.

`Cursor.Faces` is the outlook of a cursor with places: the tokens still to come and where each of
them starts, and where the last one stops.  `Placed p` says how `p` can end.  If it answers, finds a
token that cannot stand there or has spent its budget, it has taken tokens off the front of the
outlook and nothing else.  In the second case the offset of the error is that of the next place, and
in the third the one where the last token stopped that was drawn.  Otherwise it ran into the error
at the end of the outlook.  All parsers are placed, because the primitives are and the rules only
put them together.
-/

namespace Scriptlet

/-- A token and where it starts. -/
def Span.place (span : Span) : Token × Nat :=
  (span.token, span.start)

/-- Where the last of some spans stops, and `before` if there is none. -/
def Span.lastStop (before : Nat) (spans : List Span) : Nat :=
  (spans.getLast?.map Span.stop).getD before

theorem Span.lastStop_cons (before : Nat) (span : Span) (spans : List Span) :
    lastStop before (span :: spans) = lastStop span.stop spans := by
  rw [lastStop, lastStop, List.getLast?_cons]
  cases spans.getLast? <;> rfl

/-- The outlook of a cursor with places: the tokens still to come and where they start, where the
last one stops, and what comes behind. -/
def Cursor.Faces (c : Cursor) (places : List (Token × Nat)) (stop : Nat)
    (ending : Option ReadError) : Prop :=
  ∃ pending, c.feed.Hands pending ending ∧ places = c.buffer ++ pending.map Span.place ∧
    stop = Span.lastStop c.stop pending

/-- The offset of the next place. -/
def offsetOf (places : List (Token × Nat)) (stop : Nat) : Nat :=
  match places with
  | [] => stop
  | (_, start) :: _ => start

theorem Feed.Yields.ending_ne_grammar {feed : Feed} {ts : List Token} {ending : Option ReadError}
    (h : feed.Yields ts ending) (cause : ReadError.Cause) (position : Nat) :
    ending ≠ some (.grammar cause position) := by
  induction h with
  | finished | error | overlong => simp
  | token _ _ ih => exact ih

theorem Feed.Yields.ending_ne_nestedTooDeeply {feed : Feed} {ts : List Token}
    {ending : Option ReadError} (h : feed.Yields ts ending) (position : Nat) :
    ending ≠ some (.nestedTooDeeply position) := by
  induction h with
  | finished | error | overlong => simp
  | token _ _ ih => exact ih

namespace Cursor

variable {c : Cursor} {places : List (Token × Nat)} {stop : Nat} {ending : Option ReadError}

/-- Without its places it is the plain outlook. -/
theorem Faces.holds (h : c.Faces places stop ending) : c.Holds (places.map Prod.fst) ending := by
  obtain ⟨pending, hfeed, rfl, _⟩ := h
  refine ⟨_, hfeed.yields, ?_⟩
  rw [List.map_append, List.map_map]
  rfl

theorem Holds.exists_faces {ts : List Token} (h : c.Holds ts ending) :
    ∃ places stop, c.Faces places stop ending ∧ places.map Prod.fst = ts := by
  obtain ⟨pending, hfeed, rfl⟩ := h
  obtain ⟨spans, hspans, rfl⟩ := hfeed.exists_hands
  refine ⟨_, _, ⟨spans, hspans, rfl, rfl⟩, ?_⟩
  rw [List.map_append, List.map_map]
  rfl

/-- No text ends with an error of the grammar. -/
theorem Holds.ending_ne_grammar {ts : List Token} (h : c.Holds ts ending)
    (cause : ReadError.Cause) (position : Nat) : ending ≠ some (.grammar cause position) := by
  obtain ⟨pending, hfeed, _⟩ := h
  exact hfeed.ending_ne_grammar cause position

theorem Holds.ending_ne_nestedTooDeeply {ts : List Token} (h : c.Holds ts ending)
    (position : Nat) : ending ≠ some (.nestedTooDeeply position) := by
  obtain ⟨pending, hfeed, _⟩ := h
  exact hfeed.ending_ne_nestedTooDeeply position

end Cursor

namespace Parser

variable {α β : Type} {c c' : Cursor} {places : List (Token × Nat)} {stop : Nat}
  {ending : Option ReadError}

/-! ## Drawing tokens -/

/-- Drawing a token keeps what the cursor faces. -/
theorem draw_faces (h : c.Faces places stop ending) :
    (∃ c', draw c = .ok true c' ∧ c'.Faces places stop ending ∧
      c'.buffer.length = c.buffer.length + 1) ∨
    (∃ c', draw c = .ok false c' ∧ c'.Faces places stop ending ∧ ending = none ∧
      c'.buffer = places ∧ c'.stop = stop) ∨
    ∃ e c', draw c = .error e c' ∧ ending = some e := by
  obtain ⟨pending, hfeed, rfl, rfl⟩ := h
  cases hfeed with
  | @finished _ left hnext =>
    refine Or.inr (Or.inl ⟨{ c with feed := left }, ?_, ⟨[], ?_, rfl, rfl⟩, rfl, ?_, rfl⟩)
    · simp only [draw, hnext]
    · exact .finished (Feed.next_of_finished hnext)
    · rw [List.map_nil, List.append_nil]
  | error hnext => exact Or.inr (Or.inr ⟨_, _, by simp only [draw, hnext]; rfl, rfl⟩)
  | overlong hnext => exact Or.inr (Or.inr ⟨_, _, by simp only [draw, hnext]; rfl, rfl⟩)
  | @token _ left span spans _ hnext hleft =>
    refine Or.inl ⟨_, by simp only [draw, hnext]; rfl, ⟨spans, hleft, ?_, ?_⟩, by simp⟩
    · rw [List.map_cons, List.append_assoc]
      rfl
    · exact Span.lastStop_cons c.stop span spans

theorem drawUpTo_faces (count : Nat) (h : c.Faces places stop ending) :
    (∃ c', drawUpTo count c = .ok () c' ∧ c'.Faces places stop ending ∧
      (c.buffer.length + count ≤ c'.buffer.length ∨
        ending = none ∧ c'.buffer = places ∧ c'.stop = stop)) ∨
    ∃ e c', drawUpTo count c = .error e c' ∧ ending = some e := by
  induction count generalizing c with
  | zero => exact Or.inl ⟨c, rfl, h, Or.inl (Nat.le_refl _)⟩
  | succ count ih =>
    rw [drawUpTo]
    rcases draw_faces h with ⟨c₁, hdraw, h₁, hlength⟩ | ⟨c₁, hdraw, h₁, hall⟩ |
      ⟨e, c₁, hdraw, hending⟩
    · rw [bind_of_ok hdraw, if_pos rfl]
      rcases ih h₁ with ⟨c₂, hrest, h₂, henough⟩ | hfailed
      · refine Or.inl ⟨c₂, hrest, h₂, henough.imp_left fun hle => ?_⟩
        omega
      · exact Or.inr hfailed
    · rw [bind_of_ok hdraw, if_neg (by simp)]
      exact Or.inl ⟨c₁, rfl, h₁, Or.inr hall⟩
    · rw [bind_of_error hdraw]
      exact Or.inr ⟨e, c₁, rfl, hending⟩

theorem fill_faces (count : Nat) (h : c.Faces places stop ending) :
    (∃ c', fill count c = .ok () c' ∧ c'.Faces places stop ending ∧
      (count ≤ c'.buffer.length ∨ ending = none ∧ c'.buffer = places ∧ c'.stop = stop)) ∨
    ∃ e c', fill count c = .error e c' ∧ ending = some e := by
  rcases drawUpTo_faces (count - c.buffer.length) h with ⟨c', hfill, h', henough⟩ | hfailed
  · exact Or.inl ⟨c', hfill, h', henough.imp_left fun hle => by omega⟩
  · exact Or.inr hfailed

/-! ## How parsers end -/

/-- How a parser can end that starts before these places. -/
inductive Ends (places : List (Token × Nat)) (stop : Nat) (ending : Option ReadError) :
    EStateM.Result ReadError Cursor α → Prop
  | ok {a : α} {c' : Cursor} {rest : List (Token × Nat)} : rest <:+ places →
    c'.Faces rest stop ending → Ends places stop ending (.ok a c')
  | wrong {cause : ReadError.Cause} {c' : Cursor} {rest : List (Token × Nat)} : rest <:+ places →
    c'.Faces rest stop ending → (rest = [] → ending = none) →
    Ends places stop ending (.error (.grammar cause (offsetOf rest stop)) c')
  | deep {c' : Cursor} {rest : List (Token × Nat)} : rest <:+ places →
    c'.Faces rest stop ending → Ends places stop ending (.error (.nestedTooDeeply c'.stop) c')
  | unreadable {e : ReadError} {c' : Cursor} : ending = some e →
    Ends places stop ending (.error e c')

/-- The parser takes tokens off the front, and fails at the next place. -/
def Placed (p : Parser α) : Prop :=
  ∀ ⦃c : Cursor⦄ ⦃places : List (Token × Nat)⦄ ⦃stop : Nat⦄ ⦃ending : Option ReadError⦄,
    c.Faces places stop ending → Ends places stop ending (p c)

theorem placed_pure (a : α) : Placed (pure a : Parser α) := fun _ _ _ _ h =>
  .ok (List.suffix_refl _) h

theorem placed_tooDeep : Placed (tooDeep : Parser α) := fun _ _ _ _ h =>
  .deep (List.suffix_refl _) h

/-- What follows a step starts from a place behind. -/
theorem Ends.of_suffix {rest : List (Token × Nat)} {result : EStateM.Result ReadError Cursor α}
    (h : Ends rest stop ending result) (hsuffix : rest <:+ places) :
    Ends places stop ending result := by
  cases h with
  | ok hrest hfaces => exact .ok (hrest.trans hsuffix) hfaces
  | wrong hrest hfaces hend => exact .wrong (hrest.trans hsuffix) hfaces hend
  | deep hrest hfaces => exact .deep (hrest.trans hsuffix) hfaces
  | unreadable hending => exact .unreadable hending

theorem Placed.bind {p : Parser α} {f : α → Parser β} (hp : Placed p) (hf : ∀ a, Placed (f a)) :
    Placed (p >>= f) := by
  intro c places stop ending h
  have hfirst := hp h
  cases hrun : p c with
  | ok a c₁ =>
    rw [hrun] at hfirst
    rw [bind_of_ok hrun]
    cases hfirst with
    | ok hrest hfaces => exact (hf a hfaces).of_suffix hrest
  | error e c₁ =>
    rw [hrun] at hfirst
    rw [bind_of_error hrun]
    cases hfirst with
    | wrong hrest hfaces hend => exact .wrong hrest hfaces hend
    | deep hrest hfaces => exact .deep hrest hfaces
    | unreadable hending => exact .unreadable hending

theorem placed_peekAhead (ahead : Nat) : Placed (peekAhead ahead) := by
  intro c places stop ending h
  rw [peekAhead]
  rcases fill_faces (ahead + 1) h with ⟨c', hfill, h', _⟩ | ⟨e, c', hfill, hending⟩
  · rw [bind_of_ok hfill]
    exact .ok (List.suffix_refl _) h'
  · rw [bind_of_error hfill]
    exact .unreadable hending

/-- The first token of the buffer is at the first place. -/
theorem Faces.of_buffer {buffer : List (Token × Nat)} {place : Token × Nat}
    (h : c.Faces places stop ending) (hbuffer : c.buffer = place :: buffer) :
    ∃ rest, places = place :: rest ∧ { c with buffer }.Faces rest stop ending := by
  obtain ⟨pending, hfeed, rfl, rfl⟩ := h
  refine ⟨buffer ++ pending.map Span.place, ?_, pending, hfeed, rfl, rfl⟩
  rw [hbuffer, List.cons_append]

theorem placed_advance : Placed advance := by
  intro c places stop ending h
  rw [advance]
  rcases fill_faces 1 h with ⟨c₁, hfill, h₁, henough⟩ | ⟨e, c₁, hfill, hending⟩
  · rw [bind_of_ok hfill]
    cases hbuffer : c₁.buffer with
    | nil =>
      rw [hbuffer] at henough
      obtain ⟨hending, rfl, rfl⟩ := henough.resolve_left (by simp)
      simp only [consume, hbuffer]
      exact .wrong (List.suffix_refl []) h₁ fun _ => hending
    | cons place buffer =>
      obtain ⟨rest, rfl, hrest⟩ := Faces.of_buffer h₁ hbuffer
      simp only [consume, hbuffer]
      exact .ok (List.suffix_cons _ _) hrest
  · rw [bind_of_error hfill]
    exact .unreadable hending

theorem position_of_fill (hfill : fill 1 c = .ok () c') :
    position c = .ok (offsetOf c'.buffer c'.stop) c' := by
  rw [position, bind_of_ok hfill]
  show (match c'.buffer with
    | [] => (pure c'.stop : Parser Nat)
    | (_, start) :: _ => pure start) c' = _
  cases c'.buffer <;> rfl

theorem placed_fail (cause : ReadError.Cause) : Placed (fail cause : Parser α) := by
  intro c places stop ending h
  rcases fill_faces 1 h with ⟨c₁, hfill, h₁, henough⟩ | ⟨e, c₁, hfill, hending⟩
  · rw [fail, bind_of_ok (position_of_fill hfill)]
    cases hbuffer : c₁.buffer with
    | nil =>
      rw [hbuffer] at henough
      obtain ⟨hending, rfl, rfl⟩ := henough.resolve_left (by simp)
      exact .wrong (List.suffix_refl []) h₁ fun _ => hending
    | cons place buffer =>
      obtain ⟨rest, rfl, _⟩ := Faces.of_buffer h₁ hbuffer
      exact .wrong (List.suffix_refl (place :: rest)) h₁
        fun hnil => absurd hnil (List.cons_ne_nil _ _)
  · have hposition : position c = .error e c₁ := by rw [position, bind_of_error hfill]
    rw [fail, bind_of_error hposition]
    exact .unreadable hending

/-! ## Loops and statements -/

theorem placed_manyUpTo {step : Parser (Option α)} (h : Placed step) (fuel : Nat) :
    Placed (manyUpTo step fuel) := by
  induction fuel with
  | zero => exact placed_pure []
  | succ fuel ih =>
    refine h.bind fun found => ?_
    cases found with
    | none => exact placed_pure []
    | some a => exact ih.bind fun as => placed_pure _

/-- What a loop does after its first turn. -/
theorem placed_manyAfter {step : Parser (Option α)} (h : Placed step) (found : Option α) :
    Placed (match found with
      | none => (return [] : Parser (List α))
      | some a => do return a :: (← manyUpTo step ((← get).size + 1))) := by
  cases found with
  | none => exact placed_pure []
  | some a =>
    intro c places stop ending hfaces
    have hloop := placed_manyUpTo h (c.size + 1)
    exact (hloop.bind fun as => placed_pure (a :: as)) hfaces

theorem placed_many {step : Parser (Option α)} (h : Placed step) : Placed (many step) :=
  h.bind (placed_manyAfter h)

theorem placed_statementOf {expr : Parser Expr} (h : Placed expr) : Placed (statementOf expr) := by
  have hbehind : ∀ build : Expr → Expr,
      Placed (do let _ ← advance; let _ ← advance; return build (← expr)) := fun build =>
    placed_advance.bind fun _ => placed_advance.bind fun _ => h.bind fun e => placed_pure _
  refine (placed_peekAhead 0).bind fun next => ?_
  split
  · refine (placed_peekAhead 1).bind fun second => ?_
    split
    · exact hbehind _
    · exact hbehind _
    · exact h
  · exact h

theorem ruleClosed_placed : RuleClosed fun _ p => Placed p where
  pure := placed_pure
  bind := Placed.bind
  peek := placed_peekAhead 0
  advance := placed_advance
  fail := placed_fail
  tooDeep {_} := placed_tooDeep
  many _ _ := placed_many
  statement _ _ := placed_statementOf

/-- A parser that answers has taken tokens off the front of the outlook, and so has one that fails
before the error at its end. -/
theorem Placed.suffix_of_ok {p : Parser α} (hp : Placed p) {ts : List Token} {a : α}
    (h : c.Holds ts ending) (hrun : p c = .ok a c') :
    ∃ rest, rest <:+ ts ∧ c'.Holds rest ending := by
  obtain ⟨places, stop, hfaces, rfl⟩ := h.exists_faces
  have hends := hp hfaces
  rw [hrun] at hends
  cases hends with
  | ok hrest hfaces' => exact ⟨_, hrest.map _, hfaces'.holds⟩

theorem Placed.suffix_of_error {p : Parser α} (hp : Placed p) {ts : List Token} {e : ReadError}
    (h : c.Holds ts ending) (hrun : p c = .error e c') (hending : ending ≠ some e) :
    ∃ rest, rest <:+ ts ∧ c'.Holds rest ending := by
  obtain ⟨places, stop, hfaces, rfl⟩ := h.exists_faces
  have hends := hp hfaces
  rw [hrun] at hends
  cases hends with
  | wrong hrest hfaces' _ => exact ⟨_, hrest.map _, hfaces'.holds⟩
  | deep hrest hfaces' => exact ⟨_, hrest.map _, hfaces'.holds⟩
  | unreadable hunreadable => exact absurd hunreadable hending

end Parser
end Scriptlet
