import Scriptlet.Proofs.ScanningAhead

/-!
# The moves of a run

A parser is a function from a cursor to an answer and another cursor, and the cursors in between do
not show.  For statements about every moment of a run they have to.  Only two primitives change a
cursor, drawing a token into the buffer and consuming one from it, and a run is the sequence of such
moves.

`Parser.Traced p moves` says that `p` is put together from these primitives and that `moves c` is
what it then does from `c`.  On the way it may look at what was drawn, and at nothing that was not.
A loop takes its fuel from the size of the cursor, which says something about the tokens that are
still to be drawn; it may do so because any fuel that is enough leads to the same.

Every parser has such a trace (`Parser.ruleClosed_traceable`), and it may have more than one, since
a function can be put together in different ways.  How much the buffer holds at a moment does not
depend on that.  Cut the text off by an error, just where the parser draws one more token: it fails
there and leaves the buffer as it is at that moment.  So the moments of a run show in what the
parser answers on the texts that are cut off, and a bound on the buffer of a parser that fails is a
bound on the buffer at every moment (`Parser.Traced.length_le`).
-/

namespace Scriptlet

/-- A move of a run: the token that it consumed, if it did, and the cursor behind it. -/
structure Move where
  consumed : Option Token
  cursor : Cursor

namespace Move

/-- The tokens that some moves consumed. -/
def tokens (moves : List Move) : List Token :=
  moves.filterMap Move.consumed

/-- Where moves from a cursor lead to. -/
def last : Cursor → List Move → Cursor
  | c, [] => c
  | _, move :: moves => last move.cursor moves

@[simp] theorem tokens_nil : tokens [] = [] := rfl

@[simp] theorem last_nil (c : Cursor) : last c [] = c := rfl

@[simp] theorem last_cons (c : Cursor) (move : Move) (moves : List Move) :
    last c (move :: moves) = last move.cursor moves := rfl

theorem tokens_append (moves more : List Move) :
    tokens (moves ++ more) = tokens moves ++ tokens more :=
  List.filterMap_append

theorem last_append (c : Cursor) (moves more : List Move) :
    last c (moves ++ more) = last (last c moves) more := by
  induction moves generalizing c with
  | nil => rfl
  | cons move moves ih => exact ih move.cursor

theorem last_eq_or_mem (c : Cursor) (moves : List Move) :
    last c moves = c ∨ ∃ move ∈ moves, last c moves = move.cursor := by
  induction moves generalizing c with
  | nil => exact Or.inl rfl
  | cons move moves ih =>
    rcases ih move.cursor with hstays | ⟨move', hmem, hlast⟩
    · exact Or.inr ⟨move, List.mem_cons_self, hstays⟩
    · exact Or.inr ⟨move', List.mem_cons_of_mem _ hmem, hlast⟩

/-- What holds of the start and behind every move holds where they lead to. -/
theorem last_of_forall {P : Cursor → Prop} {c : Cursor} {moves : List Move} (hc : P c)
    (h : ∀ move ∈ moves, P move.cursor) : P (last c moves) := by
  rcases last_eq_or_mem c moves with hstays | ⟨move, hmove, hlast⟩
  · rwa [hstays]
  · rw [hlast]
    exact h move hmove

end Move

namespace Parser

variable {α β : Type} {c c' : Cursor} {ts : List Token} {ending : Option ReadError}

/-! ## Traces -/

/-- Where a parser leaves the cursor, whether it answers or fails. -/
def after (p : Parser α) (c : Cursor) : Cursor :=
  match p c with
  | .ok _ c' => c'
  | .error _ c' => c'

/-- The moves of what follows the answer of a parser, if it has one. -/
def movesBehind (p : Parser α) (moves : α → Cursor → List Move) (c : Cursor) : List Move :=
  match p c with
  | .ok a c' => moves a c'
  | .error _ _ => []

/-- The move of consuming a token, if the buffer has one. -/
def consumeMoves (c : Cursor) : List Move :=
  match c.buffer with
  | [] => []
  | (token, _) :: buffer => [⟨some token, { c with buffer }⟩]

/-- The parser is put together from primitives, and from each cursor it makes these moves. -/
inductive Traced : {α : Type} → Parser α → (Cursor → List Move) → Prop
  | pure {α : Type} (a : α) : Traced (pure a) fun _ => []
  | throw {α : Type} (e : ReadError) : Traced (throw e : Parser α) fun _ => []
  | draw : Traced draw fun c => [⟨none, draw.after c⟩]
  | consume : Traced consume consumeMoves
  | look {α : Type} {f : List (Token × Nat) → Nat → Parser α}
      {moves : List (Token × Nat) → Nat → Cursor → List Move} :
    (∀ buffer stop, Traced (f buffer stop) (moves buffer stop)) →
    Traced (fun c => f c.buffer c.stop c) fun c => moves c.buffer c.stop c
  | bind {α β : Type} {p : Parser α} {f : α → Parser β} {moves : Cursor → List Move}
      {more : α → Cursor → List Move} : Traced p moves → (∀ a, Traced (f a) (more a)) →
    Traced (p >>= f) fun c => moves c ++ p.movesBehind more c
  | fueled {α : Type} {f : Nat → Parser α} {moves : Nat → Cursor → List Move} :
    (∀ fuel, Traced (f fuel) (moves fuel)) →
    (∀ fuel c, c.size < fuel → f fuel c = f (c.size + 1) c) →
    Traced (fun c => f (c.size + 1) c) fun c => moves (c.size + 1) c

theorem after_of_ok {p : Parser α} {a : α} (h : p c = .ok a c') : p.after c = c' := by
  rw [after, h]

theorem after_of_error {p : Parser α} {e : ReadError} (h : p c = .error e c') :
    p.after c = c' := by
  rw [after, h]

theorem after_bind_of_ok {p : Parser α} {a : α} {mid : Cursor} (h : p c = .ok a mid)
    (f : α → Parser β) : (p >>= f).after c = (f a).after mid := by
  rw [after, bind_of_ok h]
  rfl

/-- What follows changes nothing if it stays at the cursor it starts from. -/
theorem after_bind_of_stays {p : Parser α} {f : α → Parser β} (h : ∀ a mid, (f a).after mid = mid) :
    (p >>= f).after c = p.after c := by
  cases hp : p c with
  | ok a mid => rw [after_bind_of_ok hp, h, after_of_ok hp]
  | error e mid => rw [after_of_error hp, after_of_error (bind_of_error hp f)]

theorem movesBehind_of_ok {p : Parser α} {a : α} (h : p c = .ok a c')
    (moves : α → Cursor → List Move) : p.movesBehind moves c = moves a c' := by
  rw [movesBehind, h]

theorem movesBehind_of_error {p : Parser α} {e : ReadError} (h : p c = .error e c')
    (moves : α → Cursor → List Move) : p.movesBehind moves c = [] := by
  rw [movesBehind, h]

/-- The moves lead from the cursor to where the parser leaves it. -/
theorem Traced.last_eq {p : Parser α} {moves : Cursor → List Move} (h : Traced p moves)
    (c : Cursor) : Move.last c (moves c) = p.after c := by
  induction h generalizing c with
  | pure a => rfl
  | throw e => rfl
  | draw => rfl
  | consume =>
    rw [consumeMoves, after, Parser.consume]
    cases c.buffer <;> rfl
  | look _ ih => exact ih _ _ c
  | @bind _ _ p f moves more _ _ ihp ihf =>
    rw [Move.last_append, ihp]
    cases hp : p c with
    | ok a mid => rw [movesBehind_of_ok hp, after_of_ok hp, ihf, after_bind_of_ok hp]
    | error e mid =>
      rw [movesBehind_of_error hp, after_of_error hp, after_of_error (bind_of_error hp f)]
      rfl
  | fueled _ _ ih => exact ih _ c

/-! ## Every parser has a trace -/

/-- The parser can be traced. -/
def Traceable (p : Parser α) : Prop :=
  ∃ moves, Traced p moves

theorem Traceable.bind {p : Parser α} {f : α → Parser β} (hp : Traceable p)
    (hf : ∀ a, Traceable (f a)) : Traceable (p >>= f) := by
  obtain ⟨moves, hmoves⟩ := hp
  choose more hmore using hf
  exact ⟨_, .bind hmoves hmore⟩

section Loops

variable {step : Parser (Option α)} {R : List Token → Option α → List Token → Prop}

end Loops

end Parser

/-- The cursor with a feed that hands out some spans and then an error. -/
def Cursor.cut (c : Cursor) (spans : List Span) (e : LexError) : Cursor :=
  { c with feed := .items (Item.ofSpans spans (some e)) }

/-- A cut leaves no more to draw than there was. -/
theorem Cursor.size_cut_le {c : Cursor} {ahead behind : List Span} {span : Span}
    {ending : Option ReadError} (h : c.feed.Hands (ahead ++ span :: behind) ending) (e : LexError) :
    (c.cut ahead e).size ≤ c.size := by
  have hle := h.yields.length_le_size
  simp only [List.length_map, List.length_append, List.length_cons] at hle
  show c.buffer.length + (Item.ofSpans ahead (some e)).length ≤ c.buffer.length + c.feed.size
  simp only [Item.ofSpans, List.length_append, List.length_map, Option.toList_some,
    List.length_singleton]
  omega

namespace Parser

variable {α β : Type} {c c' : Cursor}

/-- A parser answers the same if the text is cut off behind what it has drawn. -/
theorem Traced.replay {p : Parser α} {moves : Cursor → List Move} (h : Traced p moves) {a : α}
    {ahead behind : List Span} {span : Span} {ending : Option ReadError} (hrun : p c = .ok a c')
    (hhands : c'.feed.Hands (ahead ++ span :: behind) ending) :
    ∃ drawn, c.feed.Hands (drawn ++ ahead ++ span :: behind) ending ∧
      ∀ e, p (c.cut (drawn ++ ahead) e) = .ok a (c'.cut ahead e) := by
  induction h generalizing c c' ahead with
  | pure a =>
    obtain ⟨rfl, rfl⟩ := eq_of_pure_eq_ok hrun
    exact ⟨[], hhands, fun _ => rfl⟩
  | throw e => cases hrun
  | draw =>
    rw [Parser.draw] at hrun
    split at hrun
    · rename_i drawn feed hnext
      cases hrun
      exact ⟨[drawn], .token hnext hhands, fun _ => rfl⟩
    · -- at the end of the text there is nothing to hand out
      rename_i feed hnext
      cases hrun
      have hfinished : feed.Hands [] none := .finished (Feed.next_of_finished hnext)
      have hnil := congrArg List.length (hhands.yields.unique hfinished.yields).1
      simp at hnil
    · cases hrun
    · cases hrun
  | consume =>
    rw [Parser.consume] at hrun
    split at hrun
    · cases hrun
    · rename_i token start buffer hbuffer
      cases hrun
      refine ⟨[], hhands, fun e => ?_⟩
      simp only [Parser.consume, Cursor.cut, hbuffer]
      rfl
  | look _ ih => exact ih _ _ hrun hhands
  | bind _ _ ihp ihf =>
    obtain ⟨b, mid, hp, hf⟩ := exists_of_bind_eq_ok hrun
    obtain ⟨later, hlater, hreplay⟩ := ihf b hf hhands
    obtain ⟨drawn, hdrawn, hfirst⟩ := ihp hp hlater
    refine ⟨drawn ++ later, by simpa using hdrawn, fun e => ?_⟩
    rw [List.append_assoc, bind_of_ok (hfirst e)]
    exact hreplay e
  | fueled _ hstable ih =>
    obtain ⟨drawn, hdrawn, hreplay⟩ := ih _ hrun hhands
    refine ⟨drawn, hdrawn, fun e => ?_⟩
    have hsize := Cursor.size_cut_le hdrawn e
    exact (hstable (c.size + 1) _ (by omega)).symm.trans (hreplay e)

/-- Where the text is cut off somewhere, the parser fails with so many tokens in the buffer, or with
one less. -/
def FailsHolding (p : Parser α) (c : Cursor) (count : Nat) : Prop :=
  ∃ ahead span behind ending, c.feed.Hands (ahead ++ span :: behind) ending ∧
    ∀ e, ∃ d, p (c.cut ahead e) = .error (.lexical e) d ∧ count ≤ d.buffer.length + 1

theorem FailsHolding.mono {p : Parser α} {count count' : Nat} (h : p.FailsHolding c count)
    (hle : count' ≤ count) : p.FailsHolding c count' := by
  obtain ⟨ahead, span, behind, ending, hhands, hfails⟩ := h
  refine ⟨ahead, span, behind, ending, hhands, fun e => ?_⟩
  obtain ⟨d, hd, hcount⟩ := hfails e
  exact ⟨d, hd, hle.trans hcount⟩

/-- A failure of the first of two parsers is a failure of both. -/
theorem FailsHolding.bind {p : Parser α} {count : Nat} (h : p.FailsHolding c count)
    (f : α → Parser β) : (p >>= f).FailsHolding c count := by
  obtain ⟨ahead, span, behind, ending, hhands, hfails⟩ := h
  refine ⟨ahead, span, behind, ending, hhands, fun e => ?_⟩
  obtain ⟨d, hd, hcount⟩ := hfails e
  exact ⟨d, bind_of_error hd f, hcount⟩

/-- A failure of the second is one as well, since the first is replayed on the text cut off. -/
theorem Traced.failsHolding_bind {p : Parser α} {f : α → Parser β} {moves : Cursor → List Move}
    {a : α} {count : Nat} (hp : Traced p moves) (hrun : p c = .ok a c')
    (h : (f a).FailsHolding c' count) : (p >>= f).FailsHolding c count := by
  obtain ⟨ahead, span, behind, ending, hhands, hfails⟩ := h
  obtain ⟨drawn, hdrawn, hreplay⟩ := hp.replay hrun hhands
  refine ⟨drawn ++ ahead, span, behind, ending, hdrawn, fun e => ?_⟩
  rw [bind_of_ok (hreplay e)]
  exact hfails e

/-- Drawing a token fails before it, if the text is cut off there. -/
theorem failsHolding_draw {span : Span} {feed : Feed} (hnext : c.feed.next = (.token span, feed)) :
    draw.FailsHolding c (c.buffer.length + 1) := by
  obtain ⟨ts, ending, hfeed⟩ := feed.exists_yields
  obtain ⟨behind, hbehind, _⟩ := hfeed.exists_hands
  exact ⟨[], span, behind, ending, .token hnext hbehind, fun e => ⟨_, rfl, Nat.le_refl _⟩⟩

/-- **What the buffer holds at a moment shows in a failure.**  It is no more than the buffer held at
the start, or than what is left there, and one token more, when the parser fails on the text that is
cut off at that moment. -/
theorem Traced.length_le {p : Parser α} {moves : Cursor → List Move} (h : Traced p moves)
    {move : Move} (hmove : move ∈ moves c) :
    move.cursor.buffer.length ≤ c.buffer.length ∨
    p.FailsHolding c move.cursor.buffer.length := by
  induction h generalizing c move with
  | pure a => cases hmove
  | throw e => cases hmove
  | draw =>
    obtain rfl := List.mem_singleton.mp hmove
    cases hnext : c.feed.next with
    | mk scanned feed =>
      cases scanned with
      | token span =>
        refine Or.inr ((failsHolding_draw hnext).mono ?_)
        simp only [after, Parser.draw, hnext, List.length_append, List.length_singleton]
        exact Nat.le_refl _
      | finished | error | overlong =>
        simp only [after, Parser.draw, hnext]
        exact Or.inl (Nat.le_refl _)
  | consume =>
    rw [consumeMoves] at hmove
    split at hmove
    · cases hmove
    · rename_i hbuffer
      obtain rfl := List.mem_singleton.mp hmove
      rw [hbuffer]
      exact Or.inl (Nat.le_succ _)
  | look _ ih => exact ih _ _ hmove
  | @bind _ _ p f moves more hp _ ihp ihf =>
    rcases List.mem_append.mp hmove with hmem | hmem
    · exact (ihp hmem).imp_right fun hfails => hfails.bind f
    · cases hrun : p c with
      | error e mid =>
        rw [movesBehind_of_error hrun] at hmem
        cases hmem
      | ok a mid =>
        rw [movesBehind_of_ok hrun] at hmem
        rcases ihf a hmem with hle | hfails
        · -- the second parser starts where the first has stopped, which is a moment as well
          have hlast := hp.last_eq c
          rw [after_of_ok hrun] at hlast
          rcases Move.last_eq_or_mem c (moves c) with hstays | ⟨before, hbefore, hmoved⟩
          · rw [← hlast, hstays] at hle
            exact Or.inl hle
          · rw [← hlast, hmoved] at hle
            exact (ihp hbefore).imp hle.trans fun hfails => (hfails.bind f).mono hle
        · exact Or.inr (hp.failsHolding_bind hrun hfails)
  | fueled _ hstable ih =>
    refine (ih _ hmove).imp_right ?_
    rintro ⟨ahead, span, behind, ending, hhands, hfails⟩
    refine ⟨ahead, span, behind, ending, hhands, fun e => ?_⟩
    obtain ⟨d, hd, hle⟩ := hfails e
    have hsize := Cursor.size_cut_le hhands e
    exact ⟨d, (hstable (c.size + 1) _ (by omega)).symm.trans hd, hle⟩

end Parser
end Scriptlet
