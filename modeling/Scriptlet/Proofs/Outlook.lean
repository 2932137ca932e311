import Scriptlet.Proofs.Scanning
import Scriptlet.Token.Cursor

/-!
# What a cursor has before it

A cursor draws its tokens as they are asked for, so that the same place in a text can be met with
more or fewer of them in the buffer.  To a parser that makes no difference.  What counts is the
outlook: the tokens still to come, buffered or not, and what comes behind the last of them, the end
of the text or an error.

`Feed.Yields` says what a feed will hand out, and `Cursor.Holds` adds the buffer.  The steps that
look ahead keep the outlook, the steps that consume take one token off its front, and each of them
answers from the outlook alone.  Every cursor has an outlook, because drawing a token makes the feed
smaller.

For each primitive of the parsers there is one lemma here, about a cursor with a given outlook.  It
says what the primitive answers, or that it ran into the error at the end of the outlook.
-/

namespace Scriptlet

/-! ## Feeds -/

namespace Feed

variable {feed left : Feed}

theorem next_scanner {s after : Scanner} {scanned : Scanned} (h : s.next = (scanned, after)) :
    (Feed.scanner s).next = (scanned, .scanner after) := by
  rw [next, h]

/-- Drawing a token makes the feed smaller. -/
theorem size_lt_of_token {span : Span} (h : feed.next = (.token span, left)) :
    left.size < feed.size := by
  cases feed with
  | scanner s =>
    rw [next, Prod.mk.injEq] at h
    obtain ⟨hscanned, rfl⟩ := h
    exact Scanner.length_lt_of_token (Prod.ext hscanned rfl)
  | items pending =>
    match pending with
    | [] => simp [next] at h
    | .error e :: pending => simp [next] at h
    | .token span' :: pending =>
      rw [next, Prod.mk.injEq] at h
      obtain ⟨_, rfl⟩ := h
      exact Nat.lt_succ_self _

/-- A feed at its end stays there. -/
theorem next_of_finished (h : feed.next = (.finished, left)) : left.next = (.finished, left) := by
  cases feed with
  | scanner s =>
    rw [next, Prod.mk.injEq] at h
    obtain ⟨hscanned, rfl⟩ := h
    have hstay := Scanner.next_of_finished (s := s) (Prod.ext hscanned rfl)
    rw [next, hstay]
  | items pending =>
    match pending with
    | [] =>
      rw [next, Prod.mk.injEq] at h
      obtain ⟨_, rfl⟩ := h
      rfl
    | .error e :: pending => simp [next] at h
    | .token span' :: pending => simp [next] at h

/-- What a feed hands out: some tokens, and then the end of the text or an error. -/
inductive Yields : Feed → List Token → Option ReadError → Prop
  | finished {feed left : Feed} : feed.next = (.finished, left) → Yields feed [] none
  | error {feed left : Feed} {e : LexError} : feed.next = (.error e, left) →
    Yields feed [] (some (.lexical e))
  | overlong {feed left : Feed} {digits : Nat} : feed.next = (.overlong digits, left) →
    Yields feed [] (some (.overlong digits))
  | token {feed left : Feed} {span : Span} {ts : List Token} {ending : Option ReadError} :
    feed.next = (.token span, left) → Yields left ts ending → Yields feed (span.token :: ts) ending

theorem exists_yields (feed : Feed) : ∃ ts ending, feed.Yields ts ending := by
  induction hsize : feed.size using Nat.strongRecOn generalizing feed with
  | ind size ih =>
    cases hnext : feed.next with
    | mk scanned left =>
      cases scanned with
      | finished => exact ⟨[], none, .finished hnext⟩
      | error e => exact ⟨[], _, .error hnext⟩
      | overlong digits => exact ⟨[], _, .overlong hnext⟩
      | token span =>
        obtain ⟨ts, ending, hleft⟩ := ih left.size (hsize ▸ size_lt_of_token hnext) left rfl
        exact ⟨span.token :: ts, ending, .token hnext hleft⟩

theorem Yields.length_le_size {ts : List Token} {ending : Option ReadError}
    (h : feed.Yields ts ending) : ts.length ≤ feed.size := by
  induction h with
  | finished | error | overlong => exact Nat.zero_le _
  | token hnext _ ih =>
    have hlt := size_lt_of_token hnext
    rw [List.length_cons]
    omega

theorem Yields.unique {ts ts' : List Token} {ending ending' : Option ReadError}
    (h : feed.Yields ts ending) (h' : feed.Yields ts' ending') : ts = ts' ∧ ending = ending' := by
  induction h generalizing ts' with
  | finished hnext => cases h' <;> simp_all
  | error hnext => cases h' <;> simp_all
  | overlong hnext => cases h' <;> simp_all
  | token hnext _ ih =>
    cases h' with
    | token hnext' hleft' =>
      rw [hnext, Prod.mk.injEq, Scanned.token.injEq] at hnext'
      obtain ⟨rfl, rfl⟩ := hnext'
      obtain ⟨rfl, rfl⟩ := ih hleft'
      exact ⟨rfl, rfl⟩
    | finished hnext' | error hnext' | overlong hnext' => simp_all

/-- Scanned items without an error hand out their tokens. -/
theorem yields_items (spans : List Span) :
    Yields (.items (spans.map .token)) (spans.map Span.token) none := by
  induction spans with
  | nil => exact .finished rfl
  | cons span spans ih => exact .token rfl ih

end Feed

/-! ## Cursors -/

/-- The outlook of a cursor: the tokens still to come, and what comes behind them. -/
def Cursor.Holds (c : Cursor) (ts : List Token) (ending : Option ReadError) : Prop :=
  ∃ pending, c.feed.Yields pending ending ∧ ts = c.buffer.map Prod.fst ++ pending

namespace Cursor

variable {c : Cursor} {ts : List Token} {ending : Option ReadError}

theorem exists_holds (c : Cursor) : ∃ ts ending, c.Holds ts ending := by
  obtain ⟨pending, ending, hfeed⟩ := c.feed.exists_yields
  exact ⟨_, ending, pending, hfeed, rfl⟩

theorem Holds.length_le_size (h : c.Holds ts ending) : ts.length ≤ c.size := by
  obtain ⟨pending, hfeed, rfl⟩ := h
  have hpending := hfeed.length_le_size
  rw [List.length_append, List.length_map, size]
  omega

/-- A cursor has only one outlook. -/
theorem Holds.unique {ts' : List Token} {ending' : Option ReadError} (h : c.Holds ts ending)
    (h' : c.Holds ts' ending') : ts = ts' ∧ ending = ending' := by
  obtain ⟨pending, hfeed, rfl⟩ := h
  obtain ⟨pending', hfeed', rfl⟩ := h'
  obtain ⟨rfl, rfl⟩ := hfeed.unique hfeed'
  exact ⟨rfl, rfl⟩

theorem holds_ofItems (spans : List Span) :
    (ofItems (spans.map .token)).Holds (spans.map Span.token) none :=
  ⟨_, Feed.yields_items spans, rfl⟩

/-- Every list of tokens can be before a cursor. -/
theorem exists_of_tokens (ts : List Token) : ∃ c : Cursor, c.Holds ts none := by
  have hspans : (ts.map fun t => (⟨0, t, 0⟩ : Span)).map Span.token = ts := by
    rw [List.map_map]
    exact List.map_id ts
  exact ⟨_, hspans ▸ holds_ofItems (ts.map fun t => ⟨0, t, 0⟩)⟩

end Cursor

namespace Parser

variable {α β : Type} {c c' : Cursor} {ts : List Token} {ending : Option ReadError}

/-! ## Steps one after the other -/

theorem bind_of_ok {p : Parser α} {a : α} (h : p c = .ok a c') (f : α → Parser β) :
    (p >>= f) c = f a c' := by
  show EStateM.bind p f c = f a c'
  rw [EStateM.bind, h]

theorem bind_of_error {p : Parser α} {e : ReadError} (h : p c = .error e c')
    (f : α → Parser β) : (p >>= f) c = .error e c' := by
  show EStateM.bind p f c = .error e c'
  rw [EStateM.bind, h]

/-- A sequence of two steps succeeds only if both do. -/
theorem exists_of_bind_eq_ok {p : Parser α} {f : α → Parser β} {b : β}
    (h : (p >>= f) c = .ok b c') : ∃ a mid, p c = .ok a mid ∧ f a mid = .ok b c' := by
  cases hp : p c with
  | ok a mid =>
    rw [bind_of_ok hp] at h
    exact ⟨a, mid, rfl, h⟩
  | error e mid =>
    rw [bind_of_error hp] at h
    exact absurd h (by simp)

/-- A sequence of two steps fails where the first does, or the second behind the first. -/
theorem cases_of_bind_eq_error {p : Parser α} {f : α → Parser β} {e : ReadError}
    (h : (p >>= f) c = .error e c') :
    p c = .error e c' ∨ ∃ a mid, p c = .ok a mid ∧ f a mid = .error e c' := by
  cases hp : p c with
  | ok a mid =>
    rw [bind_of_ok hp] at h
    exact Or.inr ⟨a, mid, rfl, h⟩
  | error e' mid =>
    rw [bind_of_error hp] at h
    obtain ⟨rfl, rfl⟩ : e' = e ∧ mid = c' := by simpa using h
    exact Or.inl rfl

theorem eq_of_pure_eq_ok {a b : α} (h : (pure a : Parser α) c = .ok b c') : a = b ∧ c = c' := by
  have hok : EStateM.Result.ok a c = (.ok b c' : EStateM.Result ReadError Cursor α) := h
  simpa using hok

theorem exists_of_map_eq_ok {p : Parser α} {f : α → β} {b : β} (h : (f <$> p) c = .ok b c') :
    ∃ a, p c = .ok a c' ∧ b = f a := by
  cases hp : p c with
  | ok a mid =>
    have hok : (f <$> p) c = .ok (f a) mid := by
      show EStateM.map f p c = _
      rw [EStateM.map, hp]
    rw [hok] at h
    obtain ⟨rfl, rfl⟩ : f a = b ∧ mid = c' := by simpa using h
    exact ⟨a, rfl, rfl⟩
  | error e mid =>
    have herror : (f <$> p) c = .error e mid := by
      show EStateM.map f p c = _
      rw [EStateM.map, hp]
    rw [herror] at h
    cases h

/-! ## Looking ahead -/

/-- Drawing one token: it is added to the buffer, or there is none, or the outlook ends with an
error. -/
theorem draw_cases (h : c.Holds ts ending) :
    (∃ c', draw c = .ok true c' ∧ c'.Holds ts ending ∧
      c'.buffer.length = c.buffer.length + 1) ∨
    (∃ c', draw c = .ok false c' ∧ c'.Holds ts ending ∧ ending = none ∧
      c'.buffer.length = ts.length) ∨
    ∃ e c', draw c = .error e c' ∧ ending = some e ∧ c.buffer.length = ts.length := by
  obtain ⟨pending, hfeed, rfl⟩ := h
  cases hfeed with
  | @finished _ left hnext =>
    refine Or.inr (Or.inl ⟨{ c with feed := left }, ?_, ⟨[], ?_, rfl⟩, rfl, by simp⟩)
    · simp only [draw, hnext]
    · exact .finished (Feed.next_of_finished hnext)
  | error hnext => exact Or.inr (Or.inr ⟨_, _, by simp only [draw, hnext]; rfl, rfl, by simp⟩)
  | overlong hnext => exact Or.inr (Or.inr ⟨_, _, by simp only [draw, hnext]; rfl, rfl, by simp⟩)
  | token hnext hleft =>
    refine Or.inl ⟨_, by simp only [draw, hnext]; rfl, ⟨_, hleft, by simp⟩, by simp⟩

theorem drawUpTo_cases (count : Nat) (h : c.Holds ts ending) :
    (∃ c', drawUpTo count c = .ok () c' ∧ c'.Holds ts ending ∧
      (c.buffer.length + count ≤ c'.buffer.length ∨ c'.buffer.length = ts.length)) ∨
    ∃ e c', drawUpTo count c = .error e c' ∧ ending = some e ∧
      ts.length < c.buffer.length + count := by
  induction count generalizing c with
  | zero => exact Or.inl ⟨c, rfl, h, Or.inl (Nat.le_refl _)⟩
  | succ count ih =>
    rw [drawUpTo]
    rcases draw_cases h with ⟨c₁, hdraw, h₁, hlength⟩ | ⟨c₁, hdraw, h₁, _, hall⟩ |
      ⟨e, c₁, hdraw, hending, hall⟩
    · rw [bind_of_ok hdraw, if_pos rfl]
      rcases ih h₁ with ⟨c₂, hrest, h₂, henough⟩ | ⟨e, c₂, hrest, hending, hshort⟩
      · refine Or.inl ⟨c₂, hrest, h₂, henough.imp_left fun hle => ?_⟩
        omega
      · exact Or.inr ⟨e, c₂, hrest, hending, by omega⟩
    · rw [bind_of_ok hdraw, if_neg (by simp)]
      exact Or.inl ⟨c₁, rfl, h₁, Or.inr hall⟩
    · rw [bind_of_error hdraw]
      exact Or.inr ⟨e, c₁, rfl, hending, by omega⟩

/-- After filling, the buffer holds so many tokens, or all of the outlook. -/
theorem fill_cases (count : Nat) (h : c.Holds ts ending) :
    (∃ c', fill count c = .ok () c' ∧ c'.Holds ts ending ∧
      (count ≤ c'.buffer.length ∨ c'.buffer.length = ts.length)) ∨
    ∃ e c', fill count c = .error e c' ∧ ending = some e ∧ ts.length < count := by
  have hbuffer : c.buffer.length ≤ ts.length := by
    obtain ⟨pending, _, rfl⟩ := h
    simp
  rcases drawUpTo_cases (count - c.buffer.length) h with ⟨c', hfill, h', henough⟩ |
    ⟨e, c', hfill, hending, hshort⟩
  · exact Or.inl ⟨c', hfill, h', henough.imp_left fun hle => by omega⟩
  · exact Or.inr ⟨e, c', hfill, hending, by omega⟩

/-- Looking ahead keeps the outlook and answers from it. -/
theorem peekAhead_cases (ahead : Nat) (h : c.Holds ts ending) :
    (∃ c', peekAhead ahead c = .ok ts[ahead]? c' ∧ c'.Holds ts ending) ∨
    ∃ e c', peekAhead ahead c = .error e c' ∧ ending = some e ∧ ts.length ≤ ahead := by
  rw [peekAhead]
  rcases fill_cases (ahead + 1) h with ⟨c', hfill, h', henough⟩ | ⟨e, c', hfill, hending, hshort⟩
  · refine Or.inl ⟨c', ?_, h'⟩
    rw [bind_of_ok hfill]
    obtain ⟨pending, _, rfl⟩ := h'
    show EStateM.Result.ok (c'.buffer[ahead]?.map Prod.fst) c' = _
    congr 1
    rcases henough with hle | hall
    · rw [List.getElem?_append_left (by rw [List.length_map]; omega), List.getElem?_map]
    · have hnil : pending = [] := by
        rw [List.length_append, List.length_map] at hall
        exact List.eq_nil_of_length_eq_zero (by omega)
      rw [hnil, List.append_nil, List.getElem?_map]
  · rw [bind_of_error hfill]
    exact Or.inr ⟨e, c', rfl, hending, by omega⟩

/-! ## Taking a token -/

/-- Consuming takes one token off the outlook, if it has one. -/
theorem consume_cases {token : Token} (h : c.Holds (token :: ts) ending) (hbuffer : c.buffer ≠ []) :
    ∃ c', consume c = .ok token c' ∧ c'.Holds ts ending := by
  obtain ⟨pending, hfeed, hts⟩ := h
  obtain ⟨⟨t, start⟩, buffer, hc⟩ := List.exists_cons_of_ne_nil hbuffer
  rw [hc, List.map_cons, List.cons_append, List.cons.injEq] at hts
  refine ⟨{ c with buffer }, ?_, pending, hfeed, hts.2⟩
  simp only [consume, hc, hts.1]

theorem advance_cases {token : Token} (h : c.Holds (token :: ts) ending) :
    ∃ c', advance c = .ok token c' ∧ c'.Holds ts ending := by
  rcases fill_cases 1 h with ⟨c₁, hfill, h₁, henough⟩ | ⟨e, c₁, _, _, hshort⟩
  · have hbuffer : c₁.buffer ≠ [] := by
      refine List.ne_nil_of_length_pos ?_
      rw [List.length_cons] at henough
      omega
    obtain ⟨c₂, hconsume, h₂⟩ := consume_cases h₁ hbuffer
    refine ⟨c₂, ?_, h₂⟩
    rw [advance, bind_of_ok hfill, hconsume]
  · rw [List.length_cons] at hshort
    omega

/-- With no token before it, a cursor has none to give. -/
theorem advance_ne_ok {token : Token} (h : c.Holds [] ending) : advance c ≠ .ok token c' := by
  intro hp
  obtain ⟨_, c₁, hfill, hconsume⟩ := exists_of_bind_eq_ok hp
  rcases fill_cases 1 h with ⟨c₂, hfill', h₂, _⟩ | ⟨e, c₂, hfill', _⟩
  · rw [hfill'] at hfill
    obtain rfl : c₂ = c₁ := by simpa using hfill
    obtain ⟨pending, _, hts⟩ := h₂
    have hbuffer : c₂.buffer = [] := by
      rw [eq_comm, List.append_eq_nil_iff, List.map_eq_nil_iff] at hts
      exact hts.1
    simp only [consume, hbuffer] at hconsume
    cases hconsume
  · rw [hfill'] at hfill
    cases hfill

theorem fail_ne_ok {cause : ReadError.Cause} {a : α} : (fail cause : Parser α) c ≠ .ok a c' := by
  intro hp
  obtain ⟨_, c₁, _, hthrow⟩ := exists_of_bind_eq_ok hp
  cases hthrow

end Parser
end Scriptlet
