import Scriptlet.Proofs.Lookahead

/-!
# No token is lost and none is read twice

A cursor can be asked for many things, and one that fails half-way leaves it wherever it was.  At
every moment of every session the tokens of the text are in one of three places: they were consumed,
they are in the buffer, or the scanner has still to hand them out.  Put behind one another these
three are always the tokens of the text, up to the place where it cannot be scanned.

The books are kept with spans (`Cursor.Accounts`).  The spans of the text are cut into those that
were consumed, those in the buffer and those that are pending; the buffer and the end of the last
drawn token are what the first two parts say.  Drawing a token moves a span from the third part to
the second and consuming one from the second to the first.  An error of the scanner moves nothing,
because it gives up the rest of the text and nothing was pending any more.  By `Parser.Traced` these
are all moves there are, and so the books balance at every moment.

They also tell how many tokens were consumed from the cursor alone (`Cursor.Keeps.unique`).  A
request that only looks keeps the books as they are, hence it has consumed nothing, whatever its
moves are.

How much is in the buffer of a session made of rules is the subject of `Lookahead`.
-/

namespace Scriptlet

/-! ## What a scanner hands out -/

namespace Scanner

variable {s : Scanner} {spans : List Span} {ending : Option LexError}

theorem Sweeps.drain_eq (h : s.Sweeps spans ending) : s.drain = .ok (Item.ofSpans spans ending) :=
  h.drained _ (Nat.lt_succ_self _)

theorem Sweeps.hands (h : s.Sweeps spans ending) :
    (Feed.scanner s).Hands spans (ending.map .lexical) := by
  obtain ⟨spans', ending', hitems, hhands⟩ := hands_of_drain h.drain_eq
  obtain ⟨rfl, rfl⟩ := Item.ofSpans_inj hitems
  exact hhands

end Scanner

/-! ## The books -/

/-- The books of a cursor: the spans that were consumed, those in the buffer, and those that the
scanner has still to hand out. -/
structure Cursor.Accounts (c : Cursor) (past ahead pending : List Span) : Prop where
  buffer : c.buffer = ahead.map Span.place
  stop : c.stop = Span.lastStop 0 (past ++ ahead)
  feed : ∃ s ending, c.feed = .scanner s ∧ s.NoOverlong ∧
    c.feed.Hands pending (Option.map ReadError.lexical ending)

namespace Cursor

variable {c : Cursor} {past ahead pending spans : List Span} {taken : List Token}

/-- Drawing moves a span into the buffer, or it moves nothing. -/
theorem Accounts.draw (h : c.Accounts past ahead pending) :
    ∃ ahead' pending', ahead' ++ pending' = ahead ++ pending ∧
      (Parser.draw.after c).Accounts past ahead' pending' := by
  obtain ⟨hbuffer, hstop, s, ending, hscanner, hshort, hhands⟩ := h
  have hleft : c.feed.next.2 = .scanner s.next.2 := by rw [hscanner, Feed.next]
  have hscanned : c.feed.next.1 = s.next.1 := by rw [hscanner, Feed.next]
  -- behind the last token the scanner is at its end, or gives up the text and is there as well
  have hended : ∀ {left : Feed}, c.feed.next.2 = left → left.Hands [] none →
      ({ c with feed := left } : Cursor).Accounts past ahead [] := by
    rintro left rfl hnil
    exact ⟨hbuffer, hstop, _, none, hleft, hshort.next, hnil⟩
  generalize hending : ending.map ReadError.lexical = behind at hhands
  cases hhands with
  | finished hnext =>
    refine ⟨ahead, [], rfl, ?_⟩
    simp only [Parser.after, Parser.draw, hnext]
    exact hended (by rw [hnext]) (.finished (Feed.next_of_finished hnext))
  | @error _ left e hnext =>
    refine ⟨ahead, [], rfl, ?_⟩
    simp only [Parser.after, Parser.draw, hnext]
    refine hended (by rw [hnext]) ?_
    have herror : s.next = (.error e, s.next.2) := Prod.ext (by rw [← hscanned, hnext]) rfl
    have hleft' : left = .scanner s.next.2 := by rw [← hleft, hnext]
    have hfinished := Scanner.next_of_rest_nil (Scanner.rest_of_error herror)
    exact hleft' ▸ .finished (Feed.next_scanner hfinished)
  | overlong hnext => cases ending <;> cases hending
  | @token _ left span pending _ hnext hrest =>
    refine ⟨ahead ++ [span], pending, by simp, ?_⟩
    simp only [Parser.after, Parser.draw, hnext]
    refine ⟨?_, ?_, s.next.2, ending, ?_, hshort.next, hending ▸ hrest⟩
    · rw [hbuffer, List.map_append]
      rfl
    · simp [Span.lastStop]
    · rw [← hleft, hnext]

/-- Consuming moves a span out of the buffer. -/
theorem Accounts.consume {token : Token} {start : Nat} {buffer : List (Token × Nat)}
    (h : c.Accounts past ahead pending) (hbuffer : c.buffer = (token, start) :: buffer) :
    ∃ span ahead', ahead = span :: ahead' ∧ span.token = token ∧
      ({ c with buffer } : Cursor).Accounts (past ++ [span]) ahead' pending := by
  have hplaces := h.buffer
  rw [hbuffer] at hplaces
  cases ahead with
  | nil => cases hplaces
  | cons span ahead' =>
    rw [List.map_cons, List.cons.injEq] at hplaces
    refine ⟨span, ahead', rfl, (congrArg Prod.fst hplaces.1).symm, hplaces.2, ?_, h.feed⟩
    rw [List.append_assoc]
    exact h.stop

/-- The books of a cursor in the text with these spans balance, and these tokens were consumed. -/
def Keeps (c : Cursor) (spans : List Span) (taken : List Token) : Prop :=
  ∃ past ahead pending, spans = past ++ (ahead ++ pending) ∧ taken = past.map Span.token ∧
    c.Accounts past ahead pending

theorem Keeps.draw (h : c.Keeps spans taken) : (Parser.draw.after c).Keeps spans taken := by
  obtain ⟨past, ahead, pending, rfl, rfl, haccounts⟩ := h
  obtain ⟨ahead', pending', heq, haccounts'⟩ := haccounts.draw
  exact ⟨past, ahead', pending', by rw [heq], rfl, haccounts'⟩

theorem Keeps.consume {token : Token} {start : Nat} {buffer : List (Token × Nat)}
    (h : c.Keeps spans taken) (hbuffer : c.buffer = (token, start) :: buffer) :
    ({ c with buffer } : Cursor).Keeps spans (taken ++ [token]) := by
  obtain ⟨past, ahead, pending, rfl, rfl, haccounts⟩ := h
  obtain ⟨span, ahead', rfl, rfl, haccounts'⟩ := haccounts.consume hbuffer
  exact ⟨past ++ [span], ahead', pending, by simp, by simp, haccounts'⟩

/-- The cursor alone tells what was consumed. -/
theorem Keeps.unique {taken' : List Token} (h : c.Keeps spans taken)
    (h' : c.Keeps spans taken') : taken = taken' := by
  obtain ⟨past, ahead, pending, hspans, rfl, haccounts⟩ := h
  obtain ⟨past', ahead', pending', hspans', rfl, haccounts'⟩ := h'
  obtain ⟨_, _, _, _, hhands⟩ := haccounts.feed
  obtain ⟨_, _, _, _, hhands'⟩ := haccounts'.feed
  have hpending := congrArg List.length (hhands.unique hhands').1
  have hahead := congrArg List.length (haccounts.buffer.symm.trans haccounts'.buffer)
  have hlength := congrArg List.length (hspans.symm.trans hspans')
  simp only [List.length_append, List.length_map] at hahead hlength
  rw [(List.append_inj (hspans.symm.trans hspans') (by omega)).1]

theorem Keeps.drawUpTo (h : c.Keeps spans taken) (count : Nat) :
    ((Parser.drawUpTo count).after c).Keeps spans taken := by
  induction count generalizing c with
  | zero => exact h
  | succ count ih =>
    have hdrawn := h.draw
    rw [Parser.after, Parser.drawUpTo]
    cases hdraw : Parser.draw c with
    | error e c₁ =>
      rw [Parser.bind_of_error hdraw]
      rwa [Parser.after_of_error hdraw] at hdrawn
    | ok drawn c₁ =>
      rw [Parser.after_of_ok hdraw] at hdrawn
      rw [Parser.bind_of_ok hdraw]
      cases drawn with
      | true => exact ih hdrawn
      | false => exact hdrawn

theorem Keeps.fill (h : c.Keeps spans taken) (count : Nat) :
    ((Parser.fill count).after c).Keeps spans taken :=
  h.drawUpTo (count - c.buffer.length)

theorem Keeps.peekAhead (h : c.Keeps spans taken) (ahead : Nat) :
    ((Parser.peekAhead ahead).after c).Keeps spans taken := by
  rw [Parser.peekAhead, Parser.after_bind_of_stays fun _ _ => rfl]
  exact h.fill (ahead + 1)

theorem Keeps.isAt (h : c.Keeps spans taken) (kind : Token.Kind) :
    ((Parser.isAt kind).after c).Keeps spans taken := by
  rw [Parser.isAt, Parser.after_bind_of_stays fun _ _ => rfl]
  exact h.peekAhead 0

theorem Keeps.position (h : c.Keeps spans taken) :
    (Parser.position.after c).Keeps spans taken := by
  have hfilled := h.fill 1
  cases hfill : Parser.fill 1 c with
  | ok _ c' =>
    rw [Parser.after_of_ok hfill] at hfilled
    rwa [Parser.after_of_ok (Parser.position_of_fill hfill)]
  | error e c' =>
    rw [Parser.after_of_error hfill] at hfilled
    rwa [Parser.position, Parser.after_of_error (Parser.bind_of_error hfill _)]

/-- A token that is not of the kind is not consumed; one that is of the kind is no failure. -/
theorem Keeps.expectBy {α : Type} {kind : Token.Kind} {accept : Token → Option α} {e : ReadError}
    {c' : Cursor} (h : c.Keeps spans taken)
    (hrun : Parser.expectBy kind accept c = .error e c') : c'.Keeps spans taken := by
  have hpeeked : (Parser.peek.after c).Keeps spans taken := h.peekAhead 0
  rcases Parser.cases_of_bind_eq_error hrun with hpeek | ⟨next, mid, hpeek, hnext⟩
  · rwa [Parser.after_of_error hpeek] at hpeeked
  · rw [Parser.after_of_ok hpeek] at hpeeked
    cases haccept : next.bind accept with
    | none =>
      simp only [haccept] at hnext
      have hplaced := hpeeked.position
      rcases Parser.cases_of_bind_eq_error hnext with hposition | ⟨offset, last, hposition, hthrow⟩
      · rwa [Parser.after_of_error hposition] at hplaced
      · rw [Parser.after_of_ok hposition] at hplaced
        cases hthrow
        exact hplaced
    | some a =>
      simp only [haccept] at hnext
      obtain ⟨token, rfl, _⟩ := Option.bind_eq_some_iff.mp haccept
      obtain ⟨ts, ending, hts⟩ := c.exists_holds
      obtain ⟨_, ⟨hhead, rfl⟩, hmid⟩ := Parser.reads_peek hts hpeek
      obtain ⟨rest, rfl⟩ := List.head?_eq_some_iff.mp hhead.symm
      obtain ⟨c₁, hadvance, _⟩ := Parser.advance_cases hmid
      rw [Parser.bind_of_ok hadvance] at hnext
      cases hnext

end Cursor

/-! ## Requests -/

/-- What a cursor can be asked for: one of the primitives, or a rule of the grammar. -/
inductive Request where
  | peekAhead (ahead : Nat)
  | isAt (kind : Token.Kind)
  | position
  | advance
  | expect (kind : Token.Kind)
  | skipSemicolons
  | program
  | function
  | param
  | body
  | statement
  | expr
  | conjunction
  | comparison
  | sum
  | term
  | termFrom (first : Expr)
  | unary
  | primary
  | arguments
  | parenthesised
  | ifElse

namespace Request

/-- What is answered. -/
@[reducible] def Answer : Request → Type
  | .peekAhead _ => Option Token
  | .isAt _ => Bool
  | .position => Nat
  | .advance | .expect _ => Token
  | .skipSemicolons => Unit
  | .program => Program
  | .function => Function
  | .param => Param
  | .body | .arguments => List Expr
  | .statement | .expr | .conjunction | .comparison | .sum | .term | .termFrom _ => Expr
  | .unary | .primary | .parenthesised | .ifElse => Expr

/-- The parser that answers. -/
def parser (budget : Nat) : (q : Request) → Parser q.Answer
  | .peekAhead ahead => Parser.peekAhead ahead
  | .isAt kind => Parser.isAt kind
  | .position => Parser.position
  | .advance => Parser.advance
  | .expect kind => Parser.expect kind
  | .skipSemicolons => Parser.skipSemicolons
  | .program => Parser.program budget
  | .function => Parser.function budget
  | .param => Parser.param
  | .body => Parser.body budget
  | .statement => Parser.statement budget
  | .expr => Parser.expr budget
  | .conjunction => Parser.conjunction budget
  | .comparison => Parser.comparison budget
  | .sum => Parser.sum budget
  | .term => Parser.term budget
  | .termFrom first => Parser.termFrom budget first
  | .unary => Parser.unary budget
  | .primary => Parser.primary budget
  | .arguments => Parser.arguments budget
  | .parenthesised => Parser.parenthesised budget
  | .ifElse => Parser.ifElse budget

/-- Whether a rule of the grammar is asked for. -/
def isRule : Request → Bool
  | .peekAhead _ | .isAt _ | .position | .advance | .expect _ | .skipSemicolons => false
  | _ => true

variable {q : Request} {c : Cursor}

/-- What passes through the rules holds of the requests for them. -/
theorem of_ruleClosed {P : (α : Type) → Parser α → Prop} (hP : Parser.RuleClosed P) (budget : Nat)
    (h : q.isRule = true) : P q.Answer (q.parser budget) := by
  have hrules := hP.rules budget
  cases q with
  | peekAhead | isAt | position | advance | expect | skipSemicolons => cases h
  | program => exact hP.program budget
  | function => exact hP.function budget
  | param => exact hP.param
  | body => exact hrules.body
  | statement => exact hrules.statement
  | expr => exact hrules.expr
  | conjunction => exact hrules.conjunction
  | comparison => exact hrules.comparison
  | sum => exact hrules.sum
  | term => exact hrules.term
  | termFrom first => exact hrules.termFrom first
  | unary => exact hrules.unary
  | primary => exact hrules.primary
  | arguments => exact hrules.arguments
  | parenthesised => exact hrules.parenthesised
  | ifElse => exact hrules.ifElse

theorem tidy (budget : Nat) (h : q.isRule = true) : (q.parser budget).Tidy :=
  (of_ruleClosed Parser.ruleClosed_tidy budget h).2

end Request

/-! ## Sessions -/

variable {budget : Nat} {c : Cursor} {requests : List Request} {moves : List Move}
  {spans : List Span} {taken : List Token}

/-- The cursor after some requests, whether they were answered or failed. -/
def Cursor.afterAll (budget : Nat) : Cursor → List Request → Cursor
  | c, [] => c
  | c, q :: requests => afterAll budget ((q.parser budget).after c) requests

/-- The moves that some requests make, one request after the other. -/
inductive Session (budget : Nat) : Cursor → List Request → List Move → Prop
  | done {c : Cursor} : Session budget c [] []
  | step {c : Cursor} {q : Request} {requests : List Request} {moves : Cursor → List Move}
      {more : List Move} : (q.parser budget).Traced moves →
    Session budget ((q.parser budget).after c) requests more →
    Session budget c (q :: requests) (moves c ++ more)

namespace Session

theorem last_eq (h : Session budget c requests moves) :
    Move.last c moves = c.afterAll budget requests := by
  induction h with
  | done => rfl
  | step hmoves _ ih => rw [Move.last_append, hmoves.last_eq, ih, Cursor.afterAll]

/-- At no moment of a session made of rules the buffer holds more than two tokens. -/
theorem length_le (h : Session budget c requests moves)
    (hrules : ∀ q ∈ requests, q.isRule = true) (hc : c.buffer.length ≤ 2) :
    ∀ move ∈ moves, move.cursor.buffer.length ≤ 2 := by
  induction h with
  | done => exact fun move hmove => absurd hmove List.not_mem_nil
  | @step c q requests first _ hmoves _ ih =>
    have hq := hrules q List.mem_cons_self
    have hfirst := (Request.tidy budget hq).moves_length_le hmoves hc
    have hmid : ((q.parser budget).after c).buffer.length ≤ 2 := by
      rw [← hmoves.last_eq]
      exact Move.last_of_forall (P := fun c => c.buffer.length ≤ 2) hc hfirst
    intro move hmove
    rcases List.mem_append.mp hmove with hmem | hmem
    · exact hfirst move hmem
    · exact ih (fun q' hq' => hrules q' (List.mem_cons_of_mem q hq')) hmid move hmem

end Session

end Scriptlet
