import Scriptlet.Proofs.Locality
import Scriptlet.Proofs.ScanningAhead
import Scriptlet.Proofs.Unambiguous
import Scriptlet.Proofs.Viability

/-!
# Errors are reported at the first impossible token

A source text that cannot be read is reported at the first token that cannot stand where it stands:
the tokens before it are the beginning of a program, and together with it they are the beginning of
none.  Where nothing is wrong but the text is over, the error is reported where the last token
stopped.  And a token that cannot be scanned is reported only if all tokens before it are the
beginning of a program.

That the tokens before the place are the beginning of a program is `staysViable_program`.  That the
token at the place is impossible is seen like this.  If a program began with the tokens up to that
one, the parser would read this program, or the nesting would be too deep.  But `Local` says that it
would stop at the same token, because it has not looked beyond it.
-/

namespace Scriptlet

theorem Cursor.Faces.tokens {c : Cursor} {spans : List Span} {stop : Nat}
    {ending : Option ReadError} (h : c.Faces (spans.map Span.place) stop ending) :
    c.Holds (spans.map Span.token) ending := by
  have hholds := h.holds
  rwa [List.map_map] at hholds

namespace Parser

open Grammar

variable {budget : Nat} {c c' : Cursor} {ts read rest : List Token} {ending : Option ReadError}
  {cause : ReadError.Cause} {position : Nat} {t : Token}

theorem placed_program (budget : Nat) : Placed (program budget) :=
  ruleClosed_placed.program budget

theorem local_program (budget : Nat) : Local (program budget) :=
  (ruleClosed_local.program budget).2

/-- Tokens that derive a program are not wrong anywhere. -/
theorem program_ne_grammar_of_derives {P : Program} (h : c.Holds ts none)
    (hderives : Derives .program ts P) :
    program budget c ≠ .error (.grammar cause position) c' := by
  intro hrun
  have hresult : (program budget).result c = .error (.grammar cause position) := by
    rw [result, hrun]
  rcases result_of_derives_or budget h hderives with hok | ⟨_, hdeep⟩
  · rw [hresult] at hok
    cases hok
  · rw [hresult] at hdeep
    cases hdeep

/-- No program begins with the tokens up to the one that the parser stopped at. -/
theorem not_viable_of_grammar (h : c.Holds (read ++ t :: rest) ending)
    (hrun : program budget c = .error (.grammar cause position) c')
    (hc' : c'.Holds (t :: rest) ending) : ¬Viable .program (read ++ [t]) := by
  rintro ⟨us, P, hderives⟩
  obtain ⟨c₂, hc₂⟩ := Cursor.exists_of_tokens (read ++ ([t] ++ us))
  have hfollows := local_program budget (w := [t]) (by simp) h hc₂
  obtain ⟨cause₂, position₂, c₃, hwrong⟩ := hfollows.wrong hrun hc'
  rw [List.append_assoc] at hderives
  exact program_ne_grammar_of_derives hc₂ hderives hwrong

/-- What was read when the text ended is the beginning of a program, and not all of one. -/
theorem exists_completion_of_grammar (h : c.Holds ts none) (hviable : Viable .program ts)
    (hrun : program budget c = .error (.grammar cause position) c') :
    ∃ us P, us ≠ [] ∧ Derives .program (ts ++ us) P := by
  obtain ⟨us, P, hderives⟩ := hviable
  refine ⟨us, P, ?_, hderives⟩
  rintro rfl
  rw [List.append_nil] at hderives
  exact program_ne_grammar_of_derives h hderives hrun

/-- A grammar error and the place where it is reported, among the spans of the text. -/
theorem exists_place_of_grammar {spans : List Span} {stop : Nat}
    (h : c.Faces (spans.map Span.place) stop ending)
    (hrun : program budget c = .error (.grammar cause position) c') :
    ∃ front back, spans = front ++ back ∧ Viable .program (front.map Span.token) ∧
      c'.Holds (back.map Span.token) ending ∧ position = offsetOf (back.map Span.place) stop ∧
      (back = [] → ending = none) := by
  have hends := placed_program budget h
  rw [hrun] at hends
  have hc := h.tokens
  obtain ⟨read, hstops, hviable⟩ := staysViable_program budget _ hc hrun (by simp)
  cases hends with
  | unreadable hending => exact absurd hending (hc.ending_ne_grammar _ _)
  | @wrong _ _ places hsuffix hfaces hend =>
    obtain ⟨_, hfront⟩ := hsuffix
    obtain ⟨front, back, rfl, rfl, rfl⟩ := List.map_eq_append_iff.mp hfront.symm
    have hback := hfaces.tokens
    refine ⟨front, back, rfl, ?_, hback, rfl, fun hnil => hend (by rw [hnil]; rfl)⟩
    generalize hts : (front ++ back).map Span.token = ts at hstops
    cases hstops with
    | unreadable hending => exact absurd hending (hc.ending_ne_grammar _ _)
    | wrong hrest =>
      obtain ⟨rfl, _⟩ := hrest.unique hback
      rw [List.map_append] at hts
      rwa [List.append_cancel_right hts]

end Parser

/-! ## Source texts -/

open Grammar

/-- A token starts there that cannot stand where it stands, and it is the first: the tokens before
it are the beginning of a program, and with it they are the beginning of none. -/
def FirstImpossible (spans : List Span) (position : Nat) : Prop :=
  ∃ k span, spans[k]? = some span ∧ position = span.start ∧
    Viable .program ((spans.take k).map Span.token) ∧
    ¬Viable .program ((spans.take (k + 1)).map Span.token)

/-- The last token stops there, and the tokens are the beginning of a longer program. -/
def EndsEarly (spans : List Span) (position : Nat) : Prop :=
  position = Span.lastStop 0 spans ∧
    ∃ us P, us ≠ [] ∧ Derives .program (spans.map Span.token ++ us) P

variable {budget : Nat} {c c' : Cursor} {spans : List Span} {ending : Option ReadError}

theorem firstImpossible_or_endsEarly {cause : ReadError.Cause} {position : Nat}
    (h : c.Faces (spans.map Span.place) (Span.lastStop 0 spans) ending)
    (hrun : Parser.program budget c = .error (.grammar cause position) c') :
    FirstImpossible spans position ∨ (ending = none ∧ EndsEarly spans position) := by
  have hc := h.tokens
  obtain ⟨front, back, rfl, hviable, hback, rfl, hend⟩ := Parser.exists_place_of_grammar h hrun
  rw [List.map_append] at hc
  cases back with
  | nil =>
    obtain rfl := hend rfl
    rw [List.map_nil, List.append_nil] at hc
    rw [List.append_nil]
    exact Or.inr ⟨rfl, rfl, Parser.exists_completion_of_grammar hc hviable hrun⟩
  | cons span back =>
    refine Or.inl ⟨front.length, span, by simp, rfl, by simpa using hviable, ?_⟩
    have himpossible := Parser.not_viable_of_grammar hc hrun hback
    rwa [List.take_length_add_append, List.map_append]

/-- An error that is not one of the grammar is the one behind the tokens, and all of these are the
beginning of a program. -/
theorem viable_of_unreadable {ts : List Token} {e : ReadError} (h : c.Holds ts ending)
    (hrun : Parser.program budget c = .error e c')
    (hdeep : ∀ position, e ≠ .nestedTooDeeply position)
    (hgrammar : ∀ cause position, e ≠ .grammar cause position) :
    ending = some e ∧ Viable .program ts := by
  obtain ⟨read, hstops, hviable⟩ := Parser.staysViable_program budget ts h hrun hdeep
  cases hstops with
  | wrong => exact absurd rfl (hgrammar _ _)
  | unreadable hending => exact ⟨hending, hviable⟩

/-- **Errors are reported at the first impossible token.**  An error of the grammar is reported
where the first token starts that no program has there, or where the text ended if its tokens are
the beginning of a longer program.  What cannot be scanned is reported only behind tokens that are
the beginning of a program; an earlier error of the grammar always wins.  This holds with any limit
on the nesting, and `Program.parse` reads with `Parser.nestingLimit`. -/
theorem parse_fails_at_first_impossible_token (source : String) :
    ∃ spans ending, (Feed.scanner (.ofSource source)).Hands spans ending ∧
      ∀ budget outcome, (Parser.program budget).result (.ofSource source) = outcome →
        (∀ cause position, outcome = .error (.grammar cause position) →
          FirstImpossible spans position ∨ (ending = none ∧ EndsEarly spans position)) ∧
        (∀ e, outcome = .error e → (∀ position, e ≠ .nestedTooDeeply position) →
          (∀ cause position, e ≠ .grammar cause position) →
          ending = some e ∧ Viable .program (spans.map Span.token)) ∧
        (∀ k, ¬Viable .program ((spans.take k).map Span.token) →
          (∃ position, outcome = .error (.nestedTooDeeply position)) ∨
          ∃ cause position, outcome = .error (.grammar cause position)) := by
  obtain ⟨ts, ending, hyields⟩ := (Feed.scanner (.ofSource source)).exists_yields
  obtain ⟨spans, hhands, rfl⟩ := hyields.exists_hands
  have hfaces : (Cursor.ofSource source).Faces (spans.map Span.place) (Span.lastStop 0 spans)
      ending := ⟨spans, hhands, rfl, rfl⟩
  have hholds := hfaces.tokens
  have hbegins : ∀ k, (spans.take k).map Span.token <+: spans.map Span.token := fun k =>
    (List.take_prefix k spans).map _
  refine ⟨spans, ending, hhands, ?_⟩
  rintro budget outcome rfl
  refine ⟨fun cause position hresult => ?_, fun e hresult hdeep hgrammar => ?_, fun k hk => ?_⟩
  · obtain ⟨c', hrun⟩ := Parser.result_eq_error_iff.mp hresult
    exact firstImpossible_or_endsEarly hfaces hrun
  · obtain ⟨c', hrun⟩ := Parser.result_eq_error_iff.mp hresult
    exact viable_of_unreadable hholds hrun hdeep hgrammar
  · cases hresult : (Parser.program budget).result (.ofSource source) with
    | ok P =>
      obtain ⟨d⟩ := Parser.derives_of_result hholds hresult
      exact absurd (.of_phrase d (hbegins k)) hk
    | error e =>
      obtain ⟨c', hrun⟩ := Parser.result_eq_error_iff.mp hresult
      by_contra hother
      rw [not_or, not_exists, not_exists] at hother
      obtain ⟨_, us, P, ⟨d⟩⟩ := viable_of_unreadable hholds hrun
        (fun position he => hother.1 position (by rw [he]))
        fun cause position he => hother.2 cause ⟨position, by rw [he]⟩
      exact hk (.of_phrase d ((hbegins k).trans (List.prefix_append _ _)))

/-- A text with a comma in place of a parameter, and behind it a character that spells nothing. -/
def strayComma : String := "func f(,) @"

/-- A text that breaks off in the parameters at such a character. -/
def brokenParameters : String := "func f( @"

/-- The comma is impossible, and what cannot be scanned behind it is not reported with any budget.
Without the comma it is. -/
theorem strayComma_is_reported_first :
    Program.parse strayComma = .error (.grammar (.expected .name (some (.mark .comma))) 7) ∧
    (∃ spans, (Feed.scanner (.ofSource strayComma)).Hands spans
        (some (.lexical ⟨.unrecognized, 10⟩)) ∧ FirstImpossible spans 7) ∧
    (∀ budget outcome, (Parser.program budget).result (.ofSource strayComma) = outcome →
      (∃ position, outcome = .error (.nestedTooDeeply position)) ∨
      ∃ cause position, outcome = .error (.grammar cause position)) ∧
    Program.parse brokenParameters = .error (.lexical ⟨.unrecognized, 8⟩) ∧
    ∃ spans, (Feed.scanner (.ofSource brokenParameters)).Hands spans
        (some (.lexical ⟨.unrecognized, 8⟩)) ∧
      Viable .program (spans.map Span.token) := by
  have hcomma : Program.parse strayComma =
      .error (.grammar (.expected .name (some (.mark .comma))) 7) := by decide +kernel
  have hbroken : Program.parse brokenParameters = .error (.lexical ⟨.unrecognized, 8⟩) := by
    decide +kernel
  obtain ⟨spans, ending, hhands, hall⟩ := parse_fails_at_first_impossible_token strayComma
  obtain ⟨spans', ending', hhands', hall'⟩ := parse_fails_at_first_impossible_token brokenParameters
  -- the comma is not the end of the text, because the scanner fails behind it
  have hscanned : ending = some (.lexical ⟨.unrecognized, 10⟩) := by
    have hdrain : (Scanner.ofSource strayComma).drain = .ok (Item.ofSpans [⟨0, .mark .func, 4⟩,
        ⟨5, .name "f", 6⟩, ⟨6, .mark .openParen, 7⟩, ⟨7, .mark .comma, 8⟩,
        ⟨8, .mark .closeParen, 9⟩] (some ⟨.unrecognized, 10⟩)) := by decide +kernel
    obtain ⟨_, _, hitems, hdrained⟩ := Scanner.hands_of_drain hdrain
    obtain ⟨rfl, rfl⟩ := Item.ofSpans_inj hitems
    exact (hhands.unique hdrained).2
  subst hscanned
  have hfirst : FirstImpossible spans 7 :=
    ((hall Parser.nestingLimit _ hcomma).1 _ _ rfl).resolve_right fun hends => nomatch hends.1
  obtain ⟨hbehind, hviable⟩ :=
    (hall' Parser.nestingLimit _ hbroken).2.1 _ rfl (fun _ => nofun) fun _ _ => nofun
  refine ⟨hcomma, ⟨spans, hhands, hfirst⟩, fun budget outcome hread => ?_, hbroken,
    spans', hbehind ▸ hhands', hviable⟩
  obtain ⟨k, _, _, _, _, himpossible⟩ := hfirst
  exact (hall budget outcome hread).2.2 (k + 1) himpossible

end Scriptlet
