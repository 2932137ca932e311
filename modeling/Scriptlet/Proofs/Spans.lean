import Scriptlet.Proofs.Outlook

/-!
# What a feed hands out, with places

`Feed.Yields` says which tokens a feed will hand out.  For statements about places the offsets
matter too, and `Feed.Hands` keeps them: the spans one by one, and then the end of the text or an
error.  A scanner that hands out spans and then ends is drained to exactly these.
-/

namespace Scriptlet
namespace Feed

variable {feed left : Feed}

/-- What a feed hands out: some spans, and then the end of the text or an error. -/
inductive Hands : Feed → List Span → Option ReadError → Prop
  | finished {feed left : Feed} : feed.next = (.finished, left) → Hands feed [] none
  | error {feed left : Feed} {e : LexError} : feed.next = (.error e, left) →
    Hands feed [] (some (.lexical e))
  | overlong {feed left : Feed} {digits : Nat} : feed.next = (.overlong digits, left) →
    Hands feed [] (some (.overlong digits))
  | token {feed left : Feed} {span : Span} {spans : List Span} {ending : Option ReadError} :
    feed.next = (.token span, left) → Hands left spans ending → Hands feed (span :: spans) ending

theorem Hands.yields {spans : List Span} {ending : Option ReadError} (h : feed.Hands spans ending) :
    feed.Yields (spans.map Span.token) ending := by
  induction h with
  | finished hnext => exact .finished hnext
  | error hnext => exact .error hnext
  | overlong hnext => exact .overlong hnext
  | token hnext _ ih => exact .token hnext ih

/-- Whatever a feed yields it hands out somewhere. -/
theorem Yields.exists_hands {ts : List Token} {ending : Option ReadError}
    (h : feed.Yields ts ending) : ∃ spans, feed.Hands spans ending ∧ spans.map Span.token = ts := by
  induction h with
  | finished hnext => exact ⟨[], .finished hnext, rfl⟩
  | error hnext => exact ⟨[], .error hnext, rfl⟩
  | overlong hnext => exact ⟨[], .overlong hnext, rfl⟩
  | @token _ _ span _ _ hnext _ ih =>
    obtain ⟨spans, hspans, htokens⟩ := ih
    exact ⟨span :: spans, .token hnext hspans, by rw [List.map_cons, htokens]⟩

/-- A feed hands out only one thing. -/
theorem Hands.unique {spans spans' : List Span}
    {ending ending' : Option ReadError} (h : feed.Hands spans ending)
    (h' : feed.Hands spans' ending') : spans = spans' ∧ ending = ending' := by
  induction h generalizing spans' with
  | finished hnext => cases h' <;> simp_all
  | error hnext => cases h' <;> simp_all
  | overlong hnext => cases h' <;> simp_all
  | token hnext _ ih =>
    cases h' with
    | token hnext' hleft' =>
      rw [hnext, Prod.mk.injEq, Scanned.token.injEq] at hnext'
      obtain ⟨rfl, rfl⟩ := hnext'
      obtain ⟨rfl, rfl⟩ := ih hleft'
      exact ⟨rfl, rfl⟩
    | finished hnext' | error hnext' | overlong hnext' => simp_all

end Feed

/-- A scanner that hands out spans and then ends is drained to them. -/
theorem Scanner.drain_of_hands {s : Scanner} {spans : List Span}
    (h : (Feed.scanner s).Hands spans none) : s.drain = .ok (spans.map .token) := by
  have hfuel : ∀ (fuel : Nat) (s : Scanner) (spans : List Span),
      (Feed.scanner s).Hands spans none → s.rest.length < fuel →
      s.drainUpTo fuel = .ok (spans.map .token) := by
    intro fuel
    induction fuel with
    | zero => exact fun s spans _ hlength => absurd hlength (Nat.not_lt_zero _)
    | succ fuel ih =>
      intro s spans h hlength
      rw [drainUpTo]
      cases h with
      | finished hnext =>
        rw [Feed.next, Prod.mk.injEq] at hnext
        have hscanned : s.next = (.finished, s.next.2) := Prod.ext hnext.1 rfl
        rw [hscanned]
        rfl
      | @token _ _ span spans _ hnext hleft =>
        rw [Feed.next, Prod.mk.injEq] at hnext
        have hscanned : s.next = (.token span, s.next.2) := Prod.ext hnext.1 rfl
        rw [← hnext.2] at hleft
        have hshorter := length_lt_of_token hscanned
        have hrest := ih s.next.2 spans hleft (by omega)
        rw [hscanned]
        show (drainUpTo fuel s.next.2).map (Item.token span :: ·) = _
        rw [hrest]
        rfl
  exact hfuel (s.rest.length + 1) s spans h (Nat.lt_succ_self _)

end Scriptlet
