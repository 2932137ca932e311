import Scriptlet.Proofs.Locality
import Scriptlet.Proofs.Moves

/-!
# How far the rules look ahead

The rules of the grammar look at the next token, and a statement that begins with a name looks at
the one behind it as well.  So two tokens are drawn and not consumed at most, and when a rule has
been read there is at most one.

The second part needs a reason.  A rule that looks at a token and returns leaves it in the buffer
for the next rule, and if the next rule consumed nothing, a second token could stay there.  But a
statement looks at the second token only behind a name, and what is read then does not stop at the
name (`PassesName`).  It does not even stop there because the nesting is too deep, since a statement
is only entered where there is room for all rules that lead down to the name.

`Tidy p` says what `p` leaves in the buffer of a cursor that holds two tokens or less: at most one,
or the cursor where it was.  It passes through all rules, and it is a statement about the cursor at
the end of a run.  The moments in between follow from it by `Traced.length_le`, because a parser
that fails on a text that is cut off leaves one token at most.
-/

namespace Scriptlet
namespace Parser

variable {α β : Type} {c c' mid : Cursor} {ts : List Token} {ending : Option ReadError}

/-! ## Drawing tokens -/

theorem draw_length (c : Cursor) :
    (∃ drawn c', draw c = .ok drawn c' ∧ c'.buffer.length ≤ c.buffer.length + 1) ∨
    ∃ e c', draw c = .error e c' ∧ c'.buffer.length = c.buffer.length := by
  rw [draw]
  split
  · exact Or.inl ⟨_, _, rfl, by simp⟩
  · exact Or.inl ⟨_, _, rfl, Nat.le_succ _⟩
  · exact Or.inr ⟨_, _, rfl, rfl⟩
  · exact Or.inr ⟨_, _, rfl, rfl⟩

/-- A failure comes before the last of the tokens. -/
theorem drawUpTo_length (count : Nat) (c : Cursor) :
    (∃ c', drawUpTo count c = .ok () c' ∧ c'.buffer.length ≤ c.buffer.length + count) ∨
    ∃ e c', drawUpTo count c = .error e c' ∧ c'.buffer.length < c.buffer.length + count := by
  induction count generalizing c with
  | zero => exact Or.inl ⟨c, rfl, Nat.le_refl _⟩
  | succ count ih =>
    rw [drawUpTo]
    rcases draw_length c with ⟨drawn, c₁, hdraw, hlength⟩ | ⟨e, c₁, hdraw, hlength⟩
    · rw [bind_of_ok hdraw]
      cases drawn with
      | false => exact Or.inl ⟨c₁, rfl, by omega⟩
      | true =>
        refine (ih c₁).imp ?_ ?_
        · rintro ⟨c₂, hrest, hle⟩
          exact ⟨c₂, hrest, by omega⟩
        · rintro ⟨e, c₂, hrest, hlt⟩
          exact ⟨e, c₂, hrest, by omega⟩
    · rw [bind_of_error hdraw]
      exact Or.inr ⟨e, c₁, rfl, by omega⟩

/-- Filling draws only what is missing. -/
theorem fill_length (count : Nat) (c : Cursor) :
    (∃ c', fill count c = .ok () c' ∧ (c' = c ∨ c'.buffer.length ≤ count)) ∨
    ∃ e c', fill count c = .error e c' ∧ c'.buffer.length < count := by
  rw [fill]
  by_cases hcount : count ≤ c.buffer.length
  · rw [Nat.sub_eq_zero_of_le hcount]
    exact Or.inl ⟨c, rfl, Or.inl rfl⟩
  · refine (drawUpTo_length (count - c.buffer.length) c).imp ?_ ?_
    · rintro ⟨c', hrest, hle⟩
      exact ⟨c', hrest, Or.inr (by omega)⟩
    · rintro ⟨e, c', hrest, hlt⟩
      exact ⟨e, c', hrest, by omega⟩

theorem peekAhead_length (ahead : Nat) (c : Cursor) :
    (∃ next c', peekAhead ahead c = .ok next c' ∧ (c' = c ∨ c'.buffer.length ≤ ahead + 1)) ∨
    ∃ e c', peekAhead ahead c = .error e c' ∧ c'.buffer.length ≤ ahead := by
  rw [peekAhead]
  rcases fill_length (ahead + 1) c with ⟨c', hfill, hle⟩ | ⟨e, c', hfill, hlt⟩
  · exact Or.inl ⟨_, c', bind_of_ok hfill _, hle⟩
  · exact Or.inr ⟨e, c', bind_of_error hfill _, Nat.le_of_lt_succ hlt⟩

/-! ## What is left in the buffer -/

/-- What a run leaves in the buffer of a cursor: at most one token, or the cursor as it was. -/
inductive Leaves (c : Cursor) : EStateM.Result ReadError Cursor α → Prop
  | ok {a : α} {c' : Cursor} : c'.buffer.length ≤ 1 → Leaves c (.ok a c')
  | stayed {a : α} : Leaves c (.ok a c)
  | error {e : ReadError} {c' : Cursor} : c'.buffer.length ≤ 1 → Leaves c (.error e c')
  | wrong {cause : ReadError.Cause} {position : Nat} :
    Leaves c (.error (.grammar cause position) c)
  | deep {position : Nat} : Leaves c (.error (.nestedTooDeeply position) c)

/-- From a cursor that has one token at most, the rest of a run leaves no more. -/
theorem Leaves.of_length_le {result : EStateM.Result ReadError Cursor α}
    (h : Leaves mid result) (hmid : mid.buffer.length ≤ 1) : Leaves c result := by
  cases h with
  | ok hle => exact .ok hle
  | stayed => exact .ok hmid
  | error hle => exact .error hle
  | wrong => exact .error hmid
  | deep => exact .error hmid

theorem Leaves.bind {p : Parser α} {f : α → Parser β} (h : Leaves c (p c))
    (hc : c.buffer.length ≤ 2)
    (hf : ∀ ⦃a mid⦄, p c = .ok a mid → mid.buffer.length ≤ 2 → Leaves mid (f a mid)) :
    Leaves c ((p >>= f) c) := by
  generalize hp : p c = result at h
  cases h with
  | ok hle =>
    rw [bind_of_ok hp]
    exact (hf hp (by omega)).of_length_le hle
  | stayed =>
    rw [bind_of_ok hp]
    exact hf hp hc
  | error hle =>
    rw [bind_of_error hp]
    exact .error hle
  | wrong =>
    rw [bind_of_error hp]
    exact .wrong
  | deep =>
    rw [bind_of_error hp]
    exact .deep

/-- The parser leaves at most one token in a buffer of two or less, or the cursor as it was. -/
def Tidy (p : Parser α) : Prop :=
  ∀ ⦃c : Cursor⦄, c.buffer.length ≤ 2 → Leaves c (p c)

theorem Tidy.bind {p : Parser α} {f : α → Parser β} (hp : Tidy p) (hf : ∀ a, Tidy (f a)) :
    Tidy (p >>= f) := fun _ hc =>
  (hp hc).bind hc fun a _ _ hmid => hf a hmid

theorem tidy_pure (a : α) : Tidy (pure a : Parser α) := fun _ _ => .stayed

theorem tidy_peek : Tidy peek := by
  intro c _
  rw [peek]
  rcases peekAhead_length 0 c with ⟨next, c', hpeek, rfl | hle⟩ | ⟨e, c', hpeek, hle⟩
  · rw [hpeek]
    exact .stayed
  · rw [hpeek]
    exact .ok hle
  · rw [hpeek]
    exact .error (by omega)

theorem tidy_advance : Tidy advance := by
  intro c hc
  rw [advance]
  rcases fill_length 1 c with ⟨c', hfill, hkept⟩ | ⟨e, c', hfill, hlt⟩
  · have hle : c'.buffer.length ≤ 2 := by
      rcases hkept with rfl | hle
      · exact hc
      · omega
    rw [bind_of_ok hfill, consume]
    split
    · rename_i hbuffer
      exact .error (by simp [hbuffer])
    · rename_i hbuffer
      rw [hbuffer, List.length_cons] at hle
      exact .ok (Nat.le_of_succ_le_succ hle)
  · rw [bind_of_error hfill]
    exact .error (by omega)

theorem tidy_fail (cause : ReadError.Cause) : Tidy (fail cause : Parser α) := by
  intro c _
  rw [fail]
  rcases fill_length 1 c with ⟨c', hfill, rfl | hle⟩ | ⟨e, c', hfill, hlt⟩
  · rw [bind_of_ok (position_of_fill hfill)]
    exact .wrong
  · rw [bind_of_ok (position_of_fill hfill)]
    exact .error hle
  · have hposition : position c = .error e c' := by rw [position, bind_of_error hfill]
    rw [bind_of_error hposition]
    exact .error (by omega)

theorem tidy_manyUpTo {step : Parser (Option α)} (h : Tidy step) (fuel : Nat) :
    Tidy (manyUpTo step fuel) := by
  induction fuel with
  | zero => exact tidy_pure []
  | succ fuel ih =>
    refine h.bind fun found => ?_
    cases found with
    | none => exact tidy_pure []
    | some a => exact ih.bind fun as => tidy_pure _

theorem tidy_many {step : Parser (Option α)} (h : Tidy step) : Tidy (many step) := by
  refine h.bind fun found => ?_
  cases found with
  | none => exact tidy_pure []
  | some a =>
    intro c hc
    exact ((tidy_manyUpTo h (c.size + 1)).bind fun as => tidy_pure (a :: as)) hc

/-! ## Statements -/

/-- The second token may be looked at behind a name, where what follows passes the name. -/
theorem leaves_second {name : String} {f : Option Token → Parser β} (htidy : ∀ t, Tidy (f t))
    (hpasses : ∀ t, PassesName (f t)) (hc : c.buffer.length ≤ 2)
    (hname : c.Holds (.name name :: ts) ending) : Leaves c ((peekAhead 1 >>= f) c) := by
  rcases peekAhead_length 1 c with ⟨next, c₁, hpeek, hkept⟩ | ⟨e, c₁, hpeek, hle⟩
  · obtain ⟨_, ⟨_, rfl⟩, h₁⟩ := reads_peekAhead 1 hname hpeek
    have hle : c₁.buffer.length ≤ 2 := by
      rcases hkept with rfl | hle
      · exact hc
      · exact hle
    have hleaves := htidy next hle
    rw [bind_of_ok hpeek]
    generalize hrun : f next c₁ = result at hleaves
    cases hleaves with
    | ok hle => exact .ok hle
    | stayed => exact absurd hrun ((hpasses next h₁ h₁).1 _)
    | error hle => exact .error hle
    | wrong => exact absurd hrun ((hpasses next h₁ h₁).2 _ (h₁.ending_ne_grammar _ _))
    | deep => exact absurd hrun ((hpasses next h₁ h₁).2 _ (h₁.ending_ne_nestedTooDeeply _))
  · rw [bind_of_error hpeek]
    exact .error hle

theorem tidy_statementOf {expr : Parser Expr} (hplaced : Placed expr) (htidy : Tidy expr)
    (hpasses : PassesName expr) : Tidy (statementOf expr) := by
  have htidyBehind : ∀ build : Expr → Expr,
      Tidy (do let _ ← advance; let _ ← advance; return build (← expr)) := fun build =>
    tidy_advance.bind fun _ => tidy_advance.bind fun _ => htidy.bind fun e => tidy_pure (build e)
  have hpassesBehind : ∀ build : Expr → Expr,
      PassesName (do let _ ← advance; let _ ← advance; return build (← expr)) := fun build =>
    passesName_advance.bind placed_advance fun _ =>
      placed_advance.bind fun _ => hplaced.bind fun e => placed_pure (build e)
  intro c hc
  obtain ⟨ts, ending, hts⟩ := c.exists_holds
  refine (tidy_peek hc).bind hc fun next c₁ hpeek hc₁ => ?_
  obtain ⟨_, ⟨hnext, rfl⟩, h₁⟩ := reads_peek hts hpeek
  split
  · rename_i name
    obtain ⟨rest, rfl⟩ := List.head?_eq_some_iff.mp hnext.symm
    refine leaves_second (fun second => ?_) (fun second => ?_) hc₁ h₁
    · split
      · exact htidyBehind _
      · exact htidyBehind _
      · exact htidy
    · split
      · exact hpassesBehind _
      · exact hpassesBehind _
      · exact hpasses
  · exact htidy hc₁

theorem ruleClosed_tidy : RuleClosed fun _ p => Placed p ∧ Tidy p where
  pure a := ⟨placed_pure a, tidy_pure a⟩
  bind hp hf := ⟨hp.1.bind fun a => (hf a).1, hp.2.bind fun a => (hf a).2⟩
  peek := ⟨placed_peekAhead 0, tidy_peek⟩
  advance := ⟨placed_advance, tidy_advance⟩
  fail cause := ⟨placed_fail cause, tidy_fail cause⟩
  tooDeep {_} := ⟨placed_tooDeep, fun _ _ => .deep⟩
  many _ _ hstep := ⟨placed_many hstep.1, tidy_many hstep.2⟩
  statement _ hroom h :=
    ⟨placed_statementOf h.1, tidy_statementOf h.1 h.2 (passesName_expr hroom)⟩

/-! ## Every moment -/

/-- At no moment of a tidy parser the buffer holds more than two tokens. -/
theorem Tidy.moves_length_le {p : Parser α} {moves : Cursor → List Move} (h : Tidy p)
    (htraced : Traced p moves) (hc : c.buffer.length ≤ 2) :
    ∀ move ∈ moves c, move.cursor.buffer.length ≤ 2 := by
  intro move hmove
  rcases htraced.length_le hmove with hle | ⟨ahead, _, _, _, _, hfails⟩
  · exact hle.trans hc
  · obtain ⟨d, hd, hle⟩ := hfails ⟨.unrecognized, 0⟩
    have hleaves := h (c := c.cut ahead ⟨.unrecognized, 0⟩) hc
    rw [hd] at hleaves
    cases hleaves with
    | error hd' => omega

end Parser
end Scriptlet
