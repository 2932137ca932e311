import Scriptlet.Proofs.Phrases

/-!
# Where statements end

Two facts about the tokens of a statement, for telling where one statement ends and another begins.

The first is about its last token (`Derivation.endsWell`).  It is a literal, a name or a closing
bracket, and all of these but the bools are tokens that a statement can end behind with a line.

The second is about semicolons (`Derivation.depthAfter_eq`).  Inside a statement they stand in
braces only.  So if the tokens between the braces of a body have no semicolon outside of further
braces, the body is one statement (`Derivation.exists_singleton`), whichever way its tokens are
taken: braces are counted, and where the count would fall below zero, or a semicolon stands at zero,
is determined by the tokens (`break_unique`).
-/

namespace Scriptlet

/-! ## The last token -/

/-- Whether a statement can end with the token. -/
def Token.mayEnd : Token → Bool
  | .bool _ => true
  | t => t.endsStatement

/-- With the exception of the bools, a line can end behind a token that a statement ends with. -/
theorem Token.endsStatement_of_mayEnd {t : Token} (h : t.mayEnd = true) (hbool : t.kind ≠ .bool) :
    t.endsStatement = true := by
  cases t with
  | bool b => exact absurd rfl hbool
  | _ => exact h

theorem Token.endsStatement_of_kind_bool {t : Token} (h : t.kind = .bool) :
    t.endsStatement = false := by
  cases t with
  | bool b => rfl
  | _ => cases h

namespace Grammar

variable {c : Category} {ts us : List Token} {x : c.Tree}

/-- The last of the tokens, if there is one, is one that a statement can end with. -/
def EndsWell (ts : List Token) : Prop :=
  ∀ t ∈ ts.getLast?, t.mayEnd = true

theorem endsWell_nil : EndsWell [] := nofun

theorem endsWell_singleton {t : Token} (h : t.mayEnd = true) : EndsWell [t] := by
  intro t' ht'
  obtain rfl : t = t' := by simpa using ht'
  exact h

/-- What stands before does not matter. -/
theorem EndsWell.behind (ts : List Token) (h : EndsWell us) (hfilled : us ≠ []) :
    EndsWell (ts ++ us) := by
  intro t ht
  rw [List.getLast?_append, List.getLast?_eq_some_getLast hfilled, Option.some_or] at ht
  exact h t (List.getLast?_eq_some_getLast hfilled ▸ ht)

theorem EndsWell.append (h : EndsWell ts) (h' : EndsWell us) : EndsWell (ts ++ us) := by
  cases us with
  | nil => rwa [List.append_nil]
  | cons t us => exact h'.behind ts (List.cons_ne_nil t us)

/-- An operator or a keyword before an operand that something may follow. -/
theorem EndsWell.after (t : Token) (h : EndsWell ts) (hfilled : ts ≠ []) (h' : EndsWell us) :
    EndsWell (t :: (ts ++ us)) :=
  (h.append h').behind [t] (List.append_ne_nil_of_left_ne_nil hfilled us)

theorem endsWell_closeParen (ts : List Token) : EndsWell (ts ++ [.mark .closeParen]) :=
  (endsWell_singleton rfl).behind ts (List.cons_ne_nil _ _)

/-- Whether a phrase of the category can end with a separator. -/
def Category.isOpenEnded : Category → Bool
  | .program | .functions | .statements | .moreStatements | .items | .moreItems => true
  | _ => false

/-- The last token of a phrase that does not end with a separator. -/
theorem Derivation.endsWell (d : Derivation c ts x) (hc : c.isOpenEnded = false) :
    EndsWell ts := by
  induction d with
  | program | noFunctions | someFunctions | noStatements | someStatements | lastStatement
  | nextStatement | trailingComma | nextItem | lastItem | furtherItems => cases hc
  | function name _ d _ ih =>
    exact (ih rfl).behind (.mark .func :: .name name :: .mark .openParen :: _) (d.ne_nil rfl)
  | noParams | lastParam | noArguments | lastArgument => exact endsWell_singleton rfl
  | plainParam | int | string | bool | name => exact endsWell_singleton rfl
  | annotatedParam name annotation =>
    exact (endsWell_singleton rfl).behind [.name name] (List.cons_ne_nil _ _)
  | someParams _ _ ih ihs | someArguments _ _ ih ihs => exact (ih rfl).append (ihs rfl)
  | nextParam d _ ih ihs | nextArgument d _ ih ihs | or d _ ih ihs | and d _ ih ihs =>
    exact (ih rfl).after _ (d.ne_nil rfl) (ihs rfl)
  | sign _ _ d _ ih ihs | factor _ _ d _ ih ihs =>
    exact (ih rfl).after _ (d.ne_nil rfl) (ihs rfl)
  | body count _ =>
    rw [← List.append_assoc]
    exact (endsWell_singleton rfl).behind (.mark .openBrace :: _) (List.cons_ne_nil _ _)
  | declare name d ih | assign name d ih =>
    exact (ih rfl).behind [.name name, _] (d.ne_nil rfl)
  | expression _ ih | plainSum _ ih | plainPrimary _ ih | block _ ih | condition _ ih =>
    exact ih rfl
  | expr _ _ ih ihs | conjunction _ _ ih ihs | sum _ _ ih ihs | term _ _ ih ihs =>
    exact (ih rfl).append (ihs rfl)
  | exprEnd | conjunctionEnd | sumEnd | termEnd => exact endsWell_nil
  | compare op _ _ d _ ih =>
    exact ((ih rfl).behind [.mark op.mark] (d.ne_nil rfl)).behind _ (List.cons_ne_nil _ _)
  | negative n _ _ _ ih ihs =>
    exact (endsWell_singleton rfl).append ((ih rfl).append (ihs rfl))
  | not d ih => exact (ih rfl).behind [.mark .bang] (d.ne_nil rfl)
  | call name d ih => exact (ih rfl).behind [.name name, .mark .openParen] (d.ne_nil rfl)
  | unit => exact endsWell_closeParen [.mark .openParen]
  | group => exact endsWell_closeParen (.mark .openParen :: _)
  | tuple =>
    rw [← List.append_assoc]
    exact endsWell_closeParen (.mark .openParen :: _)
  | ifOnly _ d _ ih => exact (ih rfl).behind (.mark .ifWord :: _) (d.ne_nil rfl)
  | ifElse _ _ d _ _ ih | elseIf _ _ d _ _ ih =>
    rw [← List.append_assoc]
    exact ((ih rfl).behind [.mark .elseWord] (d.ne_nil rfl)).behind (.mark .ifWord :: _)
      (List.cons_ne_nil _ _)

/-! ## The depth of braces -/

/-- How many braces are open behind the token if so many are before it.  None may be closed that is
not open, and a semicolon has to be in braces. -/
def depthAfterToken (depth : Nat) : Token → Option Nat
  | .mark .openBrace => some (depth + 1)
  | .mark .closeBrace => if depth = 0 then none else some (depth - 1)
  | .mark .semicolon => if depth = 0 then none else some depth
  | _ => some depth

/-- How many braces are open behind the tokens. -/
def depthAfter (depth : Nat) : List Token → Option Nat
  | [] => some depth
  | t :: ts => (depthAfterToken depth t).bind fun depth' => depthAfter depth' ts

theorem depthAfter_append (depth : Nat) (ts us : List Token) : depthAfter depth (ts ++ us) =
    (depthAfter depth ts).bind fun depth' => depthAfter depth' us := by
  induction ts generalizing depth with
  | nil => rfl
  | cons t ts ih =>
    rw [List.cons_append, depthAfter, depthAfter, Option.bind_assoc]
    exact congrArg _ (funext ih)

theorem depthAfter_append_of_eq {depth : Nat} (h : depthAfter depth ts = some depth)
    (us : List Token) : depthAfter depth (ts ++ us) = depthAfter depth us := by
  rw [depthAfter_append, h, Option.bind_some]

theorem depthAfterToken_operator (depth : Nat) (op : Operator) :
    depthAfterToken depth (.mark op.mark) = some depth := by
  cases op <;> rfl

theorem depthAfter_semicolons {depth : Nat} (h : 0 < depth) (count : Nat) :
    depthAfter depth (semicolons count) = some depth := by
  induction count with
  | zero => rfl
  | succ count ih =>
    show (if depth = 0 then none else some depth).bind _ = _
    rw [if_neg (Nat.ne_of_gt h), Option.bind_some]
    exact ih

/-- Whether a phrase of the category can have semicolons outside of braces. -/
def Category.hasSeparators : Category → Bool
  | .program | .functions | .statements | .moreStatements => true
  | _ => false

/-- A phrase closes the braces that it opens, and no others.  Outside of them it has no semicolon,
unless it is a phrase of separated ones; and that is in braces itself, or it is a program. -/
theorem Derivation.depthAfter_eq (d : Derivation c ts x) (depth : Nat)
    (hdepth : c.hasSeparators = true → 0 < depth) : depthAfter depth ts = some depth := by
  induction d generalizing depth with
  | program count d ih =>
    rw [depthAfter_append_of_eq (depthAfter_semicolons (hdepth rfl) count)]
    exact ih depth hdepth
  | noFunctions | noStatements | exprEnd | conjunctionEnd | sumEnd | termEnd | lastItem => rfl
  | someFunctions count _ _ ih ihs =>
    rw [depthAfter_append_of_eq (ih depth nofun),
      depthAfter_append_of_eq (depthAfter_semicolons (hdepth rfl) count)]
    exact ihs depth hdepth
  | function name _ _ ih ihs =>
    show depthAfter depth (_ ++ _) = _
    rw [depthAfter_append_of_eq (ih depth nofun)]
    exact ihs depth nofun
  | noParams | lastParam | plainParam | annotatedParam | int | string | bool | name | unit
  | noArguments | lastArgument | trailingComma => rfl
  | body count _ ih =>
    show depthAfter (depth + 1) (_ ++ _) = _
    rw [depthAfter_append_of_eq (depthAfter_semicolons (Nat.succ_pos depth) count),
      depthAfter_append_of_eq (ih (depth + 1) fun _ => Nat.succ_pos depth)]
    rfl
  | someParams _ _ ih ihs | someStatements _ _ ih ihs | expr _ _ ih ihs | conjunction _ _ ih ihs
  | sum _ _ ih ihs | term _ _ ih ihs | someArguments _ _ ih ihs =>
    rw [depthAfter_append_of_eq (ih depth nofun)]
    exact ihs depth hdepth
  | lastStatement count => exact depthAfter_semicolons (hdepth rfl) count
  | nextStatement count _ _ ih ihs =>
    rw [depthAfter_append_of_eq (depthAfter_semicolons (hdepth rfl) (count + 1)),
      depthAfter_append_of_eq (ih depth nofun)]
    exact ihs depth hdepth
  | declare _ _ ih | assign _ _ ih | expression _ ih | plainSum _ ih | not _ ih
  | plainPrimary _ ih | call _ _ ih | block _ ih | condition _ ih | furtherItems _ ih =>
    exact ih depth nofun
  | nextParam _ _ ih ihs | or _ _ ih ihs | and _ _ ih ihs | negative _ _ _ _ ih ihs
  | nextArgument _ _ ih ihs | nextItem _ _ ih ihs | ifOnly _ _ ih ihs =>
    show depthAfter depth (_ ++ _) = _
    rw [depthAfter_append_of_eq (ih depth nofun)]
    exact ihs depth nofun
  | compare op _ _ _ ih ihs =>
    rw [depthAfter_append_of_eq (ih depth nofun), depthAfter, depthAfterToken_operator]
    exact ihs depth nofun
  | sign op _ _ _ ih ihs | factor op _ _ _ ih ihs =>
    rw [depthAfter, depthAfterToken_operator, Option.bind_some,
      depthAfter_append_of_eq (ih depth nofun)]
    exact ihs depth nofun
  | group _ ih =>
    show depthAfter depth (_ ++ _) = _
    rw [depthAfter_append_of_eq (ih depth nofun)]
    rfl
  | tuple _ _ ih ihs =>
    show depthAfter depth (_ ++ (_ ++ _)) = _
    rw [depthAfter_append_of_eq (ih depth nofun), depthAfter_append_of_eq (ihs depth nofun)]
    rfl
  | ifElse _ _ _ ih ihs ihv | elseIf _ _ _ ih ihs ihv =>
    show depthAfter depth (_ ++ (_ ++ _)) = _
    rw [depthAfter_append_of_eq (ih depth nofun), depthAfter_append_of_eq (ihs depth nofun)]
    exact ihv depth nofun

/-- Where tokens first leave the braces that they stand in is determined. -/
theorem break_unique {depth : Nat} {ts ts' us us' : List Token} {t t' : Token}
    (hts : depthAfter depth ts = some 0) (ht : depthAfterToken 0 t = none)
    (hts' : depthAfter depth ts' = some 0) (ht' : depthAfterToken 0 t' = none)
    (h : ts ++ t :: us = ts' ++ t' :: us') : ts = ts' ∧ t = t' ∧ us = us' := by
  induction ts generalizing depth ts' with
  | nil =>
    obtain rfl : depth = 0 := Option.some_inj.mp hts
    cases ts' with
    | nil => simpa using h
    | cons u ts' =>
      obtain ⟨rfl, -⟩ := List.cons.inj h
      rw [depthAfter, ht] at hts'
      cases hts'
  | cons u ts ih =>
    cases ts' with
    | nil =>
      obtain rfl : depth = 0 := Option.some_inj.mp hts'
      obtain ⟨rfl, -⟩ := List.cons.inj h
      rw [depthAfter, ht'] at hts
      cases hts
    | cons u' ts' =>
      obtain ⟨rfl, htail⟩ := List.cons.inj h
      obtain ⟨depth', hu, hrest⟩ := Option.bind_eq_some_iff.mp hts
      obtain ⟨depth'', hu', hrest'⟩ := Option.bind_eq_some_iff.mp hts'
      obtain rfl : depth' = depth'' := Option.some_inj.mp (hu.symm.trans hu')
      obtain ⟨rfl, rfl, rfl⟩ := ih hrest hrest' htail
      exact ⟨rfl, rfl, rfl⟩

/-- A body with no semicolon outside of further braces is one statement. -/
theorem Derivation.exists_singleton {es : List Expr} {rest : List Token}
    (d : Derivation .body us es) (hts : depthAfter 0 ts = some 0) (hfilled : ts ≠ [])
    (h : us ++ rest = .mark .openBrace :: (ts ++ [.mark .closeBrace])) : ∃ e, es = [e] := by
  -- What the rules have before the first break is what is before it in the tokens given.
  have hbreak : ∀ {before : List Token} {t : Token} {after : List Token},
      depthAfter 0 before = some 0 → depthAfterToken 0 t = none →
      before ++ t :: after = ts ++ [.mark .closeBrace] → before = ts ∧ t = .mark .closeBrace :=
    fun hbefore ht heq =>
      have hsame := break_unique hbefore ht hts rfl heq
      ⟨hsame.1, hsame.2.1⟩
  cases d with
  | body count d =>
    simp only [List.cons_append, List.append_assoc, List.cons.injEq, true_and,
      List.nil_append] at h
    cases count with
    | succ count => exact absurd (hbreak rfl rfl h).1.symm hfilled
    | zero =>
      cases d with
      | noStatements => exact absurd (hbreak rfl rfl h).1.symm hfilled
      | @someStatements ts₁ _ e es d ds =>
        cases ds with
        | lastStatement => exact ⟨e, rfl⟩
        | nextStatement count _ _ =>
          rw [show semicolons 0 = [] from rfl, List.nil_append, List.append_assoc] at h
          exact absurd (hbreak (d.depthAfter_eq 0 nofun) rfl h).2 (by decide)

end Grammar
end Scriptlet
