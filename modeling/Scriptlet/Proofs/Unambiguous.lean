import Scriptlet.Proofs.Completeness

/-!
# The grammar is unambiguous

Tokens that are a phrase of a category are one in only one way: they determine the tree and the
derivation.

Where a rule has two phrases one behind the other, the question is where the first of them ends.  It
is answered by the parser: it reads the first phrase and leaves the second, for any two phrases that
make up the same tokens, and what it leaves is determined (`split_of_gives`).  Where a category has
several rules, the first token tells them apart, or the second one behind a name.

The induction is on one of two derivations.  The other is from tokens that are equal to those of the
first rather than the same, so that it can be taken apart by cases.  That the two are equal cannot
be written down then, and `Derivation.Same` says it instead.
-/

namespace Scriptlet
namespace Grammar

open Scriptlet.Parser (Gives Enough completes)

variable {α : Type} {c : Category} {ts ts' us us' : List Token} {x : c.Tree}

/-! ## Where a phrase ends -/

/-- Tokens that are two phrases, of which a parser reads the first, are so in only one way. -/
theorem split_of_gives {p : Nat → Parser α} {a a' : α} {needed needed' : Nat}
    (h : ∀ n, Enough False needed n → Gives False (p n) (ts ++ us) a us)
    (h' : ∀ n, Enough False needed' n → Gives False (p n) (ts' ++ us') a' us')
    (htokens : ts ++ us = ts' ++ us') : ts = ts' ∧ us = us' := by
  have hgives := h (max needed needed') (Or.inl (Nat.le_max_left _ _))
  have hgives' := h' (max needed needed') (Or.inl (Nat.le_max_right _ _))
  rw [htokens] at hgives
  obtain ⟨_, rfl⟩ := hgives.unique hgives'
  exact ⟨List.append_cancel_right htokens, rfl⟩

/-- The rank of the tokens that may follow a phrase without going on with it, for the phrases that
end by themselves. -/
def Category.endRank : Category → Option Nat
  | .function | .params | .body => some 0
  | .unary => some 1
  | .term => some 2
  | .sum => some 3
  | .comparison => some 4
  | .conjunction => some 5
  | .expr => some 6
  | .statement => some 7
  | _ => none

theorem Derivation.split {x' : c.Tree} {rank : Nat} (d : Derivation c ts x)
    (d' : Derivation c ts' x') (hrank : c.endRank = some rank) (hus : Closes rank us)
    (hus' : Closes rank us') (h : ts ++ us = ts' ++ us') : ts = ts' ∧ us = us' := by
  cases c with
  | function | body =>
    exact split_of_gives (fun n hn => completes False d n hn us)
      (fun n hn => completes False d' n hn us') h
  | params =>
    exact split_of_gives (p := fun _ => Parser.commaSeparated Parser.param)
      (fun n (_ : Enough False 0 n) => completes False d us)
      (fun n (_ : Enough False 0 n) => completes False d' us') h
  | statement | expr | conjunction | comparison | sum | term | unary =>
    cases hrank
    exact split_of_gives (fun n hn => completes False d n hn us hus)
      (fun n hn => completes False d' n hn us' hus') h
  | _ => cases hrank

/-- The semicolons at the front end where another token comes. -/
theorem semicolons_append_inj {count count' : Nat} (hus : us.head? ≠ some (.mark .semicolon))
    (hus' : us'.head? ≠ some (.mark .semicolon))
    (h : semicolons count ++ us = semicolons count' ++ us') : count = count' ∧ us = us' := by
  induction count generalizing count' with
  | zero =>
    cases count' with
    | zero => exact ⟨rfl, h⟩
    | succ count' => exact absurd (by rw [show us = _ from h]; rfl) hus
  | succ count ih =>
    cases count' with
    | zero => exact absurd (by rw [show us' = _ from h.symm]; rfl) hus'
    | succ count' =>
      obtain ⟨rfl, rfl⟩ := ih (List.cons.inj h).2
      exact ⟨rfl, rfl⟩

/-- Nothing goes on with a phrase of rank zero. -/
theorem closes_zero (rest : List Token) : Closes 0 rest :=
  fun _ _ => Nat.zero_le _

/-! ## One derivation -/

/-- The same derivation, of the same tree from the same tokens. -/
inductive Derivation.Same (d : Derivation c ts x) :
    {ts' : List Token} → {x' : c.Tree} → Derivation c ts' x' → Prop
  | refl : Same d d

/-- A rule with one premise makes the same derivation of the same. -/
theorem Derivation.Same.lift {c' : Category} {f : List Token → List Token} {g : c.Tree → c'.Tree}
    (rule : ∀ {ts x}, Derivation c ts x → Derivation c' (f ts) (g x)) {x' : c.Tree}
    {d : Derivation c ts x} {d' : Derivation c ts' x'} (h : d.Same d') :
    (rule d).Same (rule d') := by
  cases h
  exact .refl

/-- Every derivation from equal tokens is this one. -/
def Derivation.IsOnly (d : Derivation c ts x) : Prop :=
  ∀ ⦃ts' : List Token⦄ ⦃x' : c.Tree⦄ (d' : Derivation c ts' x'), ts = ts' → d.Same d'

section Functions

variable {f : Function} {fs : Program} {p : Param} {ps : List Param} {es : List Expr}

theorem isOnly_program (count : Nat) {d : Derivation .functions ts fs} (h : d.IsOnly) :
    (Derivation.program count d).IsOnly := by
  intro ts' x' d' htokens
  cases d' with
  | program count' d' =>
    obtain ⟨rfl, rfl⟩ := semicolons_append_inj (head?_functions_ne_semicolon d)
      (head?_functions_ne_semicolon d') htokens
    exact (h d' rfl).lift (.program count)

theorem isOnly_noFunctions : Derivation.noFunctions.IsOnly := by
  intro ts' x' d' htokens
  cases d' with
  | noFunctions => exact .refl
  | someFunctions count' d' ds' =>
    exact absurd (List.append_eq_nil_iff.mp htokens.symm).1 (d'.ne_nil rfl)

theorem isOnly_someFunctions (count : Nat) {d : Derivation .function ts f}
    {ds : Derivation .functions us fs} (h : d.IsOnly) (hs : ds.IsOnly) :
    (Derivation.someFunctions count d ds).IsOnly := by
  intro ts' x' d' htokens
  cases d' with
  | noFunctions => exact absurd (List.append_eq_nil_iff.mp htokens).1 (d.ne_nil rfl)
  | someFunctions count' d' ds' =>
    obtain ⟨rfl, hrest⟩ := d.split d' rfl (closes_zero _) (closes_zero _) htokens
    obtain ⟨rfl, rfl⟩ := semicolons_append_inj (head?_functions_ne_semicolon ds)
      (head?_functions_ne_semicolon ds') hrest
    cases h d' rfl
    cases hs ds' rfl
    exact .refl

theorem isOnly_function (name : String) {ds : Derivation .params ts ps}
    {d : Derivation .body us es} (hs : ds.IsOnly) (h : d.IsOnly) :
    (Derivation.function name ds d).IsOnly := by
  intro ts' x' d' htokens
  cases d' with
  | function name' ds' d' =>
    simp only [List.cons.injEq, Token.name.injEq, true_and] at htokens
    obtain ⟨rfl, hrest⟩ := htokens
    obtain ⟨rfl, rfl⟩ := ds.split ds' rfl (closes_zero _) (closes_zero _) hrest
    cases h d' rfl
    cases hs ds' rfl
    exact .refl

theorem isOnly_noParams : Derivation.noParams.IsOnly := by
  intro ts' x' d' htokens
  cases d' with
  | noParams => exact .refl
  | someParams d' ds' =>
    exact absurd (congrArg List.head? htokens).symm (head?_param_ne_closeParen d' _)

theorem split_param {p' : Param} {ps' : List Param} (d : Derivation .param ts p)
    (d' : Derivation .param ts' p') (ds : Derivation .moreParams us ps)
    (ds' : Derivation .moreParams us' ps') (h : ts ++ us = ts' ++ us') : ts = ts' ∧ us = us' := by
  have hus := head?_moreParams_ne_name ds []
  have hus' := head?_moreParams_ne_name ds' []
  rw [List.append_nil] at hus hus'
  exact split_of_gives (p := fun _ => Parser.param)
    (fun n (_ : Enough False 0 n) => completes False d us hus)
    (fun n (_ : Enough False 0 n) => completes False d' us' hus') h

theorem isOnly_someParams {d : Derivation .param ts p} {ds : Derivation .moreParams us ps}
    (h : d.IsOnly) (hs : ds.IsOnly) : (Derivation.someParams d ds).IsOnly := by
  intro ts' x' d' htokens
  cases d' with
  | noParams =>
    exact absurd (congrArg List.head? htokens) (head?_param_ne_closeParen d _)
  | someParams d' ds' =>
    obtain ⟨rfl, rfl⟩ := split_param d d' ds ds' htokens
    cases h d' rfl
    cases hs ds' rfl
    exact .refl

theorem isOnly_lastParam : Derivation.lastParam.IsOnly := by
  intro ts' x' d' htokens
  cases d' with
  | lastParam => exact .refl
  | nextParam => cases htokens

theorem isOnly_nextParam {d : Derivation .param ts p} {ds : Derivation .moreParams us ps}
    (h : d.IsOnly) (hs : ds.IsOnly) : (Derivation.nextParam d ds).IsOnly := by
  intro ts' x' d' htokens
  cases d' with
  | lastParam => cases htokens
  | nextParam d' ds' =>
    obtain ⟨rfl, rfl⟩ := split_param d d' ds ds' (List.cons.inj htokens).2
    cases h d' rfl
    cases hs ds' rfl
    exact .refl

theorem isOnly_plainParam (name : String) : (Derivation.plainParam name).IsOnly := by
  intro ts' x' d' htokens
  cases d' with
  | plainParam => cases htokens; exact .refl
  | annotatedParam => cases htokens

theorem isOnly_annotatedParam (name annotation : String) :
    (Derivation.annotatedParam name annotation).IsOnly := by
  intro ts' x' d' htokens
  cases d' with
  | plainParam => cases htokens
  | annotatedParam => cases htokens; exact .refl

end Functions

section Statements

variable {e : Expr} {es : List Expr}

theorem isOnly_body (count : Nat) {d : Derivation .statements ts es} (h : d.IsOnly) :
    (Derivation.body count d).IsOnly := by
  intro ts' x' d' htokens
  cases d' with
  | body count' d' =>
    obtain ⟨rfl, hrest⟩ := semicolons_append_inj (head?_statements_ne_semicolon d [])
      (head?_statements_ne_semicolon d' []) (List.cons.inj htokens).2
    obtain rfl := List.append_cancel_right hrest
    exact (h d' rfl).lift (.body count)

theorem isOnly_noStatements : Derivation.noStatements.IsOnly := by
  intro ts' x' d' htokens
  cases d' with
  | noStatements => exact .refl
  | someStatements d' ds' =>
    exact absurd (List.append_eq_nil_iff.mp htokens.symm).1 (d'.ne_nil rfl)

theorem isOnly_someStatements {d : Derivation .statement ts e}
    {ds : Derivation .moreStatements us es} (h : d.IsOnly) (hs : ds.IsOnly) :
    (Derivation.someStatements d ds).IsOnly := by
  intro ts' x' d' htokens
  cases d' with
  | noStatements => exact absurd (List.append_eq_nil_iff.mp htokens).1 (d.ne_nil rfl)
  | someStatements d' ds' =>
    obtain ⟨rfl, rfl⟩ :=
      d.split d' rfl ds.closes_self ds'.closes_self htokens
    cases h d' rfl
    cases hs ds' rfl
    exact .refl

/-- Behind the semicolons of a statement comes another, or nothing. -/
theorem semicolons_append_statement_inj {count count' : Nat} (d : Derivation .statement ts e)
    (hus' : us'.head? ≠ some (.mark .semicolon))
    (h : semicolons count ++ (ts ++ us) = semicolons count' ++ us') :
    count = count' ∧ ts ++ us = us' :=
  semicolons_append_inj (head?_statement_ne d rfl us) hus' h

theorem isOnly_lastStatement (count : Nat) : (Derivation.lastStatement count).IsOnly := by
  intro ts' x' d' htokens
  cases d' with
  | lastStatement count' =>
    obtain rfl : count = count' := by simpa [semicolons] using congrArg List.length htokens
    exact .refl
  | nextStatement count' d' ds' =>
    rw [← List.append_nil (semicolons count)] at htokens
    obtain ⟨_, hnil⟩ := semicolons_append_statement_inj d' (by simp) htokens.symm
    exact absurd (List.append_eq_nil_iff.mp hnil).1 (d'.ne_nil rfl)

theorem isOnly_nextStatement (count : Nat) {d : Derivation .statement ts e}
    {ds : Derivation .moreStatements us es} (h : d.IsOnly) (hs : ds.IsOnly) :
    (Derivation.nextStatement count d ds).IsOnly := by
  intro ts' x' d' htokens
  cases d' with
  | lastStatement count' =>
    rw [← List.append_nil (semicolons count')] at htokens
    obtain ⟨_, hnil⟩ := semicolons_append_statement_inj d (by simp) htokens
    exact absurd (List.append_eq_nil_iff.mp hnil).1 (d.ne_nil rfl)
  | nextStatement count' d' ds' =>
    obtain ⟨hcount, hrest⟩ :=
      semicolons_append_statement_inj d (head?_statement_ne d' rfl _) htokens
    obtain rfl : count = count' := by omega
    obtain ⟨rfl, rfl⟩ := d.split d' rfl ds.closes_self ds'.closes_self hrest
    cases h d' rfl
    cases hs ds' rfl
    exact .refl

/-- An expression is neither a declaration nor an assignment. -/
theorem expr_ne_of_rank {name : String} {t : Token} (d : Derivation .expr ts e)
    (ht : t.rank = 6) : ts ≠ .name name :: t :: us := by
  intro h
  have hlt := d.nameGoesOn rfl name _ h t rfl
  omega

theorem isOnly_declare (name : String) {d : Derivation .expr ts e} (h : d.IsOnly) :
    (Derivation.declare name d).IsOnly := by
  intro ts' x' d' htokens
  cases d' with
  | declare name' d' =>
    simp only [List.cons.injEq, Token.name.injEq, true_and] at htokens
    obtain ⟨rfl, rfl⟩ := htokens
    cases h d' rfl
    exact .refl
  | assign name' d' => cases htokens
  | expression d' => exact absurd htokens.symm (expr_ne_of_rank d' rfl)

theorem isOnly_assign (name : String) {d : Derivation .expr ts e} (h : d.IsOnly) :
    (Derivation.assign name d).IsOnly := by
  intro ts' x' d' htokens
  cases d' with
  | assign name' d' =>
    simp only [List.cons.injEq, Token.name.injEq, true_and] at htokens
    obtain ⟨rfl, rfl⟩ := htokens
    cases h d' rfl
    exact .refl
  | declare name' d' => cases htokens
  | expression d' => exact absurd htokens.symm (expr_ne_of_rank d' rfl)

theorem isOnly_expression {d : Derivation .expr ts e} (h : d.IsOnly) :
    (Derivation.expression d).IsOnly := by
  intro ts' x' d' htokens
  cases d' with
  | declare | assign => exact absurd htokens (expr_ne_of_rank d rfl)
  | expression d' =>
    subst htokens
    exact (h d' rfl).lift .expression

end Statements

section Operators

variable {l r e : Expr} {op : Operator}

theorem isOnly_expr {d : Derivation .conjunction ts l} {ds : Derivation (.exprRest l) us e}
    (h : d.IsOnly) (hs : ds.IsOnly) : (Derivation.expr d ds).IsOnly := by
  intro ts' x' d' htokens
  cases d' with
  | expr d' ds' =>
    obtain ⟨rfl, rfl⟩ := d.split d' rfl ds.closes_self ds'.closes_self htokens
    cases h d' rfl
    exact (hs ds' rfl).lift (.expr d)

theorem isOnly_exprEnd : (Derivation.exprEnd (l := l)).IsOnly := by
  intro ts' x' d' htokens
  cases d' with
  | exprEnd => exact .refl
  | or => cases htokens

theorem isOnly_or {d : Derivation .conjunction ts r}
    {ds : Derivation (.exprRest (.conditional .or l r)) us e} (h : d.IsOnly) (hs : ds.IsOnly) :
    (Derivation.or d ds).IsOnly := by
  intro ts' x' d' htokens
  cases d' with
  | exprEnd => cases htokens
  | or d' ds' =>
    obtain ⟨rfl, rfl⟩ :=
      d.split d' rfl ds.closes_self ds'.closes_self (List.cons.inj htokens).2
    cases h d' rfl
    exact (hs ds' rfl).lift (.or d)

theorem isOnly_conjunction {d : Derivation .comparison ts l}
    {ds : Derivation (.conjunctionRest l) us e} (h : d.IsOnly) (hs : ds.IsOnly) :
    (Derivation.conjunction d ds).IsOnly := by
  intro ts' x' d' htokens
  cases d' with
  | conjunction d' ds' =>
    obtain ⟨rfl, rfl⟩ :=
      d.split d' rfl ds.closes_self ds'.closes_self htokens
    cases h d' rfl
    exact (hs ds' rfl).lift (.conjunction d)

theorem isOnly_conjunctionEnd : (Derivation.conjunctionEnd (l := l)).IsOnly := by
  intro ts' x' d' htokens
  cases d' with
  | conjunctionEnd => exact .refl
  | and => cases htokens

theorem isOnly_and {d : Derivation .comparison ts r}
    {ds : Derivation (.conjunctionRest (.conditional .and l r)) us e} (h : d.IsOnly)
    (hs : ds.IsOnly) : (Derivation.and d ds).IsOnly := by
  intro ts' x' d' htokens
  cases d' with
  | conjunctionEnd => cases htokens
  | and d' ds' =>
    obtain ⟨rfl, rfl⟩ := d.split d' rfl ds.closes_self ds'.closes_self
      (List.cons.inj htokens).2
    cases h d' rfl
    exact (hs ds' rfl).lift (.and d)

/-- A sum is not two of them with an operator between. -/
theorem sum_ne_compare {e' : Expr} (hop : op.level = .comparison) (d : Derivation .sum ts e)
    (d' : Derivation .sum ts' e') : ts ≠ ts' ++ .mark op.mark :: us := by
  intro h
  rw [← List.append_nil ts] at h
  cases (d.split d' rfl (closes_nil 3) (closes_comparison hop us) h).2

theorem isOnly_plainSum {d : Derivation .sum ts e} (h : d.IsOnly) :
    (Derivation.plainSum d).IsOnly := by
  intro ts' x' d' htokens
  cases d' with
  | plainSum d' => exact (h d' htokens).lift .plainSum
  | compare op hop d' => exact absurd htokens (sum_ne_compare hop d d')

theorem isOnly_compare (hop : op.level = .comparison) {d : Derivation .sum ts l}
    {ds : Derivation .sum us r} (h : d.IsOnly) (hs : ds.IsOnly) :
    (Derivation.compare op hop d ds).IsOnly := by
  intro ts' x' d' htokens
  cases d' with
  | plainSum d' => exact absurd htokens.symm (sum_ne_compare hop d' d)
  | compare op' hop' d' ds' =>
    obtain ⟨rfl, hrest⟩ :=
      d.split d' rfl (closes_comparison hop us) (closes_comparison hop' _) htokens
    simp only [List.cons.injEq, Token.mark.injEq] at hrest
    obtain ⟨hmark, rfl⟩ := hrest
    obtain rfl := Operator.mark_injective hmark
    cases h d' rfl
    cases hs ds' rfl
    exact .refl

theorem isOnly_sum {d : Derivation .term ts l} {ds : Derivation (.sumRest l) us e} (h : d.IsOnly)
    (hs : ds.IsOnly) : (Derivation.sum d ds).IsOnly := by
  intro ts' x' d' htokens
  cases d' with
  | sum d' ds' =>
    obtain ⟨rfl, rfl⟩ := d.split d' rfl ds.closes_self ds'.closes_self htokens
    cases h d' rfl
    exact (hs ds' rfl).lift (.sum d)

theorem isOnly_sumEnd : (Derivation.sumEnd (l := l)).IsOnly := by
  intro ts' x' d' htokens
  cases d' with
  | sumEnd => exact .refl
  | sign | negative => cases htokens

theorem isOnly_sign (hop : op.level = .sum) {d : Derivation .term ts r}
    {ds : Derivation (.sumRest (.binary op l r)) us e} (h : d.IsOnly) (hs : ds.IsOnly) :
    (Derivation.sign op hop d ds).IsOnly := by
  intro ts' x' d' htokens
  cases d' with
  | sumEnd | negative => cases htokens
  | sign op' hop' d' ds' =>
    simp only [List.cons.injEq, Token.mark.injEq] at htokens
    obtain ⟨hmark, hrest⟩ := htokens
    obtain rfl := Operator.mark_injective hmark
    obtain ⟨rfl, rfl⟩ := d.split d' rfl ds.closes_self ds'.closes_self hrest
    cases h d' rfl
    exact (hs ds' rfl).lift (.sign op hop d)

theorem gives_termRest (d : Derivation (.termRest l) ts e) (hus : Closes 2 us) (n : Nat)
    (hn : Enough False (10 * ts.length) n) :
    Gives False (Parser.termFromOf (Parser.unary n) l) (ts ++ us) e us := by
  obtain ⟨others, rfl, hothers⟩ := completes False d n hn us hus
  exact Parser.gives_termFromOf l hothers

theorem isOnly_negative {n : Int} (hn : n < 0) {d : Derivation (.termRest (.lit (.int n))) ts r}
    {ds : Derivation (.sumRest (.binary .add l r)) us e} (h : d.IsOnly) (hs : ds.IsOnly) :
    (Derivation.negative n hn d ds).IsOnly := by
  intro ts' x' d' htokens
  cases d' with
  | sumEnd | sign => cases htokens
  | negative n' hn' d' ds' =>
    simp only [List.cons.injEq, Token.int.injEq] at htokens
    obtain ⟨rfl, hrest⟩ := htokens
    obtain ⟨rfl, rfl⟩ := split_of_gives (gives_termRest d ds.closes_self)
      (gives_termRest d' ds'.closes_self) hrest
    cases h d' rfl
    exact (hs ds' rfl).lift (.negative n hn d)

theorem isOnly_term {d : Derivation .unary ts l} {ds : Derivation (.termRest l) us e}
    (h : d.IsOnly) (hs : ds.IsOnly) : (Derivation.term d ds).IsOnly := by
  intro ts' x' d' htokens
  cases d' with
  | term d' ds' =>
    obtain ⟨rfl, rfl⟩ := d.split d' rfl ds.closes_self ds'.closes_self htokens
    cases h d' rfl
    exact (hs ds' rfl).lift (.term d)

theorem isOnly_termEnd : (Derivation.termEnd (l := l)).IsOnly := by
  intro ts' x' d' htokens
  cases d' with
  | termEnd => exact .refl
  | factor => cases htokens

theorem isOnly_factor (hop : op.level = .term) {d : Derivation .unary ts r}
    {ds : Derivation (.termRest (.binary op l r)) us e} (h : d.IsOnly) (hs : ds.IsOnly) :
    (Derivation.factor op hop d ds).IsOnly := by
  intro ts' x' d' htokens
  cases d' with
  | termEnd => cases htokens
  | factor op' hop' d' ds' =>
    simp only [List.cons.injEq, Token.mark.injEq] at htokens
    obtain ⟨hmark, hrest⟩ := htokens
    obtain rfl := Operator.mark_injective hmark
    obtain ⟨rfl, rfl⟩ := d.split d' rfl ds.closes_self ds'.closes_self hrest
    cases h d' rfl
    exact (hs ds' rfl).lift (.factor op hop d)

theorem isOnly_not {d : Derivation .unary ts e} (h : d.IsOnly) : (Derivation.not d).IsOnly := by
  intro ts' x' d' htokens
  cases d' with
  | not d' => exact (h d' (List.cons.inj htokens).2).lift .not
  | plainPrimary d' => exact absurd rfl (d'.begins (by rw [← htokens]; rfl)).2

theorem isOnly_plainPrimary {d : Derivation .primary ts e} (h : d.IsOnly) :
    (Derivation.plainPrimary d).IsOnly := by
  intro ts' x' d' htokens
  cases d' with
  | not d' => exact absurd rfl (d.begins (by rw [htokens]; rfl)).2
  | plainPrimary d' => exact (h d' htokens).lift .plainPrimary

end Operators

section Operands

variable {e f : Expr} {es fs : List Expr} {t : Token}

theorem body_head (d : Derivation .body ts es) (h : ts = t :: us) : t = .mark .openBrace :=
  d.begins (by rw [h]; rfl)

theorem ifElse_head (d : Derivation .ifElse ts e) (h : ts = t :: us) : t = .mark .ifWord :=
  d.begins (by rw [h]; rfl)

theorem isOnly_int (n : Int) : (Derivation.int n).IsOnly := by
  intro ts' x' d' htokens
  cases d' with
  | int => cases htokens; exact .refl
  | block d' => cases body_head d' htokens.symm
  | condition d' => cases ifElse_head d' htokens.symm
  | _ => cases htokens

theorem isOnly_string (text : String) : (Derivation.string text).IsOnly := by
  intro ts' x' d' htokens
  cases d' with
  | string => cases htokens; exact .refl
  | block d' => cases body_head d' htokens.symm
  | condition d' => cases ifElse_head d' htokens.symm
  | _ => cases htokens

theorem isOnly_bool (b : Bool) : (Derivation.bool b).IsOnly := by
  intro ts' x' d' htokens
  cases d' with
  | bool => cases htokens; exact .refl
  | block d' => cases body_head d' htokens.symm
  | condition d' => cases ifElse_head d' htokens.symm
  | _ => cases htokens

theorem isOnly_name (name : String) : (Derivation.name name).IsOnly := by
  intro ts' x' d' htokens
  cases d' with
  | name => cases htokens; exact .refl
  | block d' => cases body_head d' htokens.symm
  | condition d' => cases ifElse_head d' htokens.symm
  | _ => cases htokens

theorem isOnly_call (name : String) {d : Derivation .arguments ts es} (h : d.IsOnly) :
    (Derivation.call name d).IsOnly := by
  intro ts' x' d' htokens
  cases d' with
  | call name' d' =>
    simp only [List.cons.injEq, Token.name.injEq, true_and] at htokens
    obtain ⟨rfl, hrest⟩ := htokens
    exact (h d' hrest).lift (.call name)
  | block d' => cases body_head d' htokens.symm
  | condition d' => cases ifElse_head d' htokens.symm
  | _ => cases htokens

theorem isOnly_unit : Derivation.unit.IsOnly := by
  intro ts' x' d' htokens
  cases d' with
  | unit => exact .refl
  | group d' | tuple d' =>
    exact absurd (congrArg List.head? (List.cons.inj htokens).2).symm
      (head?_expr_ne_closeParen d' _)
  | block d' => cases body_head d' htokens.symm
  | condition d' => cases ifElse_head d' htokens.symm
  | _ => cases htokens

/-- An expression in parentheses is not a tuple. -/
theorem group_ne_tuple {e' : Expr} (d : Derivation .expr ts e) (d' : Derivation .expr ts' e')
    (ds' : Derivation .items us es) :
    ts ++ [.mark .closeParen] ≠ ts' ++ (us ++ [.mark .closeParen]) := by
  intro h
  obtain ⟨_, hrest⟩ := d.split d' rfl (closes_cons _ (by decide)) (closes_items ds' _) h
  exact absurd (congrArg List.head? hrest).symm (head?_items_ne_closeParen ds' _)

theorem isOnly_group {d : Derivation .expr ts e} (h : d.IsOnly) :
    (Derivation.group d).IsOnly := by
  intro ts' x' d' htokens
  cases d' with
  | unit =>
    exact absurd (congrArg List.head? (List.cons.inj htokens).2)
      (head?_expr_ne_closeParen d _)
  | group d' =>
    obtain rfl := List.append_cancel_right (List.cons.inj htokens).2
    exact (h d' rfl).lift .group
  | tuple d' ds' => exact absurd (List.cons.inj htokens).2 (group_ne_tuple d d' ds')
  | block d' => cases body_head d' htokens.symm
  | condition d' => cases ifElse_head d' htokens.symm
  | _ => cases htokens

theorem isOnly_tuple {d : Derivation .expr ts e} {ds : Derivation .items us es} (h : d.IsOnly)
    (hs : ds.IsOnly) : (Derivation.tuple d ds).IsOnly := by
  intro ts' x' d' htokens
  cases d' with
  | unit =>
    exact absurd (congrArg List.head? (List.cons.inj htokens).2)
      (head?_expr_ne_closeParen d _)
  | group d' => exact absurd (List.cons.inj htokens).2.symm (group_ne_tuple d' d ds)
  | tuple d' ds' =>
    obtain ⟨rfl, hrest⟩ :=
      d.split d' rfl (closes_items ds _) (closes_items ds' _) (List.cons.inj htokens).2
    obtain rfl := List.append_cancel_right hrest
    cases h d' rfl
    cases hs ds' rfl
    exact .refl
  | block d' => cases body_head d' htokens.symm
  | condition d' => cases ifElse_head d' htokens.symm
  | _ => cases htokens

theorem isOnly_block {d : Derivation .body ts es} (h : d.IsOnly) :
    (Derivation.block d).IsOnly := by
  intro ts' x' d' htokens
  cases d' with
  | block d' => exact (h d' htokens).lift .block
  | condition d' =>
    obtain ⟨t, us, hcons⟩ := List.exists_cons_of_ne_nil (d.ne_nil rfl)
    cases (body_head d hcons).symm.trans (ifElse_head d' (htokens ▸ hcons))
  | _ => cases body_head d htokens

theorem isOnly_condition {d : Derivation .ifElse ts e} (h : d.IsOnly) :
    (Derivation.condition d).IsOnly := by
  intro ts' x' d' htokens
  cases d' with
  | block d' =>
    obtain ⟨t, us, hcons⟩ := List.exists_cons_of_ne_nil (d.ne_nil rfl)
    cases (ifElse_head d hcons).symm.trans (body_head d' (htokens ▸ hcons))
  | condition d' => exact (h d' htokens).lift .condition
  | _ => cases ifElse_head d htokens

theorem isOnly_noArguments : Derivation.noArguments.IsOnly := by
  intro ts' x' d' htokens
  cases d' with
  | noArguments => exact .refl
  | someArguments d' ds' =>
    exact absurd (congrArg List.head? htokens).symm (head?_expr_ne_closeParen d' _)

theorem isOnly_someArguments {d : Derivation .expr ts e} {ds : Derivation .moreArguments us es}
    (h : d.IsOnly) (hs : ds.IsOnly) : (Derivation.someArguments d ds).IsOnly := by
  intro ts' x' d' htokens
  cases d' with
  | noArguments =>
    exact absurd (congrArg List.head? htokens) (head?_expr_ne_closeParen d _)
  | someArguments d' ds' =>
    obtain ⟨rfl, rfl⟩ :=
      d.split d' rfl (ds.closes_expr_self rfl) (ds'.closes_expr_self rfl) htokens
    cases h d' rfl
    cases hs ds' rfl
    exact .refl

theorem isOnly_lastArgument : Derivation.lastArgument.IsOnly := by
  intro ts' x' d' htokens
  cases d' with
  | lastArgument => exact .refl
  | nextArgument => cases htokens

theorem isOnly_nextArgument {d : Derivation .expr ts e} {ds : Derivation .moreArguments us es}
    (h : d.IsOnly) (hs : ds.IsOnly) : (Derivation.nextArgument d ds).IsOnly := by
  intro ts' x' d' htokens
  cases d' with
  | lastArgument => cases htokens
  | nextArgument d' ds' =>
    obtain ⟨rfl, rfl⟩ := d.split d' rfl (ds.closes_expr_self rfl) (ds'.closes_expr_self rfl)
      (List.cons.inj htokens).2
    cases h d' rfl
    cases hs ds' rfl
    exact .refl

theorem isOnly_trailingComma : Derivation.trailingComma.IsOnly := by
  intro ts' x' d' htokens
  cases d' with
  | trailingComma => exact .refl
  | nextItem d' ds' =>
    have hnil := (List.cons.inj htokens).2.symm
    exact absurd (List.append_eq_nil_iff.mp hnil).1 (d'.ne_nil rfl)

theorem isOnly_nextItem {d : Derivation .expr ts e} {ds : Derivation .moreItems us es}
    (h : d.IsOnly) (hs : ds.IsOnly) : (Derivation.nextItem d ds).IsOnly := by
  intro ts' x' d' htokens
  cases d' with
  | trailingComma =>
    have hnil := (List.cons.inj htokens).2
    exact absurd (List.append_eq_nil_iff.mp hnil).1 (d.ne_nil rfl)
  | nextItem d' ds' =>
    obtain ⟨rfl, rfl⟩ :=
      d.split d' rfl (ds.closes_expr_self rfl) (ds'.closes_expr_self rfl) (List.cons.inj htokens).2
    cases h d' rfl
    cases hs ds' rfl
    exact .refl

theorem isOnly_lastItem : Derivation.lastItem.IsOnly := by
  intro ts' x' d' htokens
  cases d' with
  | lastItem => exact .refl
  | furtherItems d' => exact absurd htokens.symm (d'.ne_nil rfl)

theorem isOnly_furtherItems {d : Derivation .items ts es} (h : d.IsOnly) :
    (Derivation.furtherItems d).IsOnly := by
  intro ts' x' d' htokens
  cases d' with
  | lastItem => exact absurd htokens (d.ne_nil rfl)
  | furtherItems d' => exact (h d' htokens).lift .furtherItems

/-- The condition and the first body of two conditions with equal tokens, and what is behind. -/
theorem split_condition {vs vs' : List Token} {e' : Expr} {es' : List Expr}
    (d : Derivation .expr ts e) (d' : Derivation .expr ts' e') (ds : Derivation .body us es)
    (ds' : Derivation .body us' es') (h : ts ++ (us ++ vs) = ts' ++ (us' ++ vs')) :
    ts = ts' ∧ us = us' ∧ vs = vs' := by
  obtain ⟨rfl, hrest⟩ := d.split d' rfl (closes_body ds vs) (closes_body ds' vs') h
  exact ⟨rfl, ds.split ds' rfl (closes_zero _) (closes_zero _) hrest⟩

/-- With `else` a condition has more tokens than without. -/
theorem ifOnly_ne_else {vs : List Token} {e' : Expr} {es' : List Expr} (d : Derivation .expr ts e)
    (d' : Derivation .expr ts' e') (ds : Derivation .body us es) (ds' : Derivation .body us' es') :
    ts ++ us ≠ ts' ++ (us' ++ .mark .elseWord :: vs) := by
  intro h
  rw [← List.append_nil us] at h
  cases (split_condition d d' ds ds' h).2.2

theorem isOnly_ifOnly {d : Derivation .expr ts e} {ds : Derivation .body us es} (h : d.IsOnly)
    (hs : ds.IsOnly) : (Derivation.ifOnly d ds).IsOnly := by
  intro ts' x' d' htokens
  cases d' with
  | ifOnly d' ds' =>
    obtain ⟨rfl, rfl⟩ := d.split d' rfl (ds.closes_expr_self rfl)
      (ds'.closes_expr_self rfl) (List.cons.inj htokens).2
    cases h d' rfl
    cases hs ds' rfl
    exact .refl
  | ifElse d' ds' | elseIf d' ds' =>
    exact absurd (List.cons.inj htokens).2 (ifOnly_ne_else d d' ds ds')

theorem isOnly_ifElse {vs : List Token} {d : Derivation .expr ts e} {ds : Derivation .body us es}
    {dv : Derivation .body vs fs} (h : d.IsOnly) (hs : ds.IsOnly) (hv : dv.IsOnly) :
    (Derivation.ifElse d ds dv).IsOnly := by
  intro ts' x' d' htokens
  cases d' with
  | ifOnly d' ds' => exact absurd (List.cons.inj htokens).2.symm (ifOnly_ne_else d' d ds' ds)
  | ifElse d' ds' dv' =>
    obtain ⟨rfl, rfl, hlast⟩ := split_condition d d' ds ds' (List.cons.inj htokens).2
    obtain ⟨_, rfl⟩ := List.cons.inj hlast
    cases h d' rfl
    cases hs ds' rfl
    cases hv dv' rfl
    exact .refl
  | elseIf d' ds' dv' =>
    obtain ⟨rfl, rfl, hlast⟩ := split_condition d d' ds ds' (List.cons.inj htokens).2
    obtain ⟨_, rfl⟩ := List.cons.inj hlast
    obtain ⟨t, ws, hcons⟩ := List.exists_cons_of_ne_nil (dv.ne_nil rfl)
    cases (body_head dv hcons).symm.trans (ifElse_head dv' hcons)

theorem isOnly_elseIf {vs : List Token} {d : Derivation .expr ts e} {ds : Derivation .body us es}
    {dv : Derivation .ifElse vs f} (h : d.IsOnly) (hs : ds.IsOnly) (hv : dv.IsOnly) :
    (Derivation.elseIf d ds dv).IsOnly := by
  intro ts' x' d' htokens
  cases d' with
  | ifOnly d' ds' => exact absurd (List.cons.inj htokens).2.symm (ifOnly_ne_else d' d ds' ds)
  | ifElse d' ds' dv' =>
    obtain ⟨rfl, rfl, hlast⟩ := split_condition d d' ds ds' (List.cons.inj htokens).2
    obtain ⟨_, rfl⟩ := List.cons.inj hlast
    obtain ⟨t, ws, hcons⟩ := List.exists_cons_of_ne_nil (dv.ne_nil rfl)
    cases (ifElse_head dv hcons).symm.trans (body_head dv' hcons)
  | elseIf d' ds' dv' =>
    obtain ⟨rfl, rfl, hlast⟩ := split_condition d d' ds ds' (List.cons.inj htokens).2
    obtain ⟨_, rfl⟩ := List.cons.inj hlast
    cases h d' rfl
    cases hs ds' rfl
    cases hv dv' rfl
    exact .refl

end Operands

/-- There is no other derivation from the same tokens. -/
theorem Derivation.isOnly (d : Derivation c ts x) : d.IsOnly := by
  induction d with
  | program count _ ih => exact isOnly_program count ih
  | noFunctions => exact isOnly_noFunctions
  | someFunctions count _ _ ih ihs => exact isOnly_someFunctions count ih ihs
  | function name _ _ ihs ih => exact isOnly_function name ihs ih
  | noParams => exact isOnly_noParams
  | someParams _ _ ih ihs => exact isOnly_someParams ih ihs
  | lastParam => exact isOnly_lastParam
  | nextParam _ _ ih ihs => exact isOnly_nextParam ih ihs
  | plainParam name => exact isOnly_plainParam name
  | annotatedParam name annotation => exact isOnly_annotatedParam name annotation
  | body count _ ih => exact isOnly_body count ih
  | noStatements => exact isOnly_noStatements
  | someStatements _ _ ih ihs => exact isOnly_someStatements ih ihs
  | lastStatement count => exact isOnly_lastStatement count
  | nextStatement count _ _ ih ihs => exact isOnly_nextStatement count ih ihs
  | declare name _ ih => exact isOnly_declare name ih
  | assign name _ ih => exact isOnly_assign name ih
  | expression _ ih => exact isOnly_expression ih
  | expr _ _ ih ihs => exact isOnly_expr ih ihs
  | exprEnd => exact isOnly_exprEnd
  | or _ _ ih ihs => exact isOnly_or ih ihs
  | conjunction _ _ ih ihs => exact isOnly_conjunction ih ihs
  | conjunctionEnd => exact isOnly_conjunctionEnd
  | and _ _ ih ihs => exact isOnly_and ih ihs
  | plainSum _ ih => exact isOnly_plainSum ih
  | compare op h _ _ ih ihs => exact isOnly_compare h ih ihs
  | sum _ _ ih ihs => exact isOnly_sum ih ihs
  | sumEnd => exact isOnly_sumEnd
  | sign op h _ _ ih ihs => exact isOnly_sign h ih ihs
  | negative n h _ _ ih ihs => exact isOnly_negative h ih ihs
  | term _ _ ih ihs => exact isOnly_term ih ihs
  | termEnd => exact isOnly_termEnd
  | factor op h _ _ ih ihs => exact isOnly_factor h ih ihs
  | not _ ih => exact isOnly_not ih
  | plainPrimary _ ih => exact isOnly_plainPrimary ih
  | int n => exact isOnly_int n
  | string text => exact isOnly_string text
  | bool b => exact isOnly_bool b
  | name name => exact isOnly_name name
  | call name _ ih => exact isOnly_call name ih
  | unit => exact isOnly_unit
  | group _ ih => exact isOnly_group ih
  | tuple _ _ ih ihs => exact isOnly_tuple ih ihs
  | block _ ih => exact isOnly_block ih
  | condition _ ih => exact isOnly_condition ih
  | noArguments => exact isOnly_noArguments
  | someArguments _ _ ih ihs => exact isOnly_someArguments ih ihs
  | lastArgument => exact isOnly_lastArgument
  | nextArgument _ _ ih ihs => exact isOnly_nextArgument ih ihs
  | trailingComma => exact isOnly_trailingComma
  | nextItem _ _ ih ihs => exact isOnly_nextItem ih ihs
  | lastItem => exact isOnly_lastItem
  | furtherItems _ ih => exact isOnly_furtherItems ih
  | ifOnly _ _ ih ihs => exact isOnly_ifOnly ih ihs
  | ifElse _ _ _ ih ihs ihv => exact isOnly_ifElse ih ihs ihv
  | elseIf _ _ _ ih ihs ihv => exact isOnly_elseIf ih ihs ihv

/-- A derivation and its tree are determined by the tokens. -/
theorem Derivation.unique {x' : c.Tree} (d : Derivation c ts x) (d' : Derivation c ts x') :
    (⟨x, d⟩ : Σ x : c.Tree, Derivation c ts x) = ⟨x', d'⟩ := by
  cases d.isOnly d' rfl
  rfl

end Grammar

/-! ## The parser and the grammar -/

namespace Parser

open Grammar

variable {c : Cursor} {ts : List Token} {ending : Option ReadError} {P : Program}

/-- What is read as a program derives from the tokens. -/
theorem derives_of_result {budget : Nat} (h : c.Holds ts ending)
    (hread : (program budget).result c = .ok P) : Derives .program ts P := by
  obtain ⟨c', hp⟩ := result_eq_ok_iff.mp hread
  obtain ⟨rest, ⟨_, hderives⟩, _⟩ := reads_program budget h hp
  exact hderives

/-- A program is read with any budget that its tokens could need. -/
theorem result_of_derives {budget : Nat} (h : c.Holds ts none) (hbudget : 10 * ts.length < budget)
    (hderives : Derives .program ts P) : (program budget).result c = .ok P := by
  obtain ⟨d⟩ := hderives
  obtain ⟨c', hp, _⟩ | ⟨hfalse, _⟩ := completes False d budget (Or.inl hbudget) h
  · exact result_eq_ok_iff.mpr ⟨c', hp⟩
  · exact hfalse.elim

/-- With less a program is read or found to be nested too deeply. -/
theorem result_of_derives_or (budget : Nat) (h : c.Holds ts none)
    (hderives : Derives .program ts P) :
    (program budget).result c = .ok P ∨
      ∃ position, (program budget).result c = .error (.nestedTooDeeply position) := by
  obtain ⟨d⟩ := hderives
  obtain ⟨c', hp, _⟩ | ⟨_, position, c', hp⟩ := completes True d budget (Or.inr trivial) h
  · exact Or.inl (result_eq_ok_iff.mpr ⟨c', hp⟩)
  · exact Or.inr ⟨position, by rw [result, hp]⟩

end Parser

open Grammar in
/-- The parser accepts exactly the grammar.  With any budget above ten times the number of tokens it
reads the program that the tokens derive, if there is one, and nothing else; with the fixed limit on
nesting it never reads anything else, and misses a program only for the nesting.  And tokens derive
in at most one way. -/
theorem program_accepts_exactly_the_grammar (spans : List Span) :
    (∀ P budget, 10 * spans.length < budget →
      ((Parser.program budget).result (.ofItems (spans.map .token)) = .ok P ↔
        Derives .program (spans.map Span.token) P)) ∧
    (∀ P, Program.read (.ofItems (spans.map .token)) = .ok P →
      Derives .program (spans.map Span.token) P) ∧
    (∀ P, Derives .program (spans.map Span.token) P →
      Program.read (.ofItems (spans.map .token)) = .ok P ∨
      ∃ position, Program.read (.ofItems (spans.map .token)) =
        .error (.nestedTooDeeply position)) ∧
    ∀ d d' : Σ P : Program, Derivation .program (spans.map Span.token) P, d = d' := by
  have hholds := Cursor.holds_ofItems spans
  refine ⟨fun P budget hbudget => ⟨?_, ?_⟩, ?_, ?_, ?_⟩
  · exact Parser.derives_of_result hholds
  · exact Parser.result_of_derives hholds (by rwa [List.length_map])
  · exact fun P => Parser.derives_of_result hholds
  · exact fun P => Parser.result_of_derives_or _ hholds
  · rintro ⟨P, d⟩ ⟨P', d'⟩
    exact d.unique d'

/-- The tokens of `func f(n) { n -1 }`, where the integer goes on with the sum. -/
def decrement : List Span :=
  ([.mark .func, .name "f", .mark .openParen, .name "n", .mark .closeParen, .mark .openBrace,
    .name "n", .int (-1), .mark .closeBrace] : List Token).map fun t => ⟨0, t, 0⟩

theorem decrement_derives : 10 * decrement.length < 91 ∧
    Grammar.Derives .program (decrement.map Span.token)
      [⟨"f", [⟨"n", none⟩], [.binary .add (.name "n") (.lit (.int (-1)))]⟩] :=
  ⟨by decide, ((program_accepts_exactly_the_grammar decrement).1 _ 91 (by decide)).mp (by rfl)⟩

end Scriptlet
