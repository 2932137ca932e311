import Scriptlet.Proofs.Phrases
import Scriptlet.Proofs.Reading
import Scriptlet.Syntax.Parser

/-!
# What is read is a phrase

Whenever a parser succeeds, the tokens that it took off the outlook derive the tree that it answers.
There is one lemma for each rule, about the rule as a function of the parsers that it calls: if
those read phrases, so does the rule.  The recursion that ties the rules together is on the budget,
and so is the induction that ties the lemmas together.

A rule with a loop yields a list, where the grammar has a phrase for what follows the first element.
The lemma then goes from the list to the phrase by induction on the loop.
-/

namespace Scriptlet
namespace Parser

open Grammar

variable {α : Type} {category : Category} {us ts mid rest : List Token}

/-- A phrase of the category is next, and `rest` is what stands behind it. -/
def Phrase (category : Category) (ts : List Token) (x : category.Tree) (rest : List Token) : Prop :=
  ∃ us, ts = us ++ rest ∧ Derives category us x

theorem Phrase.of_derivation {x : category.Tree} (d : Derivation category us x)
    (rest : List Token) : Phrase category (us ++ rest) x rest :=
  ⟨us, rfl, ⟨d⟩⟩

theorem Phrase.length_le {x : category.Tree} (h : Phrase category ts x rest) :
    rest.length ≤ ts.length := by
  obtain ⟨us, rfl, _⟩ := h
  rw [List.length_append]
  omega

theorem Phrase.length_lt {x : category.Tree} (h : Phrase category ts x rest)
    (hfilled : category.nullable = false) : rest.length < ts.length := by
  obtain ⟨us, rfl, ⟨d⟩⟩ := h
  have hpos := List.length_pos_of_ne_nil (d.ne_nil hfilled)
  rw [List.length_append]
  omega

/-- What stands behind a mark takes at least the mark. -/
theorem AfterMark.length_lt {m : Mark} {R : List Token → α → List Token → Prop}
    (hle : ∀ ⦃ts a rest⦄, R ts a rest → rest.length ≤ ts.length) {a : α}
    (h : AfterMark m R ts (some a) rest) : rest.length < ts.length := by
  obtain ⟨mid, rfl, hread⟩ := h
  exact Nat.lt_succ_of_le (hle hread)

theorem reads_many_afterMark (m : Mark) {next : Parser α} {R : List Token → α → List Token → Prop}
    (hnext : Reads next R) (hle : ∀ ⦃ts a rest⦄, R ts a rest → rest.length ≤ ts.length) :
    Reads (many (afterMark m next)) (Repeats (AfterMark m R)) :=
  reads_many (reads_afterMark m hnext) fun _ _ _ => AfterMark.length_lt hle

/-! ## Lists in parentheses -/

/-- A list before a closing parenthesis is empty, or an item and others behind commas. -/
def Listed (R : List Token → α → List Token → Prop) (ts : List Token) :
    List α → List Token → Prop
  | [], rest => ts = .mark .closeParen :: rest
  | first :: others, rest => ∃ mid, R ts first mid ∧
    Repeats (AfterMark .comma R) mid others (.mark .closeParen :: rest)

theorem reads_commaSeparated {item : Parser α} {R : List Token → α → List Token → Prop}
    (hitem : Reads item R) (hle : ∀ ⦃ts a rest⦄, R ts a rest → rest.length ≤ ts.length) :
    Reads (commaSeparated item) (Listed R) := by
  intro c c' ts ending as h hp
  obtain ⟨b, mid, c₁, ⟨_, rfl⟩, h₁, hp⟩ := (reads_isAtMark .closeParen).of_bind h hp
  cases b with
  | true =>
    obtain ⟨_, rest, c₂, rfl, h₂, hp⟩ := (reads_expectMark .closeParen).of_bind h₁ hp
    obtain ⟨rfl, rfl⟩ := eq_of_pure_eq_ok hp
    exact ⟨rest, rfl, h₂⟩
  | false =>
    obtain ⟨first, left, c₂, hfirst, h₂, hp⟩ := hitem.of_bind h₁ hp
    obtain ⟨others, left, c₃, hothers, h₃, hp⟩ :=
      (reads_many_afterMark .comma hitem hle).of_bind h₂ hp
    obtain ⟨_, rest, c₄, rfl, h₄, hp⟩ := (reads_expectMark .closeParen).of_bind h₃ hp
    obtain ⟨rfl, rfl⟩ := eq_of_pure_eq_ok hp
    exact ⟨rest, ⟨_, hfirst, hothers⟩, h₄⟩

/-! ## Functions -/

theorem reads_optionalName : Reads optionalName fun ts name? rest =>
    (name? = none ∧ rest = ts) ∨ ∃ name, name? = some name ∧ ts = .name name :: rest := by
  intro c c' ts ending name? h hp
  obtain ⟨next, mid, c₁, ⟨rfl, rfl⟩, h₁, hp⟩ := reads_peek.of_bind h hp
  match mid with
  | .name name :: mid =>
    obtain ⟨t, rest, c₂, hcons, h₂, hp⟩ := reads_advance.of_bind h₁ hp
    obtain ⟨rfl, rfl⟩ := eq_of_pure_eq_ok hp
    obtain ⟨rfl, rfl⟩ := List.cons.inj hcons
    exact ⟨mid, Or.inr ⟨name, rfl, rfl⟩, h₂⟩
  | [] | .mark _ :: _ | .bool _ :: _ | .string _ :: _ | .int _ :: _ =>
    obtain ⟨rfl, rfl⟩ := eq_of_pure_eq_ok hp
    exact ⟨_, Or.inl ⟨rfl, rfl⟩, h₁⟩

theorem reads_param : Reads param (Phrase .param) := by
  intro c c' ts ending p h hp
  obtain ⟨name, mid, c₁, rfl, h₁, hp⟩ := reads_expectName.of_bind h hp
  obtain ⟨behind, rest, c₂, hread, h₂, hp⟩ := reads_optionalName.of_bind h₁ hp
  obtain ⟨rfl, rfl⟩ := eq_of_pure_eq_ok hp
  refine ⟨rest, ?_, h₂⟩
  rcases hread with ⟨rfl, rfl⟩ | ⟨text, rfl, rfl⟩
  · exact Phrase.of_derivation (.plainParam name) rest
  · exact Phrase.of_derivation (.annotatedParam name text) rest

theorem phrase_moreParams {ps : List Param}
    (h : Repeats (AfterMark .comma (Phrase .param)) ts ps (.mark .closeParen :: rest)) :
    Phrase .moreParams ts ps rest := by
  generalize hend : Token.mark .closeParen :: rest = last at h
  induction h with
  | stop hstop =>
    obtain ⟨_, rfl⟩ := hstop
    subst hend
    exact Phrase.of_derivation .lastParam rest
  | more hfirst _ _ ih =>
    obtain ⟨_, rfl, us, rfl, ⟨dparam⟩⟩ := hfirst
    obtain ⟨vs, rfl, ⟨drest⟩⟩ := ih hend
    have d := Derivation.nextParam dparam drest
    exact ⟨_, by simp, ⟨d⟩⟩

theorem phrase_params {ps : List Param} (h : Listed (Phrase .param) ts ps rest) :
    Phrase .params ts ps rest := by
  cases ps with
  | nil =>
    rw [Listed] at h
    subst h
    exact Phrase.of_derivation .noParams rest
  | cons p ps =>
    obtain ⟨mid, ⟨us, rfl, ⟨dparam⟩⟩, hothers⟩ := h
    obtain ⟨vs, rfl, ⟨drest⟩⟩ := phrase_moreParams hothers
    exact ⟨_, by rw [List.append_assoc], ⟨.someParams dparam drest⟩⟩

theorem reads_functionOf {body : Parser (List Expr)} (hbody : Reads body (Phrase .body)) :
    Reads (functionOf body) (Phrase .function) := by
  have hlist := reads_commaSeparated reads_param fun _ _ _ => Phrase.length_le
  intro c c' ts ending f h hp
  obtain ⟨_, _, c₁, rfl, h₁, hp⟩ := (reads_expectMark .func).of_bind h hp
  obtain ⟨name, _, c₂, rfl, h₂, hp⟩ := reads_expectName.of_bind h₁ hp
  obtain ⟨_, _, c₃, rfl, h₃, hp⟩ := (reads_expectMark .openParen).of_bind h₂ hp
  obtain ⟨ps, mid, c₄, hparams, h₄, hp⟩ := hlist.of_bind h₃ hp
  obtain ⟨es, rest, c₅, hbody, h₅, hp⟩ := hbody.of_bind h₄ hp
  obtain ⟨rfl, rfl⟩ := eq_of_pure_eq_ok hp
  obtain ⟨us, rfl, ⟨dparams⟩⟩ := phrase_params hparams
  obtain ⟨vs, rfl, ⟨dbody⟩⟩ := hbody
  exact ⟨rest, ⟨_, by simp, ⟨.function name dparams dbody⟩⟩, h₅⟩

/-- A step of the loop over functions: the end of the tokens, or a function and the semicolons
behind it. -/
def FunctionStep (ts : List Token) : Option Function → List Token → Prop
  | none, rest => ts = [] ∧ rest = []
  | some f, rest => ∃ count, Phrase .function ts f (semicolons count ++ rest)

theorem FunctionStep.length_lt {f : Function} (h : FunctionStep ts (some f) rest) :
    rest.length < ts.length := by
  obtain ⟨count, hf⟩ := h
  have hlt := hf.length_lt rfl
  rw [List.length_append] at hlt
  omega

theorem reads_nextFunction {function : Parser Function}
    (hfunction : Reads function (Phrase .function)) :
    Reads (nextFunction function) FunctionStep := by
  intro c c' ts ending o h hp
  obtain ⟨next, mid, c₁, ⟨rfl, rfl⟩, h₁, hp⟩ := reads_peek.of_bind h hp
  cases mid with
  | nil =>
    obtain ⟨rfl, rfl⟩ := eq_of_pure_eq_ok hp
    exact ⟨[], ⟨rfl, rfl⟩, h₁⟩
  | cons t mid =>
    obtain ⟨f, left, c₂, hf, h₂, hp⟩ := hfunction.of_bind h₁ hp
    obtain ⟨_, rest, c₃, ⟨count, rfl, _⟩, h₃, hp⟩ := reads_skipSemicolons.of_bind h₂ hp
    obtain ⟨rfl, rfl⟩ := eq_of_pure_eq_ok hp
    exact ⟨rest, ⟨count, hf⟩, h₃⟩

theorem functions_of_repeats {p : Program} (h : Repeats FunctionStep ts p rest) :
    rest = [] ∧ Derives .functions ts p := by
  induction h with
  | stop hstop =>
    obtain ⟨rfl, rfl⟩ := hstop
    exact ⟨rfl, ⟨.noFunctions⟩⟩
  | more hfirst _ _ ih =>
    obtain ⟨count, us, rfl, ⟨dfunction⟩⟩ := hfirst
    obtain ⟨rfl, ⟨dfunctions⟩⟩ := ih
    exact ⟨rfl, ⟨.someFunctions count dfunction dfunctions⟩⟩

/-- A program is all of the tokens. -/
theorem reads_programOf {function : Parser Function}
    (hfunction : Reads function (Phrase .function)) :
    Reads (programOf function) fun ts p rest => rest = [] ∧ Derives .program ts p := by
  intro c c' ts ending p h hp
  obtain ⟨_, mid, c₁, ⟨count, rfl, _⟩, h₁, hp⟩ := reads_skipSemicolons.of_bind h hp
  have hloop := reads_many (reads_nextFunction hfunction) fun _ _ _ => FunctionStep.length_lt
  obtain ⟨rest, hread, h₂⟩ := hloop h₁ hp
  obtain ⟨rfl, ⟨dfunctions⟩⟩ := functions_of_repeats hread
  exact ⟨[], ⟨rfl, ⟨.program count dfunctions⟩⟩, h₂⟩

/-! ## Bodies and statements -/

/-- A step of the loop over statements: a body that ends, or a statement and the semicolons behind
it, of which there are none only at the end of the body. -/
def StatementStep (ts : List Token) : Option Expr → List Token → Prop
  | none, rest => ts.head? = some (.mark .closeBrace) ∧ rest = ts
  | some e, rest => ts.head? ≠ some (.mark .closeBrace) ∧ ∃ count,
    Phrase .statement ts e (semicolons count ++ rest) ∧
    (count = 0 → rest.head? = some (.mark .closeBrace))

theorem StatementStep.length_lt {e : Expr} (h : StatementStep ts (some e) rest) :
    rest.length < ts.length := by
  obtain ⟨_, count, he, _⟩ := h
  have hlt := he.length_lt rfl
  rw [List.length_append] at hlt
  omega

theorem reads_nextStatement {statement : Parser Expr}
    (hstatement : Reads statement (Phrase .statement)) :
    Reads (nextStatement statement) StatementStep := by
  intro c c' ts ending o h hp
  obtain ⟨atEnd, mid, c₁, ⟨hatEnd, rfl⟩, h₁, hp⟩ := (reads_isAtMark .closeBrace).of_bind h hp
  cases atEnd with
  | true =>
    obtain ⟨rfl, rfl⟩ := eq_of_pure_eq_ok hp
    exact ⟨mid, ⟨hatEnd.mp rfl, rfl⟩, h₁⟩
  | false =>
    have hmid : mid.head? ≠ some (.mark .closeBrace) := fun hhead => by simpa using hatEnd.mpr hhead
    obtain ⟨e, left, c₂, he, h₂, hp⟩ := hstatement.of_bind h₁ hp
    obtain ⟨last, _, c₃, ⟨hlast, rfl⟩, h₃, hp⟩ := (reads_isAtMark .closeBrace).of_bind h₂ hp
    cases last with
    | true =>
      obtain ⟨rfl, rfl⟩ := eq_of_pure_eq_ok hp
      exact ⟨_, ⟨hmid, 0, he, fun _ => hlast.mp rfl⟩, h₃⟩
    | false =>
      obtain ⟨_, _, c₄, rfl, h₄, hp⟩ := (reads_expectMark .semicolon).of_bind h₃ hp
      obtain ⟨_, rest, c₅, ⟨count, rfl, _⟩, h₅, hp⟩ := reads_skipSemicolons.of_bind h₄ hp
      obtain ⟨rfl, rfl⟩ := eq_of_pure_eq_ok hp
      exact ⟨rest, ⟨hmid, count + 1, he, fun hzero => by omega⟩, h₅⟩

theorem phrase_moreStatements {es : List Expr} (count : Nat)
    (h : Repeats StatementStep mid es rest)
    (hend : count = 0 → mid.head? = some (.mark .closeBrace)) :
    Phrase .moreStatements (semicolons count ++ mid) es rest := by
  induction h generalizing count with
  | stop hstop =>
    obtain ⟨_, rfl⟩ := hstop
    exact Phrase.of_derivation (.lastStatement count) _
  | more hfirst _ _ ih =>
    obtain ⟨hhead, count', ⟨us, rfl, ⟨dstatement⟩⟩, hend'⟩ := hfirst
    obtain ⟨vs, hvs, ⟨dmore⟩⟩ := ih count' hend'
    obtain ⟨count, rfl⟩ := Nat.exists_eq_add_one_of_ne_zero fun hzero => hhead (hend hzero)
    exact ⟨_, by rw [hvs]; simp, ⟨.nextStatement count dstatement dmore⟩⟩

theorem phrase_statements {es : List Expr} (h : Repeats StatementStep ts es rest) :
    Phrase .statements ts es rest := by
  cases h with
  | stop hstop =>
    obtain ⟨_, rfl⟩ := hstop
    exact Phrase.of_derivation .noStatements _
  | more hfirst _ hmore =>
    obtain ⟨_, count, ⟨us, rfl, ⟨dstatement⟩⟩, hend⟩ := hfirst
    obtain ⟨vs, hvs, ⟨dmore⟩⟩ := phrase_moreStatements count hmore hend
    exact ⟨_, by rw [hvs]; simp, ⟨.someStatements dstatement dmore⟩⟩

theorem reads_bodyOf {statement : Parser Expr} (hstatement : Reads statement (Phrase .statement)) :
    Reads (bodyOf statement) (Phrase .body) := by
  have hloop := reads_many (reads_nextStatement hstatement) fun _ _ _ => StatementStep.length_lt
  intro c c' ts ending es h hp
  obtain ⟨_, _, c₁, rfl, h₁, hp⟩ := (reads_expectMark .openBrace).of_bind h hp
  obtain ⟨_, _, c₂, ⟨count, rfl, _⟩, h₂, hp⟩ := reads_skipSemicolons.of_bind h₁ hp
  obtain ⟨es, _, c₃, hstatements, h₃, hp⟩ := hloop.of_bind h₂ hp
  obtain ⟨_, rest, c₄, rfl, h₄, hp⟩ := (reads_expectMark .closeBrace).of_bind h₃ hp
  obtain ⟨rfl, rfl⟩ := eq_of_pure_eq_ok hp
  obtain ⟨us, rfl, ⟨dstatements⟩⟩ := phrase_statements hstatements
  exact ⟨rest, ⟨_, by simp, ⟨.body count dstatements⟩⟩, h₄⟩

/-- Behind two tokens stands an expression. -/
theorem reads_behindTwo {expr : Parser Expr} (hexpr : Reads expr (Phrase .expr))
    (build : Expr → Expr) :
    Reads (do let _ ← advance; let _ ← advance; return build (← expr)) fun ts e rest =>
      ∃ t t' us e', ts = t :: t' :: (us ++ rest) ∧ Derives .expr us e' ∧ e = build e' := by
  intro c c' ts ending e h hp
  obtain ⟨t, _, c₁, rfl, h₁, hp⟩ := reads_advance.of_bind h hp
  obtain ⟨t', _, c₂, rfl, h₂, hp⟩ := reads_advance.of_bind h₁ hp
  obtain ⟨e', rest, c₃, ⟨us, rfl, d⟩, h₃, hp⟩ := hexpr.of_bind h₂ hp
  obtain ⟨rfl, rfl⟩ := eq_of_pure_eq_ok hp
  exact ⟨rest, ⟨t, t', us, e', rfl, d, rfl⟩, h₃⟩

theorem reads_statementOf {expr : Parser Expr} (hexpr : Reads expr (Phrase .expr)) :
    Reads (statementOf expr) (Phrase .statement) := by
  have hplain : Reads expr (Phrase .statement) := by
    intro c c' ts ending e h hp
    obtain ⟨rest, ⟨us, rfl, ⟨d⟩⟩, h₁⟩ := hexpr h hp
    exact ⟨rest, Phrase.of_derivation (.expression d) rest, h₁⟩
  intro c c' ts ending e h hp
  obtain ⟨next, mid, c₁, ⟨rfl, rfl⟩, h₁, hp⟩ := reads_peek.of_bind h hp
  match mid with
  | .name name :: .mark m :: mid =>
    obtain ⟨next, _, c₂, ⟨rfl, rfl⟩, h₂, hp⟩ := (reads_peekAhead 1).of_bind h₁ hp
    cases m with
    | define =>
      obtain ⟨rest, ⟨t, t', us, e, hts, ⟨d⟩, rfl⟩, h₃⟩ := reads_behindTwo hexpr _ h₂ hp
      rw [List.cons.injEq, List.cons.injEq] at hts
      obtain ⟨rfl, rfl, rfl⟩ := hts
      exact ⟨rest, Phrase.of_derivation (.declare name d) rest, h₃⟩
    | assign =>
      obtain ⟨rest, ⟨t, t', us, e, hts, ⟨d⟩, rfl⟩, h₃⟩ := reads_behindTwo hexpr _ h₂ hp
      rw [List.cons.injEq, List.cons.injEq] at hts
      obtain ⟨rfl, rfl, rfl⟩ := hts
      exact ⟨rest, Phrase.of_derivation (.assign name d) rest, h₃⟩
    | _ => exact hplain h₂ hp
  | [.name _] | .name _ :: .bool _ :: _ | .name _ :: .string _ :: _ | .name _ :: .int _ :: _
  | .name _ :: .name _ :: _ =>
    obtain ⟨next, _, c₂, ⟨rfl, rfl⟩, h₂, hp⟩ := (reads_peekAhead 1).of_bind h₁ hp
    exact hplain h₂ hp
  | [] | .mark _ :: _ | .bool _ :: _ | .string _ :: _ | .int _ :: _ => exact hplain h₁ hp

/-! ## Chains of operators -/

theorem reads_conditionalChain (op : Conditional) (m : Mark) {operand : Parser Expr}
    {R : List Token → Expr → List Token → Prop} (hoperand : Reads operand R)
    (hle : ∀ ⦃ts a rest⦄, R ts a rest → rest.length ≤ ts.length) :
    Reads (conditionalChain op m operand) fun ts e rest => ∃ first mid others,
      R ts first mid ∧ Repeats (AfterMark m R) mid others rest ∧
      e = others.foldl (Expr.conditional op) first := by
  intro c c' ts ending e h hp
  obtain ⟨first, mid, c₁, hfirst, h₁, hp⟩ := hoperand.of_bind h hp
  obtain ⟨others, rest, c₂, hothers, h₂, hp⟩ := (reads_many_afterMark m hoperand hle).of_bind h₁ hp
  obtain ⟨rfl, rfl⟩ := eq_of_pure_eq_ok hp
  exact ⟨rest, ⟨first, mid, others, hfirst, hothers, rfl⟩, h₂⟩

theorem phrase_exprRest {others : List Expr}
    (h : Repeats (AfterMark .orOr (Phrase .conjunction)) ts others rest) (left : Expr) :
    Phrase (.exprRest left) ts (others.foldl (Expr.conditional .or) left) rest := by
  induction h generalizing left with
  | stop hstop =>
    obtain ⟨_, rfl⟩ := hstop
    exact Phrase.of_derivation .exprEnd _
  | @more _ _ _ right _ hfirst _ _ ih =>
    obtain ⟨_, rfl, us, rfl, ⟨dright⟩⟩ := hfirst
    obtain ⟨vs, rfl, ⟨drest⟩⟩ := ih (.conditional .or left right)
    exact ⟨_, by simp, ⟨.or dright drest⟩⟩

theorem phrase_conjunctionRest {others : List Expr}
    (h : Repeats (AfterMark .andAnd (Phrase .comparison)) ts others rest) (left : Expr) :
    Phrase (.conjunctionRest left) ts (others.foldl (Expr.conditional .and) left) rest := by
  induction h generalizing left with
  | stop hstop =>
    obtain ⟨_, rfl⟩ := hstop
    exact Phrase.of_derivation .conjunctionEnd _
  | @more _ _ _ right _ hfirst _ _ ih =>
    obtain ⟨_, rfl, us, rfl, ⟨dright⟩⟩ := hfirst
    obtain ⟨vs, rfl, ⟨drest⟩⟩ := ih (.conditional .and left right)
    exact ⟨_, by simp, ⟨.and dright drest⟩⟩

theorem reads_exprOf {conjunction : Parser Expr} (h : Reads conjunction (Phrase .conjunction)) :
    Reads (conditionalChain .or .orOr conjunction) (Phrase .expr) := by
  intro c c' ts ending e hc hp
  obtain ⟨rest, ⟨first, mid, others, ⟨us, rfl, ⟨dfirst⟩⟩, hothers, rfl⟩, h₁⟩ :=
    reads_conditionalChain .or .orOr h (fun _ _ _ => Phrase.length_le) hc hp
  obtain ⟨vs, rfl, ⟨drest⟩⟩ := phrase_exprRest hothers first
  exact ⟨rest, ⟨_, by simp, ⟨.expr dfirst drest⟩⟩, h₁⟩

theorem reads_conjunctionOf {comparison : Parser Expr} (h : Reads comparison (Phrase .comparison)) :
    Reads (conditionalChain .and .andAnd comparison) (Phrase .conjunction) := by
  intro c c' ts ending e hc hp
  obtain ⟨rest, ⟨first, mid, others, ⟨us, rfl, ⟨dfirst⟩⟩, hothers, rfl⟩, h₁⟩ :=
    reads_conditionalChain .and .andAnd h (fun _ _ _ => Phrase.length_le) hc hp
  obtain ⟨vs, rfl, ⟨drest⟩⟩ := phrase_conjunctionRest hothers first
  exact ⟨rest, ⟨_, by simp, ⟨.conjunction dfirst drest⟩⟩, h₁⟩

theorem comparison?_sound {t : Token} {op : Operator} (h : comparison? t = some op) :
    t = .mark op.mark ∧ op.level = .comparison := by
  unfold comparison? at h
  split at h <;> cases h <;> exact ⟨rfl, rfl⟩

theorem additive?_sound {t : Token} {op : Operator} (h : additive? t = some op) :
    t = .mark op.mark ∧ op.level = .sum := by
  unfold additive? at h
  split at h <;> cases h <;> exact ⟨rfl, rfl⟩

theorem multiplicative?_sound {t : Token} {op : Operator} (h : multiplicative? t = some op) :
    t = .mark op.mark ∧ op.level = .term := by
  unfold multiplicative? at h
  split at h <;> cases h <;> exact ⟨rfl, rfl⟩

theorem reads_comparisonOf {sum : Parser Expr} (hsum : Reads sum (Phrase .sum)) :
    Reads (comparisonOf sum) (Phrase .comparison) := by
  intro c c' ts ending e h hp
  obtain ⟨left, _, c₁, ⟨us, rfl, ⟨dleft⟩⟩, h₁, hp⟩ := hsum.of_bind h hp
  obtain ⟨next, mid, c₂, ⟨rfl, rfl⟩, h₂, hp⟩ := reads_peek.of_bind h₁ hp
  cases hop : mid.head?.bind comparison? with
  | none =>
    simp only [hop] at hp
    obtain ⟨rfl, rfl⟩ := eq_of_pure_eq_ok hp
    exact ⟨mid, Phrase.of_derivation (.plainSum dleft) mid, h₂⟩
  | some op =>
    simp only [hop] at hp
    obtain ⟨t, _, c₃, rfl, h₃, hp⟩ := reads_advance.of_bind h₂ hp
    obtain ⟨right, rest, c₄, ⟨vs, rfl, ⟨dright⟩⟩, h₄, hp⟩ := hsum.of_bind h₃ hp
    obtain ⟨rfl, rfl⟩ := eq_of_pure_eq_ok hp
    obtain ⟨rfl, hlevel⟩ := comparison?_sound hop
    exact ⟨rest, ⟨_, by simp, ⟨.compare op hlevel dleft dright⟩⟩, h₄⟩

/-- A step of a chain: nothing, or an operator of the rule and its operand. -/
def OperandStep (level : Operator.Level) (R : List Token → Expr → List Token → Prop)
    (ts : List Token) : Option (Operator × Expr) → List Token → Prop
  | none, rest => rest = ts
  | some (op, e), rest => op.level = level ∧ ∃ mid, ts = .mark op.mark :: mid ∧ R mid e rest

theorem OperandStep.length_lt {level : Operator.Level} {R : List Token → Expr → List Token → Prop}
    (hle : ∀ ⦃ts e rest⦄, R ts e rest → rest.length ≤ ts.length) {next : Operator × Expr}
    (h : OperandStep level R ts (some next) rest) : rest.length < ts.length := by
  obtain ⟨_, mid, rfl, hread⟩ := h
  exact Nat.lt_succ_of_le (hle hread)

theorem reads_nextOperand {level : Operator.Level} {operator? : Token → Option Operator}
    (hoperator : ∀ ⦃t op⦄, operator? t = some op → t = .mark op.mark ∧ op.level = level)
    {operand : Parser Expr} {R : List Token → Expr → List Token → Prop}
    (hoperand : Reads operand R) : Reads (nextOperand operator? operand) (OperandStep level R) := by
  intro c c' ts ending o h hp
  obtain ⟨next, mid, c₁, ⟨rfl, rfl⟩, h₁, hp⟩ := reads_peek.of_bind h hp
  cases hop : mid.head?.bind operator? with
  | none =>
    simp only [hop] at hp
    obtain ⟨rfl, rfl⟩ := eq_of_pure_eq_ok hp
    exact ⟨mid, rfl, h₁⟩
  | some op =>
    simp only [hop] at hp
    obtain ⟨t, left, c₂, rfl, h₂, hp⟩ := reads_advance.of_bind h₁ hp
    obtain ⟨e, rest, c₃, he, h₃, hp⟩ := hoperand.of_bind h₂ hp
    obtain ⟨rfl, rfl⟩ := eq_of_pure_eq_ok hp
    obtain ⟨rfl, hlevel⟩ := hoperator hop
    exact ⟨rest, ⟨hlevel, left, rfl, he⟩, h₃⟩

theorem phrase_termRest {others : List (Operator × Expr)}
    (h : Repeats (OperandStep .term (Phrase .unary)) ts others rest) (left : Expr) :
    Phrase (.termRest left) ts (applyChain left others) rest := by
  induction h generalizing left with
  | stop hstop =>
    rw [OperandStep] at hstop
    subst hstop
    exact Phrase.of_derivation .termEnd _
  | @more _ _ _ next _ hfirst _ _ ih =>
    obtain ⟨op, right⟩ := next
    obtain ⟨hlevel, _, rfl, us, rfl, ⟨dright⟩⟩ := hfirst
    obtain ⟨vs, rfl, ⟨drest⟩⟩ := ih (.binary op left right)
    exact ⟨_, by simp, ⟨.factor op hlevel dright drest⟩⟩

theorem reads_termFromOf {unary : Parser Expr} (hunary : Reads unary (Phrase .unary))
    (first : Expr) : Reads (termFromOf unary first) (Phrase (.termRest first)) := by
  have hloop := reads_many (reads_nextOperand (fun _ _ => multiplicative?_sound) hunary)
    fun _ _ _ => OperandStep.length_lt fun _ _ _ => Phrase.length_le
  intro c c' ts ending e h hp
  obtain ⟨others, rest, c₁, hothers, h₁, hp⟩ := hloop.of_bind h hp
  obtain ⟨rfl, rfl⟩ := eq_of_pure_eq_ok hp
  exact ⟨rest, phrase_termRest hothers first, h₁⟩

theorem reads_termOf {unary : Parser Expr} (hunary : Reads unary (Phrase .unary)) :
    Reads (unary >>= termFromOf unary) (Phrase .term) := by
  intro c c' ts ending e h hp
  obtain ⟨first, _, c₁, ⟨us, rfl, ⟨dfirst⟩⟩, h₁, hp⟩ := hunary.of_bind h hp
  obtain ⟨rest, ⟨vs, rfl, ⟨drest⟩⟩, h₂⟩ := reads_termFromOf hunary first h₁ hp
  exact ⟨rest, ⟨_, by simp, ⟨.term dfirst drest⟩⟩, h₂⟩

/-- A step of a sum: a sign and a term, or a term that begins with a negative integer. -/
def SummandStep (ts : List Token) : Option (Operator × Expr) → List Token → Prop
  | none, rest => rest = ts
  | some (op, e), rest => OperandStep .sum (Phrase .term) ts (some (op, e)) rest ∨
    (op = .add ∧ ∃ n mid, n < 0 ∧ ts = .int n :: mid ∧
      Phrase (.termRest (.lit (.int n))) mid e rest)

theorem SummandStep.length_lt {next : Operator × Expr} (h : SummandStep ts (some next) rest) :
    rest.length < ts.length := by
  rcases h with hsign | ⟨_, n, mid, _, rfl, he⟩
  · exact hsign.length_lt fun _ _ _ => Phrase.length_le
  · exact Nat.lt_succ_of_le he.length_le

theorem reads_nextSummand {term : Parser Expr} {termFrom : Expr → Parser Expr}
    (hterm : Reads term (Phrase .term))
    (htermFrom : ∀ first, Reads (termFrom first) (Phrase (.termRest first))) :
    Reads (nextSummand term termFrom) SummandStep := by
  have hsign : Reads (nextOperand additive? term) SummandStep := by
    intro c c' ts ending o h hp
    obtain ⟨rest, hstep, h₁⟩ := reads_nextOperand (fun _ _ => additive?_sound) hterm h hp
    cases o with
    | none => exact ⟨rest, hstep, h₁⟩
    | some next => exact ⟨rest, Or.inl hstep, h₁⟩
  intro c c' ts ending o h hp
  obtain ⟨next, mid, c₁, ⟨rfl, rfl⟩, h₁, hp⟩ := reads_peek.of_bind h hp
  match mid with
  | .int n :: mid =>
    by_cases hn : n < 0
    · simp only [List.head?_cons, if_pos hn] at hp
      obtain ⟨t, left, c₂, hcons, h₂, hp⟩ := reads_advance.of_bind h₁ hp
      obtain ⟨e, rest, c₃, he, h₃, hp⟩ := (htermFrom _).of_bind h₂ hp
      obtain ⟨rfl, rfl⟩ := eq_of_pure_eq_ok hp
      obtain ⟨rfl, rfl⟩ := List.cons.inj hcons
      exact ⟨rest, Or.inr ⟨rfl, n, mid, hn, rfl, he⟩, h₃⟩
    · simp only [List.head?_cons, if_neg hn] at hp
      obtain ⟨rfl, rfl⟩ := eq_of_pure_eq_ok hp
      exact ⟨_, rfl, h₁⟩
  | [] | .mark _ :: _ | .bool _ :: _ | .string _ :: _ | .name _ :: _ => exact hsign h₁ hp

theorem phrase_sumRest {others : List (Operator × Expr)} (h : Repeats SummandStep ts others rest)
    (left : Expr) : Phrase (.sumRest left) ts (applyChain left others) rest := by
  induction h generalizing left with
  | stop hstop =>
    rw [SummandStep] at hstop
    subst hstop
    exact Phrase.of_derivation .sumEnd _
  | @more _ _ _ next _ hfirst _ _ ih =>
    obtain ⟨op, right⟩ := next
    obtain ⟨vs, rfl, ⟨drest⟩⟩ := ih (.binary op left right)
    rcases hfirst with ⟨hlevel, _, rfl, us, rfl, ⟨dright⟩⟩ | ⟨rfl, n, _, hn, rfl, us, rfl, ⟨dright⟩⟩
    · exact ⟨_, by simp, ⟨.sign op hlevel dright drest⟩⟩
    · exact ⟨_, by simp, ⟨.negative n hn dright drest⟩⟩

theorem reads_sumOf {term : Parser Expr} {termFrom : Expr → Parser Expr}
    (hterm : Reads term (Phrase .term))
    (htermFrom : ∀ first, Reads (termFrom first) (Phrase (.termRest first))) :
    Reads (sumOf term termFrom) (Phrase .sum) := by
  have hloop := reads_many (reads_nextSummand hterm htermFrom) fun _ _ _ => SummandStep.length_lt
  intro c c' ts ending e h hp
  obtain ⟨first, _, c₁, ⟨us, rfl, ⟨dfirst⟩⟩, h₁, hp⟩ := hterm.of_bind h hp
  obtain ⟨others, rest, c₂, hothers, h₂, hp⟩ := hloop.of_bind h₁ hp
  obtain ⟨rfl, rfl⟩ := eq_of_pure_eq_ok hp
  obtain ⟨vs, rfl, ⟨drest⟩⟩ := phrase_sumRest hothers first
  exact ⟨rest, ⟨_, by simp, ⟨.sum dfirst drest⟩⟩, h₂⟩

/-! ## Operands -/

theorem reads_unaryOf {unary primary : Parser Expr} (hunary : Reads unary (Phrase .unary))
    (hprimary : Reads primary (Phrase .primary)) :
    Reads (unaryOf unary primary) (Phrase .unary) := by
  intro c c' ts ending e h hp
  obtain ⟨o, mid, c₁, ho, h₁, hp⟩ := (reads_afterMark .bang hunary).of_bind h hp
  cases o with
  | none =>
    obtain ⟨_, rfl⟩ := ho
    obtain ⟨rest, ⟨us, rfl, ⟨d⟩⟩, h₂⟩ := hprimary h₁ hp
    exact ⟨rest, Phrase.of_derivation (.plainPrimary d) rest, h₂⟩
  | some operand =>
    obtain ⟨_, rfl, us, rfl, ⟨d⟩⟩ := ho
    obtain ⟨rfl, rfl⟩ := eq_of_pure_eq_ok hp
    exact ⟨mid, Phrase.of_derivation (.not d) mid, h₁⟩

theorem phrase_moreArguments {es : List Expr}
    (h : Repeats (AfterMark .comma (Phrase .expr)) ts es (.mark .closeParen :: rest)) :
    Phrase .moreArguments ts es rest := by
  generalize hend : Token.mark .closeParen :: rest = last at h
  induction h with
  | stop hstop =>
    obtain ⟨_, rfl⟩ := hstop
    subst hend
    exact Phrase.of_derivation .lastArgument rest
  | more hfirst _ _ ih =>
    obtain ⟨_, rfl, us, rfl, ⟨dexpr⟩⟩ := hfirst
    obtain ⟨vs, rfl, ⟨drest⟩⟩ := ih hend
    exact ⟨_, by simp, ⟨.nextArgument dexpr drest⟩⟩

theorem reads_argumentsOf {expr : Parser Expr} (hexpr : Reads expr (Phrase .expr)) :
    Reads (commaSeparated expr) (Phrase .arguments) := by
  intro c c' ts ending es h hp
  obtain ⟨rest, hlist, h₁⟩ := reads_commaSeparated hexpr (fun _ _ _ => Phrase.length_le) h hp
  refine ⟨rest, ?_, h₁⟩
  cases es with
  | nil =>
    rw [Listed] at hlist
    subst hlist
    exact Phrase.of_derivation .noArguments rest
  | cons e es =>
    obtain ⟨mid, ⟨us, rfl, ⟨dexpr⟩⟩, hothers⟩ := hlist
    obtain ⟨vs, rfl, ⟨drest⟩⟩ := phrase_moreArguments hothers
    exact ⟨_, by rw [List.append_assoc], ⟨.someArguments dexpr drest⟩⟩

/-- A step of the loop over the items of a tuple.  The last comma may have no item behind it. -/
def ItemStep (ts : List Token) : Option Expr → List Token → Prop
  | none, rest => rest = ts ∨
    (ts = .mark .comma :: rest ∧ rest.head? = some (.mark .closeParen))
  | some e, rest => ∃ mid, ts = .mark .comma :: mid ∧ Phrase .expr mid e rest

theorem ItemStep.length_lt {e : Expr} (h : ItemStep ts (some e) rest) :
    rest.length < ts.length := by
  obtain ⟨mid, rfl, he⟩ := h
  exact Nat.lt_succ_of_le he.length_le

theorem reads_nextItem {expr : Parser Expr} (hexpr : Reads expr (Phrase .expr)) :
    Reads (nextItem expr) ItemStep := by
  intro c c' ts ending o h hp
  obtain ⟨b, mid, c₁, ⟨hb, rfl⟩, h₁, hp⟩ := (reads_isAtMark .comma).of_bind h hp
  cases b with
  | false =>
    obtain ⟨rfl, rfl⟩ := eq_of_pure_eq_ok hp
    exact ⟨mid, Or.inl rfl, h₁⟩
  | true =>
    obtain ⟨t, left, c₂, rfl, h₂, hp⟩ := reads_advance.of_bind h₁ hp
    obtain rfl : t = .mark .comma := by simpa using hb.mp rfl
    obtain ⟨last, _, c₃, ⟨hlast, rfl⟩, h₃, hp⟩ := (reads_isAtMark .closeParen).of_bind h₂ hp
    cases last with
    | true =>
      obtain ⟨rfl, rfl⟩ := eq_of_pure_eq_ok hp
      exact ⟨_, Or.inr ⟨rfl, hlast.mp rfl⟩, h₃⟩
    | false =>
      obtain ⟨e, hitem, rfl⟩ := exists_of_map_eq_ok hp
      obtain ⟨rest, he, h₄⟩ := hexpr h₃ hitem
      exact ⟨rest, ⟨_, rfl, he⟩, h₄⟩

theorem phrase_moreItems {es : List Expr} (h : Repeats ItemStep ts es rest) :
    Phrase .moreItems ts es rest := by
  induction h with
  | stop hstop =>
    rcases hstop with rfl | ⟨rfl, _⟩
    · exact Phrase.of_derivation .lastItem _
    · exact Phrase.of_derivation (.furtherItems .trailingComma) _
  | more hfirst _ _ ih =>
    obtain ⟨_, rfl, us, rfl, ⟨dexpr⟩⟩ := hfirst
    obtain ⟨vs, rfl, ⟨dmore⟩⟩ := ih
    exact ⟨_, by simp, ⟨.furtherItems (.nextItem dexpr dmore)⟩⟩

theorem reads_parenthesisedOf {expr : Parser Expr} (hexpr : Reads expr (Phrase .expr)) :
    Reads (parenthesisedOf expr) (Phrase .primary) := by
  have hclose := reads_afterMark .closeParen reads_unit
  have hloop := reads_many (reads_nextItem hexpr) fun _ _ _ => ItemStep.length_lt
  intro c c' ts ending e h hp
  obtain ⟨_, _, c₁, rfl, h₁, hp⟩ := (reads_expectMark .openParen).of_bind h hp
  obtain ⟨o, mid, c₂, ho, h₂, hp⟩ := hclose.of_bind h₁ hp
  cases o with
  | some _ =>
    obtain ⟨_, rfl, rfl⟩ := ho
    obtain ⟨rfl, rfl⟩ := eq_of_pure_eq_ok hp
    exact ⟨mid, Phrase.of_derivation .unit mid, h₂⟩
  | none =>
    obtain ⟨_, rfl⟩ := ho
    obtain ⟨first, left, c₃, ⟨us, rfl, ⟨dfirst⟩⟩, h₃, hp⟩ := hexpr.of_bind h₂ hp
    obtain ⟨o, mid, c₄, ho, h₄, hp⟩ := hclose.of_bind h₃ hp
    cases o with
    | some _ =>
      obtain ⟨_, rfl, rfl⟩ := ho
      obtain ⟨rfl, rfl⟩ := eq_of_pure_eq_ok hp
      exact ⟨mid, ⟨_, by simp, ⟨.group dfirst⟩⟩, h₄⟩
    | none =>
      obtain ⟨hopen, rfl⟩ := ho
      obtain ⟨others, _, c₅, hothers, h₅, hp⟩ := hloop.of_bind h₄ hp
      obtain ⟨_, rest, c₆, rfl, h₆, hp⟩ := (reads_expectMark .closeParen).of_bind h₅ hp
      obtain ⟨rfl, rfl⟩ := eq_of_pure_eq_ok hp
      obtain ⟨vs, rfl, ⟨dmore⟩⟩ := phrase_moreItems hothers
      cases dmore with
      | lastItem => exact absurd rfl hopen
      | furtherItems ditems => exact ⟨rest, ⟨_, by simp, ⟨.tuple dfirst ditems⟩⟩, h₆⟩

theorem reads_elseOf {body : Parser (List Expr)} {ifElse : Parser Expr}
    (hbody : Reads body (Phrase .body)) (hif : Reads ifElse (Phrase .ifElse)) :
    Reads (elseOf body ifElse) fun ts es rest =>
      Phrase .body ts es rest ∨ ∃ e, es = [e] ∧ Phrase .ifElse ts e rest := by
  intro c c' ts ending es h hp
  obtain ⟨b, mid, c₁, ⟨_, rfl⟩, h₁, hp⟩ := (reads_isAtMark .ifWord).of_bind h hp
  cases b with
  | true =>
    obtain ⟨e, rest, c₂, he, h₂, hp⟩ := hif.of_bind h₁ hp
    obtain ⟨rfl, rfl⟩ := eq_of_pure_eq_ok hp
    exact ⟨rest, Or.inr ⟨e, rfl, he⟩, h₂⟩
  | false =>
    obtain ⟨rest, hes, h₂⟩ := hbody h₁ hp
    exact ⟨rest, Or.inl hes, h₂⟩

theorem reads_ifElseOf {expr : Parser Expr} {body : Parser (List Expr)} {ifElse : Parser Expr}
    (hexpr : Reads expr (Phrase .expr)) (hbody : Reads body (Phrase .body))
    (hif : Reads ifElse (Phrase .ifElse)) :
    Reads (ifElseOf expr body ifElse) (Phrase .ifElse) := by
  intro c c' ts ending e h hp
  obtain ⟨_, _, c₁, rfl, h₁, hp⟩ := (reads_expectMark .ifWord).of_bind h hp
  obtain ⟨condition, _, c₂, ⟨us, rfl, ⟨dcondition⟩⟩, h₂, hp⟩ := hexpr.of_bind h₁ hp
  obtain ⟨thenBody, _, c₃, ⟨vs, rfl, ⟨dthen⟩⟩, h₃, hp⟩ := hbody.of_bind h₂ hp
  obtain ⟨o, rest, c₄, ho, h₄, hp⟩ :=
    (reads_afterMark .elseWord (reads_elseOf hbody hif)).of_bind h₃ hp
  obtain ⟨rfl, rfl⟩ := eq_of_pure_eq_ok hp
  refine ⟨rest, ?_, h₄⟩
  cases o with
  | none =>
    obtain ⟨_, rfl⟩ := ho
    exact ⟨_, by simp, ⟨.ifOnly dcondition dthen⟩⟩
  | some elseBody =>
    obtain ⟨_, rfl, ⟨ws, rfl, ⟨delse⟩⟩ | ⟨e, rfl, ws, rfl, ⟨delse⟩⟩⟩ := ho
    · exact ⟨_, by simp, ⟨.ifElse dcondition dthen delse⟩⟩
    · exact ⟨_, by simp, ⟨.elseIf dcondition dthen delse⟩⟩

theorem reads_primaryOf {arguments body : Parser (List Expr)} {parenthesised ifElse : Parser Expr}
    (harguments : Reads arguments (Phrase .arguments))
    (hparenthesised : Reads parenthesised (Phrase .primary)) (hbody : Reads body (Phrase .body))
    (hif : Reads ifElse (Phrase .ifElse)) :
    Reads (primaryOf arguments parenthesised body ifElse) (Phrase .primary) := by
  intro c c' ts ending e h hp
  obtain ⟨next, mid, c₁, ⟨rfl, rfl⟩, h₁, hp⟩ := reads_peek.of_bind h hp
  match mid with
  | [] => exact absurd hp fail_ne_ok
  | .int n :: mid =>
    obtain ⟨t, rest, c₂, hcons, h₂, hp⟩ := reads_advance.of_bind h₁ hp
    obtain ⟨rfl, rfl⟩ := eq_of_pure_eq_ok hp
    obtain ⟨_, rfl⟩ := List.cons.inj hcons
    exact ⟨mid, Phrase.of_derivation (.int n) mid, h₂⟩
  | .string text :: mid =>
    obtain ⟨t, rest, c₂, hcons, h₂, hp⟩ := reads_advance.of_bind h₁ hp
    obtain ⟨rfl, rfl⟩ := eq_of_pure_eq_ok hp
    obtain ⟨_, rfl⟩ := List.cons.inj hcons
    exact ⟨mid, Phrase.of_derivation (.string text) mid, h₂⟩
  | .bool b :: mid =>
    obtain ⟨t, rest, c₂, hcons, h₂, hp⟩ := reads_advance.of_bind h₁ hp
    obtain ⟨rfl, rfl⟩ := eq_of_pure_eq_ok hp
    obtain ⟨_, rfl⟩ := List.cons.inj hcons
    exact ⟨mid, Phrase.of_derivation (.bool b) mid, h₂⟩
  | .name name :: mid =>
    obtain ⟨t, left, c₂, hcons, h₂, hnamed⟩ := reads_advance.of_bind h₁ hp
    obtain ⟨_, rfl⟩ := List.cons.inj hcons
    obtain ⟨o, rest, c₃, ho, h₃, hlast⟩ := (reads_afterMark .openParen harguments).of_bind h₂ hnamed
    cases o with
    | none =>
      obtain ⟨_, rfl⟩ := ho
      obtain ⟨rfl, rfl⟩ := eq_of_pure_eq_ok hlast
      exact ⟨_, Phrase.of_derivation (.name name) _, h₃⟩
    | some args =>
      obtain ⟨_, rfl, us, rfl, ⟨d⟩⟩ := ho
      obtain ⟨rfl, rfl⟩ := eq_of_pure_eq_ok hlast
      exact ⟨rest, Phrase.of_derivation (.call name d) rest, h₃⟩
  | .mark m :: mid =>
    cases m with
    | openParen => exact hparenthesised h₁ hp
    | openBrace =>
      obtain ⟨es, rest, c₂, ⟨us, hus, ⟨d⟩⟩, h₂, hp⟩ := hbody.of_bind h₁ hp
      obtain ⟨rfl, rfl⟩ := eq_of_pure_eq_ok hp
      exact ⟨rest, ⟨us, hus, ⟨.block d⟩⟩, h₂⟩
    | ifWord =>
      obtain ⟨rest, ⟨us, hus, ⟨d⟩⟩, h₂⟩ := hif h₁ hp
      exact ⟨rest, ⟨us, hus, ⟨.condition d⟩⟩, h₂⟩
    | _ => exact absurd hp fail_ne_ok

/-! ## The recursion -/

theorem reads_tooDeep (R : List Token → α → List Token → Prop) : Reads (tooDeep : Parser α) R := by
  intro c c' ts ending a _ hp
  cases hp

/-- A statement is refused, or there is room for all rules down to a primary expression. -/
@[elab_as_elim]
theorem statement_cases {motive : Parser Expr → Prop} {n : Nat} (refused : motive tooDeep)
    (room : descent ≤ n → motive (statementOf (expr n))) : motive (statement (n + 1)) := by
  rw [statement]
  split
  · exact refused
  · exact room (by omega)

/-- What the parsers with a budget read. -/
structure ReadsPhrases (budget : Nat) : Prop where
  body : Reads (body budget) (Phrase .body)
  statement : Reads (statement budget) (Phrase .statement)
  expr : Reads (expr budget) (Phrase .expr)
  conjunction : Reads (conjunction budget) (Phrase .conjunction)
  comparison : Reads (comparison budget) (Phrase .comparison)
  sum : Reads (sum budget) (Phrase .sum)
  term : Reads (term budget) (Phrase .term)
  termFrom (first : Expr) : Reads (termFrom budget first) (Phrase (.termRest first))
  unary : Reads (unary budget) (Phrase .unary)
  primary : Reads (primary budget) (Phrase .primary)
  arguments : Reads (arguments budget) (Phrase .arguments)
  parenthesised : Reads (parenthesised budget) (Phrase .primary)
  ifElse : Reads (ifElse budget) (Phrase .ifElse)

theorem readsPhrases (budget : Nat) : ReadsPhrases budget := by
  induction budget with
  | zero => constructor <;> intros <;> exact reads_tooDeep _
  | succ n ih =>
    exact {
      body := reads_bodyOf ih.statement
      statement := statement_cases (reads_tooDeep _) fun _ => reads_statementOf ih.expr
      expr := reads_exprOf ih.conjunction
      conjunction := reads_conjunctionOf ih.comparison
      comparison := reads_comparisonOf ih.sum
      sum := reads_sumOf ih.term ih.termFrom
      term := reads_termOf ih.unary
      termFrom := reads_termFromOf ih.unary
      unary := reads_unaryOf ih.unary ih.primary
      primary := reads_primaryOf ih.arguments ih.parenthesised ih.body ih.ifElse
      arguments := reads_argumentsOf ih.expr
      parenthesised := reads_parenthesisedOf ih.expr
      ifElse := reads_ifElseOf ih.expr ih.body ih.ifElse }

theorem reads_function (budget : Nat) : Reads (function budget) (Phrase .function) := by
  match budget with
  | 0 => exact reads_tooDeep _
  | n + 1 => exact reads_functionOf (readsPhrases n).body

/-- A program that is read derives from all of the tokens, and no error comes behind them. -/
theorem reads_program (budget : Nat) : Reads (program budget) fun ts p rest =>
    rest = [] ∧ Derives .program ts p := by
  match budget with
  | 0 => exact reads_tooDeep _
  | n + 1 => exact reads_programOf (reads_function n)

end Parser
end Scriptlet
