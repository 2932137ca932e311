import Scriptlet.Proofs.Soundness

/-!
# Every phrase is read

The other half: where the tokens ahead begin with a phrase, and what follows the phrase does not go
on with it, the parser of the rule takes exactly the phrase off and answers its tree.

What has to follow depends on the rule.  Behind an expression no operator may come, behind a term no
`*`, behind a primary expression not even an opening parenthesis; a body, which ends with a brace,
can be followed by anything.  `Completes` says for each kind of phrase what its parser does.  For
the repetitions, which have no parser of their own, it says what the loop does that reads them.

A budget is enough when it is ten times the number of tokens and a little more: between two tokens
at most nine rules are entered inside one another, from `statement` down to `body`.  With less, a
parser may fail for the nesting and in no other way, and this is what the parameter `deep` of
`Gives` is for.
-/

namespace Scriptlet
namespace Parser

open Grammar

variable {α : Type} {deep : Prop} {ts us mid rest : List Token}

/-! ## Lists in parentheses -/

section Lists

variable {item : Parser α} {a : α} {as : List α}

theorem gives_commaSeparated_nil (item : Parser α) (rest : List Token) :
    Gives deep (commaSeparated item) (.mark .closeParen :: rest) [] rest :=
  (gives_isAtMark_true _ _).bind ((gives_expectMark _ _).bind (gives_pure _ _))

theorem gives_commaSeparated_cons (hfirst : Gives deep item ts a mid)
    (hhead : ts.head? ≠ some (.mark .closeParen))
    (hothers : Repeats (Gives deep (afterMark .comma item)) mid as (.mark .closeParen :: rest)) :
    Gives deep (commaSeparated item) ts (a :: as) rest :=
  (gives_isAtMark_false hhead).bind <| hfirst.bind <| (gives_many hothers).bind <|
    (gives_expectMark _ _).bind (gives_pure _ _)

/-- The loop over a list ends at the closing parenthesis. -/
theorem repeats_comma_stop (item : Parser α) (rest : List Token) :
    Repeats (Gives deep (afterMark .comma item)) (.mark .closeParen :: rest) []
      (.mark .closeParen :: rest) :=
  .stop (gives_afterMark_none _ (by simp))

theorem length_lt_cons_append (t : Token) (us mid : List Token) :
    mid.length < (t :: (us ++ mid)).length := by
  rw [List.length_cons, List.length_append]
  omega

/-- What a loop finds behind a mark takes at least the mark. -/
theorem Repeats.afterMark {m : Mark} (us : List Token)
    (hfirst : Gives deep item (us ++ mid) a mid)
    (hothers : Repeats (Gives deep (Parser.afterMark m item)) mid as rest) :
    Repeats (Gives deep (Parser.afterMark m item)) (.mark m :: (us ++ mid)) (a :: as) rest :=
  .more (gives_afterMark_some m hfirst) (length_lt_cons_append _ us mid) hothers

end Lists

/-! ## Functions -/

theorem gives_param_plain (name : String) (h : ∀ text, rest.head? ≠ some (.name text)) :
    Gives deep param (.name name :: rest) ⟨name, none⟩ rest := by
  have hnone : Gives deep optionalName rest none rest := by
    refine (gives_peek _).bind ?_
    match rest, h with
    | .name text :: _, h => exact absurd rfl (h text)
    | [], _ | .mark _ :: _, _ | .bool _ :: _, _ | .string _ :: _, _ | .int _ :: _, _ =>
      exact gives_pure _ _
  exact (gives_expectName _ _).bind (hnone.bind (gives_pure _ _))

theorem gives_param_annotated (name annotation : String) (rest : List Token) :
    Gives deep param (.name name :: .name annotation :: rest) ⟨name, some annotation⟩ rest := by
  have hsome : Gives deep optionalName (.name annotation :: rest) (some annotation) rest :=
    (gives_peek _).bind ((gives_advance _ _).bind (gives_pure _ _))
  exact (gives_expectName _ _).bind (hsome.bind (gives_pure _ _))

theorem gives_functionOf {body : Parser (List Expr)} {ps : List Param} {es : List Expr}
    (name : String) (hparams : Gives deep (commaSeparated param) ts ps mid)
    (hbody : Gives deep body mid es rest) :
    Gives deep (functionOf body) (.mark .func :: .name name :: .mark .openParen :: ts)
      ⟨name, ps, es⟩ rest :=
  (gives_expectMark _ _).bind <| (gives_expectName _ _).bind <| (gives_expectMark _ _).bind <|
    hparams.bind <| hbody.bind <| gives_pure _ _

theorem gives_nextFunction {function : Parser Function} {f : Function} (count : Nat)
    (hf : Gives deep function ts f (semicolons count ++ rest)) (hfilled : ts ≠ [])
    (hrest : rest.head? ≠ some (.mark .semicolon)) :
    Gives deep (nextFunction function) ts (some f) rest := by
  obtain ⟨t, us, rfl⟩ := List.exists_cons_of_ne_nil hfilled
  exact (gives_peek _).bind (hf.bind ((gives_skipSemicolons _ hrest).bind (gives_pure _ _)))

theorem gives_programOf {function : Parser Function} {p : Program} (count : Nat)
    (hhead : ts.head? ≠ some (.mark .semicolon))
    (hfunctions : Repeats (Gives deep (nextFunction function)) ts p rest) :
    Gives deep (programOf function) (semicolons count ++ ts) p rest :=
  (gives_skipSemicolons _ hhead).bind (gives_many hfunctions)

/-! ## Bodies and statements -/

section Bodies

variable {statement expr : Parser Expr} {e : Expr} {es : List Expr}

theorem gives_nextStatement_none (statement : Parser Expr) (rest : List Token) :
    Gives deep (nextStatement statement) (.mark .closeBrace :: rest) none
      (.mark .closeBrace :: rest) :=
  (gives_isAtMark_true _ _).bind (gives_pure _ _)

theorem gives_nextStatement_some (count : Nat)
    (he : Gives deep statement ts e (semicolons count ++ rest))
    (hhead : ts.head? ≠ some (.mark .closeBrace))
    (hrest : rest.head? ≠ some (.mark .semicolon))
    (hend : count = 0 → rest.head? = some (.mark .closeBrace)) :
    Gives deep (nextStatement statement) ts (some e) rest := by
  refine (gives_isAtMark_false hhead).bind (he.bind ?_)
  cases count with
  | zero =>
    obtain ⟨left, rfl⟩ := List.head?_eq_some_iff.mp (hend rfl)
    exact (gives_isAtMark_true _ _).bind (gives_pure _ _)
  | succ count =>
    refine Gives.bind (gives_isAtMark_false ?_) ?_
    · exact fun hbrace => by cases hbrace
    · exact (gives_expectMark _ _).bind ((gives_skipSemicolons _ hrest).bind (gives_pure _ _))

theorem gives_bodyOf (count : Nat) (hhead : ts.head? ≠ some (.mark .semicolon))
    (hstatements : Repeats (Gives deep (nextStatement statement)) ts es
      (.mark .closeBrace :: rest)) :
    Gives deep (bodyOf statement) (.mark .openBrace :: (semicolons count ++ ts)) es rest :=
  (gives_expectMark _ _).bind <| (gives_skipSemicolons _ hhead).bind <|
    (gives_many hstatements).bind <| (gives_expectMark _ _).bind (gives_pure _ _)

theorem gives_statementOf_declare (name : String) (he : Gives deep expr ts e rest) :
    Gives deep (statementOf expr) (.name name :: .mark .define :: ts) (.declare name e) rest :=
  (gives_peek _).bind <| (gives_peekAhead 1 _).bind <| (gives_advance _ _).bind <|
    (gives_advance _ _).bind <| he.bind (gives_pure _ _)

theorem gives_statementOf_assign (name : String) (he : Gives deep expr ts e rest) :
    Gives deep (statementOf expr) (.name name :: .mark .assign :: ts) (.assign name e) rest :=
  (gives_peek _).bind <| (gives_peekAhead 1 _).bind <| (gives_advance _ _).bind <|
    (gives_advance _ _).bind <| he.bind (gives_pure _ _)

/-- Where no mark of a declaration or an assignment follows a name, there is an expression. -/
theorem gives_statementOf_expr (he : Gives deep expr ts e rest)
    (hplain : ∀ name t us, ts = .name name :: t :: us → t.rank ≠ 6) :
    Gives deep (statementOf expr) ts e rest := by
  refine (gives_peek _).bind ?_
  match ts, hplain with
  | .name name :: .mark m :: us, hplain =>
    refine (gives_peekAhead 1 _).bind ?_
    cases m with
    | define | assign => exact absurd rfl (hplain name _ us rfl)
    | _ => exact he
  | [.name _], _ | .name _ :: .bool _ :: _, _ | .name _ :: .string _ :: _, _
  | .name _ :: .int _ :: _, _ | .name _ :: .name _ :: _, _ => exact (gives_peekAhead 1 _).bind he
  | [], _ | .mark _ :: _, _ | .bool _ :: _, _ | .string _ :: _, _ | .int _ :: _, _ => exact he

end Bodies

/-! ## Chains of operators -/

theorem gives_conditionalChain (op : Conditional) (m : Mark) {operand : Parser Expr} {first : Expr}
    {others : List Expr} (hfirst : Gives deep operand ts first mid)
    (hothers : Repeats (Gives deep (afterMark m operand)) mid others rest) :
    Gives deep (conditionalChain op m operand) ts (others.foldl (Expr.conditional op) first) rest :=
  hfirst.bind ((gives_many hothers).bind (gives_pure _ _))

theorem comparison?_mark {op : Operator} (h : op.level = .comparison) :
    comparison? (.mark op.mark) = some op := by
  cases op <;> first | rfl | cases h

theorem additive?_mark {op : Operator} (h : op.level = .sum) :
    additive? (.mark op.mark) = some op := by
  cases op <;> first | rfl | cases h

theorem multiplicative?_mark {op : Operator} (h : op.level = .term) :
    multiplicative? (.mark op.mark) = some op := by
  cases op <;> first | rfl | cases h

/-- A token of another rank is no operator of the rule. -/
theorem bind_operator?_eq_none {level : Operator.Level} {operator? : Token → Option Operator}
    (hoperator : ∀ ⦃t op⦄, operator? t = some op → t = .mark op.mark ∧ op.level = level)
    (h : Closes (level.rank + 1) ts) : ts.head?.bind operator? = none := by
  cases hhead : ts.head?.bind operator? with
  | none => rfl
  | some op =>
    obtain ⟨t, ht, hop⟩ := Option.bind_eq_some_iff.mp hhead
    obtain ⟨rfl, hlevel⟩ := hoperator hop
    have hle := h _ ht
    rw [op.rank_mark, hlevel] at hle
    omega

theorem gives_comparisonOf_sum {sum : Parser Expr} {e : Expr} (he : Gives deep sum ts e rest)
    (hrest : Closes 4 rest) : Gives deep (comparisonOf sum) ts e rest := by
  refine he.bind ((gives_peek _).bind ?_)
  rw [bind_operator?_eq_none (fun _ _ => comparison?_sound) hrest]
  exact gives_pure _ _

theorem gives_comparisonOf_compare {sum : Parser Expr} {left right : Expr} {op : Operator}
    (hop : op.level = .comparison) (hleft : Gives deep sum ts left (.mark op.mark :: us))
    (hright : Gives deep sum us right rest) :
    Gives deep (comparisonOf sum) ts (.binary op left right) rest := by
  refine hleft.bind ((gives_peek _).bind ?_)
  rw [List.head?_cons, Option.bind_some, comparison?_mark hop]
  exact (gives_advance _ _).bind (hright.bind (gives_pure _ _))

theorem gives_nextOperand_none {operator? : Token → Option Operator} (operand : Parser Expr)
    (h : ts.head?.bind operator? = none) :
    Gives deep (nextOperand operator? operand) ts none ts := by
  refine (gives_peek _).bind ?_
  rw [h]
  exact gives_pure _ _

theorem gives_nextOperand_some {operator? : Token → Option Operator} {operand : Parser Expr}
    {op : Operator} {e : Expr} (hop : operator? (.mark op.mark) = some op)
    (he : Gives deep operand ts e rest) :
    Gives deep (nextOperand operator? operand) (.mark op.mark :: ts) (some (op, e)) rest := by
  refine (gives_peek _).bind ?_
  rw [List.head?_cons, Option.bind_some, hop]
  exact (gives_advance _ _).bind (he.bind (gives_pure _ _))

theorem gives_termFromOf {unary : Parser Expr} {others : List (Operator × Expr)} (first : Expr)
    (hothers : Repeats (Gives deep (nextOperand multiplicative? unary)) ts others rest) :
    Gives deep (termFromOf unary first) ts (applyChain first others) rest :=
  (gives_many hothers).bind (gives_pure _ _)

section Sums

variable {term : Parser Expr} {termFrom : Expr → Parser Expr}

theorem gives_nextSummand_none (h : Closes 3 ts) :
    Gives deep (nextSummand term termFrom) ts none ts := by
  have hnone : Gives deep (nextOperand additive? term) ts none ts :=
    gives_nextOperand_none _ (bind_operator?_eq_none (fun _ _ => additive?_sound) h)
  refine (gives_peek _).bind ?_
  match ts, h, hnone with
  | .int n :: us, h, _ =>
    have hn : ¬n < 0 := by
      intro hn
      have hle := h (.int n) rfl
      rw [Token.rank, if_pos hn] at hle
      omega
    simp only [List.head?_cons, if_neg hn]
    exact gives_pure _ _
  | [], _, hnone | .mark _ :: _, _, hnone | .bool _ :: _, _, hnone | .string _ :: _, _, hnone
  | .name _ :: _, _, hnone => exact hnone

theorem gives_nextSummand_sign {op : Operator} {e : Expr} (hop : op.level = .sum)
    (he : Gives deep term ts e rest) :
    Gives deep (nextSummand term termFrom) (.mark op.mark :: ts) (some (op, e)) rest :=
  (gives_peek _).bind (gives_nextOperand_some (additive?_mark hop) he)

theorem gives_nextSummand_negative {n : Int} {e : Expr} (hn : n < 0)
    (he : Gives deep (termFrom (.lit (.int n))) ts e rest) :
    Gives deep (nextSummand term termFrom) (.int n :: ts) (some (.add, e)) rest := by
  refine (gives_peek _).bind ?_
  simp only [List.head?_cons, if_pos hn]
  exact (gives_advance _ _).bind (he.bind (gives_pure _ _))

theorem gives_sumOf {first : Expr} {others : List (Operator × Expr)}
    (hfirst : Gives deep term ts first mid)
    (hothers : Repeats (Gives deep (nextSummand term termFrom)) mid others rest) :
    Gives deep (sumOf term termFrom) ts (applyChain first others) rest :=
  hfirst.bind ((gives_many hothers).bind (gives_pure _ _))

end Sums

/-! ## Operands -/

theorem gives_unaryOf_not {unary primary : Parser Expr} {e : Expr}
    (he : Gives deep unary ts e rest) :
    Gives deep (unaryOf unary primary) (.mark .bang :: ts) (.not e) rest :=
  (gives_afterMark_some _ he).bind (gives_pure _ _)

theorem gives_unaryOf_primary {unary primary : Parser Expr} {e : Expr}
    (hhead : ts.head? ≠ some (.mark .bang)) (he : Gives deep primary ts e rest) :
    Gives deep (unaryOf unary primary) ts e rest :=
  (gives_afterMark_none _ hhead).bind he

section Primaries

variable {arguments body : Parser (List Expr)} {parenthesised ifElse : Parser Expr} {e : Expr}
  {es : List Expr}

theorem gives_primaryOf_name (name : String) (h : rest.head? ≠ some (.mark .openParen)) :
    Gives deep (primaryOf arguments parenthesised body ifElse) (.name name :: rest) (.name name)
      rest :=
  (gives_peek _).bind <| (gives_advance _ _).bind <| (gives_afterMark_none _ h).bind <|
    gives_pure _ _

theorem gives_primaryOf_call (name : String) (hargs : Gives deep arguments ts es rest) :
    Gives deep (primaryOf arguments parenthesised body ifElse)
      (.name name :: .mark .openParen :: ts) (.call name es) rest :=
  (gives_peek _).bind <| (gives_advance _ _).bind <| (gives_afterMark_some _ hargs).bind <|
    gives_pure _ _

theorem gives_primaryOf_parenthesised
    (he : Gives deep parenthesised (.mark .openParen :: ts) e rest) :
    Gives deep (primaryOf arguments parenthesised body ifElse) (.mark .openParen :: ts) e rest :=
  (gives_peek _).bind he

theorem gives_primaryOf_block (hes : Gives deep body (.mark .openBrace :: ts) es rest) :
    Gives deep (primaryOf arguments parenthesised body ifElse) (.mark .openBrace :: ts) (.block es)
      rest :=
  (gives_peek _).bind (hes.bind (gives_pure _ _))

theorem gives_primaryOf_ifElse (he : Gives deep ifElse (.mark .ifWord :: ts) e rest) :
    Gives deep (primaryOf arguments parenthesised body ifElse) (.mark .ifWord :: ts) e rest :=
  (gives_peek _).bind he

end Primaries

section Parentheses

variable {expr : Parser Expr} {e : Expr} {es : List Expr}

theorem gives_nextItem_none (expr : Parser Expr) (rest : List Token) :
    Gives deep (nextItem expr) (.mark .closeParen :: rest) none (.mark .closeParen :: rest) :=
  (gives_isAtMark_false (by simp)).bind (gives_pure _ _)

theorem gives_nextItem_trailing (expr : Parser Expr) (rest : List Token) :
    Gives deep (nextItem expr) (.mark .comma :: .mark .closeParen :: rest) none
      (.mark .closeParen :: rest) :=
  (gives_isAtMark_true _ _).bind <| (gives_advance _ _).bind <| (gives_isAtMark_true _ _).bind <|
    gives_pure _ _

theorem gives_nextItem_some (hhead : ts.head? ≠ some (.mark .closeParen))
    (he : Gives deep expr ts e rest) :
    Gives deep (nextItem expr) (.mark .comma :: ts) (some e) rest :=
  (gives_isAtMark_true _ _).bind <| (gives_advance _ _).bind <| (gives_isAtMark_false hhead).bind <|
    he.map some

theorem gives_parenthesisedOf_unit (expr : Parser Expr) (rest : List Token) :
    Gives deep (parenthesisedOf expr) (.mark .openParen :: .mark .closeParen :: rest) (.tuple [])
      rest :=
  (gives_expectMark _ _).bind <| (gives_afterMark_some _ (gives_pure _ _)).bind <| gives_pure _ _

theorem gives_parenthesisedOf_group (hhead : ts.head? ≠ some (.mark .closeParen))
    (he : Gives deep expr ts e (.mark .closeParen :: rest)) :
    Gives deep (parenthesisedOf expr) (.mark .openParen :: ts) e rest :=
  (gives_expectMark _ _).bind <| (gives_afterMark_none _ hhead).bind <| he.bind <|
    (gives_afterMark_some _ (gives_pure _ _)).bind <| gives_pure _ _

theorem gives_parenthesisedOf_tuple (hhead : ts.head? ≠ some (.mark .closeParen))
    (he : Gives deep expr ts e mid) (hmid : mid.head? ≠ some (.mark .closeParen))
    (hes : Repeats (Gives deep (nextItem expr)) mid es (.mark .closeParen :: rest)) :
    Gives deep (parenthesisedOf expr) (.mark .openParen :: ts) (.tuple (e :: es)) rest :=
  (gives_expectMark _ _).bind <| (gives_afterMark_none _ hhead).bind <| he.bind <|
    (gives_afterMark_none _ hmid).bind <| (gives_many hes).bind <|
      (gives_expectMark _ _).bind <| gives_pure _ _

end Parentheses

section Conditions

variable {expr ifElse : Parser Expr} {body : Parser (List Expr)} {condition e : Expr}
  {thenBody elseBody : List Expr}

theorem gives_ifElseOf_only (hcondition : Gives deep expr ts condition us)
    (hthen : Gives deep body us thenBody rest) (hrest : rest.head? ≠ some (.mark .elseWord)) :
    Gives deep (ifElseOf expr body ifElse) (.mark .ifWord :: ts) (.ifElse condition thenBody [])
      rest :=
  (gives_expectMark _ _).bind <| hcondition.bind <| hthen.bind <|
    (gives_afterMark_none _ hrest).bind <| gives_pure _ _

theorem gives_ifElseOf_else (hcondition : Gives deep expr ts condition us)
    (hthen : Gives deep body us thenBody (.mark .elseWord :: mid))
    (helse : Gives deep (elseOf body ifElse) mid elseBody rest) :
    Gives deep (ifElseOf expr body ifElse) (.mark .ifWord :: ts)
      (.ifElse condition thenBody elseBody) rest :=
  (gives_expectMark _ _).bind <| hcondition.bind <| hthen.bind <|
    (gives_afterMark_some _ helse).bind <| gives_pure _ _

theorem gives_elseOf_body (hhead : ts.head? ≠ some (.mark .ifWord))
    (helse : Gives deep body ts elseBody rest) :
    Gives deep (elseOf body ifElse) ts elseBody rest :=
  (gives_isAtMark_false hhead).bind helse

theorem gives_elseOf_ifElse (he : Gives deep ifElse (.mark .ifWord :: ts) e rest) :
    Gives deep (elseOf body ifElse) (.mark .ifWord :: ts) [e] rest :=
  (gives_isAtMark_true _ _).bind (he.bind (gives_pure _ _))

end Conditions

/-! ## Budgets -/

/-- The budget is as much as is needed, or failing for the nesting is allowed. -/
def Enough (deep : Prop) (needed budget : Nat) : Prop :=
  needed ≤ budget ∨ deep

theorem Enough.mono {needed needed' n : Nat} (h : Enough deep needed n) (hle : needed' ≤ needed) :
    Enough deep needed' n :=
  h.imp_left (Nat.le_trans hle)

/-- Entering a rule costs one. -/
theorem Enough.less {needed needed' n : Nat} (h : Enough deep needed (n + 1))
    (hlt : needed' < needed) : Enough deep needed' n :=
  h.imp_left fun hle => by omega

theorem gives_tooDeep (h : deep) (ts : List Token) (a : α) (rest : List Token) :
    Gives deep (tooDeep : Parser α) ts a rest :=
  fun c _ => Or.inr ⟨h, c.stop, c, rfl⟩

/-- A parser without a budget is too deep already; with one it follows its rule. -/
theorem gives_rule {p : Nat → Parser α} {needed n : Nat} {a : α} (hzero : p 0 = tooDeep)
    (hn : Enough deep needed n) (hneeded : 0 < needed)
    (hsucc : ∀ m, Enough deep needed (m + 1) → Gives deep (p (m + 1)) ts a rest) :
    Gives deep (p n) ts a rest := by
  cases n with
  | zero =>
    rw [hzero]
    exact gives_tooDeep (hn.resolve_left (by omega)) _ _ _
  | succ m => exact hsucc m hn

/-- A statement is only refused where there is no room for a primary expression. -/
theorem gives_statement {needed n : Nat} {e : Expr} (hn : Enough deep needed n)
    (hneeded : descent < needed)
    (hsucc : ∀ m, Enough deep needed (m + 1) → Gives deep (statementOf (expr m)) ts e rest) :
    Gives deep (statement n) ts e rest := by
  refine gives_rule rfl hn (by omega) fun m hn => ?_
  rw [statement]
  split
  · exact gives_tooDeep (hn.resolve_left (by omega)) _ _ _
  · exact hsucc m hn

/-! ## What is read of a phrase -/

/-- The parser of the category takes the phrase off, and leaves what follows it. -/
def Completes (deep : Prop) : (c : Category) → List Token → c.Tree → Prop
  | .program, ts, p => ∀ n, Enough deep (10 * ts.length + 1) n → Gives deep (program n) ts p []
  | .functions, ts, p => ∀ n, Enough deep (10 * ts.length) n →
    Repeats (Gives deep (nextFunction (function n))) ts p []
  | .function, ts, f => ∀ n, Enough deep (10 * ts.length) n → ∀ rest,
    Gives deep (function n) (ts ++ rest) f rest
  | .params, ts, ps => ∀ rest, Gives deep (commaSeparated param) (ts ++ rest) ps rest
  | .moreParams, ts, ps => ∀ rest,
    Repeats (Gives deep (afterMark .comma param)) (ts ++ rest) ps (.mark .closeParen :: rest)
  | .param, ts, p => ∀ rest, (∀ text, rest.head? ≠ some (.name text)) →
    Gives deep param (ts ++ rest) p rest
  | .body, ts, es => ∀ n, Enough deep (10 * ts.length) n → ∀ rest,
    Gives deep (body n) (ts ++ rest) es rest
  | .statements, ts, es => ∀ n, Enough deep (10 * ts.length + 8) n → ∀ rest,
    Repeats (Gives deep (nextStatement (statement n))) (ts ++ .mark .closeBrace :: rest) es
      (.mark .closeBrace :: rest)
  -- the semicolons belong to the turn of the loop before
  | .moreStatements, ts, es => ∀ n, Enough deep (10 * ts.length) n → ∀ rest, ∃ count mid,
    ts ++ .mark .closeBrace :: rest = semicolons count ++ mid ∧
    mid.head? ≠ some (.mark .semicolon) ∧ (count = 0 → mid.head? = some (.mark .closeBrace)) ∧
    Repeats (Gives deep (nextStatement (statement n))) mid es (.mark .closeBrace :: rest)
  | .statement, ts, e => ∀ n, Enough deep (10 * ts.length + 8) n → ∀ rest, Closes 7 rest →
    Gives deep (statement n) (ts ++ rest) e rest
  | .expr, ts, e => ∀ n, Enough deep (10 * ts.length + 7) n → ∀ rest, Closes 6 rest →
    Gives deep (expr n) (ts ++ rest) e rest
  | .exprRest left, ts, e => ∀ n, Enough deep (10 * ts.length) n → ∀ rest, Closes 6 rest →
    ∃ others, others.foldl (Expr.conditional .or) left = e ∧
      Repeats (Gives deep (afterMark .orOr (conjunction n))) (ts ++ rest) others rest
  | .conjunction, ts, e => ∀ n, Enough deep (10 * ts.length + 6) n → ∀ rest, Closes 5 rest →
    Gives deep (conjunction n) (ts ++ rest) e rest
  | .conjunctionRest left, ts, e => ∀ n, Enough deep (10 * ts.length) n → ∀ rest, Closes 5 rest →
    ∃ others, others.foldl (Expr.conditional .and) left = e ∧
      Repeats (Gives deep (afterMark .andAnd (comparison n))) (ts ++ rest) others rest
  | .comparison, ts, e => ∀ n, Enough deep (10 * ts.length + 5) n → ∀ rest, Closes 4 rest →
    Gives deep (comparison n) (ts ++ rest) e rest
  | .sum, ts, e => ∀ n, Enough deep (10 * ts.length + 4) n → ∀ rest, Closes 3 rest →
    Gives deep (sum n) (ts ++ rest) e rest
  | .sumRest left, ts, e => ∀ n, Enough deep (10 * ts.length) n → ∀ rest, Closes 3 rest →
    ∃ others, applyChain left others = e ∧
      Repeats (Gives deep (nextSummand (term n) (termFrom n))) (ts ++ rest) others rest
  | .term, ts, e => ∀ n, Enough deep (10 * ts.length + 3) n → ∀ rest, Closes 2 rest →
    Gives deep (term n) (ts ++ rest) e rest
  | .termRest left, ts, e => ∀ n, Enough deep (10 * ts.length) n → ∀ rest, Closes 2 rest →
    ∃ others, applyChain left others = e ∧
      Repeats (Gives deep (nextOperand multiplicative? (unary n))) (ts ++ rest) others rest
  | .unary, ts, e => ∀ n, Enough deep (10 * ts.length + 2) n → ∀ rest, Closes 1 rest →
    Gives deep (unary n) (ts ++ rest) e rest
  | .primary, ts, e => ∀ n, Enough deep (10 * ts.length + 1) n → ∀ rest, Closes 1 rest →
    Gives deep (primary n) (ts ++ rest) e rest
  | .arguments, ts, es => ∀ n, Enough deep (10 * ts.length) n → ∀ rest,
    Gives deep (arguments n) (ts ++ rest) es rest
  | .moreArguments, ts, es => ∀ n, Enough deep (10 * ts.length) n → ∀ rest,
    Repeats (Gives deep (afterMark .comma (expr n))) (ts ++ rest) es (.mark .closeParen :: rest)
  | .items, ts, es | .moreItems, ts, es => ∀ n, Enough deep (10 * ts.length) n → ∀ rest,
    Repeats (Gives deep (nextItem (expr n))) (ts ++ .mark .closeParen :: rest) es
      (.mark .closeParen :: rest)
  | .ifElse, ts, e => ∀ n, Enough deep (10 * ts.length) n → ∀ rest, Closes 1 rest →
    Gives deep (ifElse n) (ts ++ rest) e rest

section Functions

variable {f : Function} {fs : Program} {p : Param} {ps : List Param} {es : List Expr}

theorem completes_program (count : Nat) (d : Derivation .functions ts fs)
    (h : Completes deep .functions ts fs) :
    Completes deep .program (semicolons count ++ ts) fs := by
  intro n hn
  refine gives_rule rfl hn (Nat.succ_pos _) fun n hn => gives_programOf count ?_ (h n ?_)
  · exact head?_functions_ne_semicolon d
  · exact hn.less (by rw [List.length_append]; omega)

theorem completes_someFunctions (count : Nat) (d : Derivation .function ts f)
    (ds : Derivation .functions us fs) (h : Completes deep .function ts f)
    (hs : Completes deep .functions us fs) :
    Completes deep .functions (ts ++ (semicolons count ++ us)) (f :: fs) := by
  intro n hn
  have hfilled := d.ne_nil rfl
  have hpos := List.length_pos_of_ne_nil hfilled
  have hlength : (ts ++ (semicolons count ++ us)).length =
      ts.length + ((semicolons count).length + us.length) := by
    rw [List.length_append, List.length_append]
  refine .more (gives_nextFunction count (h n ?_ _) ?_ ?_) ?_ (hs n ?_)
  · exact hn.mono (by omega)
  · exact List.append_ne_nil_of_left_ne_nil hfilled _
  · exact head?_functions_ne_semicolon ds
  · omega
  · exact hn.mono (by omega)

theorem completes_function (name : String) (hps : Completes deep .params ts ps)
    (hbody : Completes deep .body us es) :
    Completes deep .function (.mark .func :: .name name :: .mark .openParen :: (ts ++ us))
      ⟨name, ps, es⟩ := by
  intro n hn rest
  refine gives_rule rfl hn (by simp) fun n hn => ?_
  simp only [List.cons_append, List.append_assoc]
  refine gives_functionOf name (hps (us ++ rest)) (hbody n ?_ rest)
  exact hn.less (by simp only [List.length_cons, List.length_append]; omega)

theorem completes_someParams (d : Derivation .param ts p) (ds : Derivation .moreParams us ps)
    (h : Completes deep .param ts p) (hs : Completes deep .moreParams us ps) :
    Completes deep .params (ts ++ us) (p :: ps) := by
  intro rest
  rw [List.append_assoc]
  exact gives_commaSeparated_cons (h _ (head?_moreParams_ne_name ds rest))
    (head?_param_ne_closeParen d _) (hs rest)

theorem completes_nextParam (ds : Derivation .moreParams us ps) (h : Completes deep .param ts p)
    (hs : Completes deep .moreParams us ps) :
    Completes deep .moreParams (.mark .comma :: (ts ++ us)) (p :: ps) := by
  intro rest
  rw [List.cons_append, List.append_assoc]
  exact Repeats.afterMark ts (h _ (head?_moreParams_ne_name ds rest)) (hs rest)

end Functions

section Statements

variable {name : String} {e : Expr} {es : List Expr}

theorem completes_body (count : Nat) (d : Derivation .statements ts es)
    (h : Completes deep .statements ts es) :
    Completes deep .body
      (.mark .openBrace :: (semicolons count ++ (ts ++ [.mark .closeBrace]))) es := by
  intro n hn rest
  refine gives_rule rfl hn (by simp) fun n hn => ?_
  simp only [List.cons_append, List.append_assoc, List.nil_append]
  refine gives_bodyOf count ?_ (h n ?_ rest)
  · exact head?_statements_ne_semicolon d rest
  · exact hn.less (by
      simp only [List.length_cons, List.length_append, List.length_nil]
      omega)

/-- A statement with the semicolons behind it is a turn of the loop over a body. -/
theorem repeats_statement (d : Derivation .statement ts e) (h : Completes deep .statement ts e)
    {n count : Nat} (hn : Enough deep (10 * ts.length + 8) n)
    (hhead : mid.head? ≠ some (.mark .semicolon))
    (hend : count = 0 → mid.head? = some (.mark .closeBrace))
    (hs : Repeats (Gives deep (nextStatement (statement n))) mid es rest) :
    Repeats (Gives deep (nextStatement (statement n))) (ts ++ (semicolons count ++ mid)) (e :: es)
      rest := by
  have hcloses : Closes 7 (semicolons count ++ mid) := by
    cases count with
    | zero =>
      obtain ⟨left, rfl⟩ := List.head?_eq_some_iff.mp (hend rfl)
      exact closes_cons _ (Nat.le_refl _)
    | succ count => exact closes_cons _ (Nat.le_refl _)
  refine .more (gives_nextStatement_some count (h n hn _ hcloses) ?_ hhead hend) ?_ hs
  · exact head?_statement_ne d rfl _
  · have hpos := List.length_pos_of_ne_nil (d.ne_nil rfl)
    rw [List.length_append, List.length_append]
    omega

theorem completes_someStatements (d : Derivation .statement ts e)
    (h : Completes deep .statement ts e) (hs : Completes deep .moreStatements us es) :
    Completes deep .statements (ts ++ us) (e :: es) := by
  intro n hn rest
  rw [List.length_append] at hn
  obtain ⟨count, mid, hmid, hhead, hend, hloop⟩ := hs n (hn.mono (by omega)) rest
  rw [List.append_assoc, hmid]
  exact repeats_statement d h (hn.mono (by omega)) hhead hend hloop

theorem completes_lastStatement (count : Nat) :
    Completes deep .moreStatements (semicolons count) [] :=
  fun n _ rest => ⟨count, .mark .closeBrace :: rest, rfl, by simp, fun _ => rfl,
    .stop (gives_nextStatement_none _ _)⟩

theorem completes_nextStatement (count : Nat) (d : Derivation .statement ts e)
    (h : Completes deep .statement ts e) (hs : Completes deep .moreStatements us es) :
    Completes deep .moreStatements (semicolons (count + 1) ++ (ts ++ us)) (e :: es) := by
  intro n hn rest
  have hlength : (semicolons (count + 1) ++ (ts ++ us)).length =
      count + 1 + (ts.length + us.length) := by
    simp only [List.length_append, semicolons, List.length_replicate]
  rw [hlength] at hn
  obtain ⟨count', mid, hmid, hhead, hend, hloop⟩ := hs n (hn.mono (by omega)) rest
  refine ⟨count + 1, ts ++ (semicolons count' ++ mid), ?_, ?_, fun hzero => by omega, ?_⟩
  · rw [List.append_assoc, List.append_assoc, hmid]
  · exact head?_statement_ne d rfl _
  · exact repeats_statement d h (hn.mono (by omega)) hhead hend hloop

theorem completes_declare (name : String) (h : Completes deep .expr ts e) :
    Completes deep .statement (.name name :: .mark .define :: ts) (.declare name e) := by
  intro n hn rest hrest
  refine gives_statement hn (by rw [descent]; omega) fun n hn => ?_
  refine gives_statementOf_declare name (h n ?_ rest (hrest.mono (by omega)))
  exact hn.less (by simp only [List.length_cons]; omega)

theorem completes_assign (name : String) (h : Completes deep .expr ts e) :
    Completes deep .statement (.name name :: .mark .assign :: ts) (.assign name e) := by
  intro n hn rest hrest
  refine gives_statement hn (by rw [descent]; omega) fun n hn => ?_
  refine gives_statementOf_assign name (h n ?_ rest (hrest.mono (by omega)))
  exact hn.less (by simp only [List.length_cons]; omega)

theorem completes_expression (d : Derivation .expr ts e) (h : Completes deep .expr ts e) :
    Completes deep .statement ts e := by
  intro n hn rest hrest
  refine gives_statement hn (by rw [descent]; omega) fun n hn => ?_
  refine gives_statementOf_expr (h n (hn.less (by omega)) rest (hrest.mono (by omega))) ?_
  -- the token behind a name is in the expression, where it goes on with it, or follows it
  intro name t us hts
  obtain ⟨t', left, rfl⟩ := List.exists_cons_of_ne_nil (d.ne_nil rfl)
  rw [List.cons_append, List.cons.injEq] at hts
  obtain ⟨rfl, hleft⟩ := hts
  cases left with
  | nil =>
    have hle := hrest t (by rw [← List.nil_append rest, hleft]; rfl)
    omega
  | cons t' left =>
    obtain ⟨rfl, _⟩ := List.cons.inj hleft
    have hlt := d.nameGoesOn rfl name _ rfl t' rfl
    omega

end Statements

section Operators

variable {l r e : Expr} {op : Operator}

theorem completes_expr (drest : Derivation (.exprRest l) us e)
    (h : Completes deep .conjunction ts l) (hs : Completes deep (.exprRest l) us e) :
    Completes deep .expr (ts ++ us) e := by
  intro n hn rest hrest
  refine gives_rule rfl hn (Nat.succ_pos _) fun n hn => ?_
  rw [List.length_append] at hn
  obtain ⟨others, rfl, hothers⟩ := hs n (hn.less (by omega)) rest hrest
  have hcloses : Closes 5 (us ++ rest) := drest.closes fun _ => hrest.mono (Nat.le_succ _)
  rw [List.append_assoc]
  exact gives_conditionalChain .or .orOr (h n (hn.less (by omega)) _ hcloses) hothers

theorem completes_exprEnd : Completes deep (.exprRest l) [] l :=
  fun _ _ _ hrest => ⟨[], rfl, .stop (gives_afterMark_none _ (hrest.head?_ne (by decide)))⟩

theorem completes_or (drest : Derivation (.exprRest (.conditional .or l r)) us e)
    (h : Completes deep .conjunction ts r)
    (hs : Completes deep (.exprRest (.conditional .or l r)) us e) :
    Completes deep (.exprRest l) (.mark .orOr :: (ts ++ us)) e := by
  intro n hn rest hrest
  rw [List.length_cons, List.length_append] at hn
  obtain ⟨others, he, hothers⟩ := hs n (hn.mono (by omega)) rest hrest
  have hcloses : Closes 5 (us ++ rest) := drest.closes fun _ => hrest.mono (Nat.le_succ _)
  rw [List.cons_append, List.append_assoc]
  exact ⟨r :: others, he, Repeats.afterMark ts (h n (hn.mono (by omega)) _ hcloses) hothers⟩

theorem completes_conjunction (drest : Derivation (.conjunctionRest l) us e)
    (h : Completes deep .comparison ts l) (hs : Completes deep (.conjunctionRest l) us e) :
    Completes deep .conjunction (ts ++ us) e := by
  intro n hn rest hrest
  refine gives_rule rfl hn (Nat.succ_pos _) fun n hn => ?_
  rw [List.length_append] at hn
  obtain ⟨others, rfl, hothers⟩ := hs n (hn.less (by omega)) rest hrest
  have hcloses : Closes 4 (us ++ rest) := drest.closes fun _ => hrest.mono (Nat.le_succ _)
  rw [List.append_assoc]
  exact gives_conditionalChain .and .andAnd (h n (hn.less (by omega)) _ hcloses) hothers

theorem completes_conjunctionEnd : Completes deep (.conjunctionRest l) [] l :=
  fun _ _ _ hrest => ⟨[], rfl, .stop (gives_afterMark_none _ (hrest.head?_ne (by decide)))⟩

theorem completes_and (drest : Derivation (.conjunctionRest (.conditional .and l r)) us e)
    (h : Completes deep .comparison ts r)
    (hs : Completes deep (.conjunctionRest (.conditional .and l r)) us e) :
    Completes deep (.conjunctionRest l) (.mark .andAnd :: (ts ++ us)) e := by
  intro n hn rest hrest
  rw [List.length_cons, List.length_append] at hn
  obtain ⟨others, he, hothers⟩ := hs n (hn.mono (by omega)) rest hrest
  have hcloses : Closes 4 (us ++ rest) := drest.closes fun _ => hrest.mono (Nat.le_succ _)
  rw [List.cons_append, List.append_assoc]
  exact ⟨r :: others, he, Repeats.afterMark ts (h n (hn.mono (by omega)) _ hcloses) hothers⟩

theorem completes_plainSum (h : Completes deep .sum ts e) : Completes deep .comparison ts e := by
  intro n hn rest hrest
  refine gives_rule rfl hn (Nat.succ_pos _) fun n hn => ?_
  exact gives_comparisonOf_sum (h n (hn.less (by omega)) rest (hrest.mono (by omega))) hrest

theorem completes_compare (hop : op.level = .comparison) (hl : Completes deep .sum ts l)
    (hr : Completes deep .sum us r) :
    Completes deep .comparison (ts ++ .mark op.mark :: us) (.binary op l r) := by
  intro n hn rest hrest
  refine gives_rule rfl hn (Nat.succ_pos _) fun n hn => ?_
  rw [List.length_append, List.length_cons] at hn
  have hcloses : Closes 3 (.mark op.mark :: (us ++ rest)) := closes_comparison hop _
  rw [List.append_assoc, List.cons_append]
  exact gives_comparisonOf_compare hop (hl n (hn.less (by omega)) _ hcloses)
    (hr n (hn.less (by omega)) rest (hrest.mono (by omega)))

theorem completes_sum (drest : Derivation (.sumRest l) us e) (h : Completes deep .term ts l)
    (hs : Completes deep (.sumRest l) us e) : Completes deep .sum (ts ++ us) e := by
  intro n hn rest hrest
  refine gives_rule rfl hn (Nat.succ_pos _) fun n hn => ?_
  rw [List.length_append] at hn
  obtain ⟨others, rfl, hothers⟩ := hs n (hn.less (by omega)) rest hrest
  have hcloses : Closes 2 (us ++ rest) := drest.closes fun _ => hrest.mono (Nat.le_succ _)
  rw [List.append_assoc]
  exact gives_sumOf (h n (hn.less (by omega)) _ hcloses) hothers

theorem completes_sumEnd : Completes deep (.sumRest l) [] l :=
  fun _ _ _ hrest => ⟨[], rfl, .stop (gives_nextSummand_none hrest)⟩

theorem completes_sign (hop : op.level = .sum)
    (drest : Derivation (.sumRest (.binary op l r)) us e) (h : Completes deep .term ts r)
    (hs : Completes deep (.sumRest (.binary op l r)) us e) :
    Completes deep (.sumRest l) (.mark op.mark :: (ts ++ us)) e := by
  intro n hn rest hrest
  rw [List.length_cons, List.length_append] at hn
  obtain ⟨others, he, hothers⟩ := hs n (hn.mono (by omega)) rest hrest
  have hcloses : Closes 2 (us ++ rest) := drest.closes fun _ => hrest.mono (Nat.le_succ _)
  rw [List.cons_append, List.append_assoc]
  have hterm := h n (hn.mono (by omega)) _ hcloses
  exact ⟨(op, r) :: others, he,
    .more (gives_nextSummand_sign hop hterm) (length_lt_cons_append _ ts _) hothers⟩

theorem completes_negative {m : Int} (hm : m < 0)
    (drest : Derivation (.sumRest (.binary .add l r)) us e)
    (h : Completes deep (.termRest (.lit (.int m))) ts r)
    (hs : Completes deep (.sumRest (.binary .add l r)) us e) :
    Completes deep (.sumRest l) (.int m :: (ts ++ us)) e := by
  intro n hn rest hrest
  rw [List.length_cons, List.length_append] at hn
  obtain ⟨others, he, hothers⟩ := hs n (hn.mono (by omega)) rest hrest
  have hcloses : Closes 2 (us ++ rest) := drest.closes fun _ => hrest.mono (Nat.le_succ _)
  have hterm : Gives deep (termFrom n (.lit (.int m))) (ts ++ (us ++ rest)) r (us ++ rest) := by
    refine gives_rule (p := fun n => termFrom n (.lit (.int m))) rfl hn (by omega) fun n hn => ?_
    obtain ⟨factors, rfl, hfactors⟩ := h n (hn.less (by omega)) _ hcloses
    exact gives_termFromOf _ hfactors
  rw [List.cons_append, List.append_assoc]
  exact ⟨(.add, r) :: others, he,
    .more (gives_nextSummand_negative hm hterm) (length_lt_cons_append _ ts _) hothers⟩

theorem completes_term (drest : Derivation (.termRest l) us e) (h : Completes deep .unary ts l)
    (hs : Completes deep (.termRest l) us e) : Completes deep .term (ts ++ us) e := by
  intro n hn rest hrest
  refine gives_rule rfl hn (Nat.succ_pos _) fun n hn => ?_
  rw [List.length_append] at hn
  obtain ⟨others, rfl, hothers⟩ := hs n (hn.less (by omega)) rest hrest
  have hcloses : Closes 1 (us ++ rest) := drest.closes fun _ => hrest.mono (Nat.le_succ _)
  rw [List.append_assoc]
  exact (h n (hn.less (by omega)) _ hcloses).bind (gives_termFromOf l hothers)

theorem completes_termEnd : Completes deep (.termRest l) [] l :=
  fun _ _ _ hrest => ⟨[], rfl, .stop (gives_nextOperand_none _
    (bind_operator?_eq_none (fun _ _ => multiplicative?_sound) hrest))⟩

theorem completes_factor (hop : op.level = .term)
    (drest : Derivation (.termRest (.binary op l r)) us e) (h : Completes deep .unary ts r)
    (hs : Completes deep (.termRest (.binary op l r)) us e) :
    Completes deep (.termRest l) (.mark op.mark :: (ts ++ us)) e := by
  intro n hn rest hrest
  rw [List.length_cons, List.length_append] at hn
  obtain ⟨others, he, hothers⟩ := hs n (hn.mono (by omega)) rest hrest
  have hcloses : Closes 1 (us ++ rest) := drest.closes fun _ => hrest.mono (Nat.le_succ _)
  rw [List.cons_append, List.append_assoc]
  have hfactor := h n (hn.mono (by omega)) _ hcloses
  exact ⟨(op, r) :: others, he, .more (gives_nextOperand_some (multiplicative?_mark hop) hfactor)
    (length_lt_cons_append _ ts _) hothers⟩

theorem completes_not (h : Completes deep .unary ts e) :
    Completes deep .unary (.mark .bang :: ts) (.not e) := by
  intro n hn rest hrest
  refine gives_rule rfl hn (Nat.succ_pos _) fun n hn => ?_
  rw [List.length_cons] at hn
  exact gives_unaryOf_not (h n (hn.less (by omega)) rest hrest)

theorem completes_plainPrimary (d : Derivation .primary ts e) (h : Completes deep .primary ts e) :
    Completes deep .unary ts e := by
  intro n hn rest hrest
  refine gives_rule rfl hn (Nat.succ_pos _) fun n hn => ?_
  refine gives_unaryOf_primary ?_ (h n (hn.less (by omega)) rest hrest)
  exact d.head?_ne_of_filled rfl (fun hbegins => hbegins.2 rfl) rest

end Operators

section Operands

variable {e c : Expr} {es fs : List Expr}

/-- A token that is an expression by itself. -/
theorem completes_literal {t : Token}
    (ht : ∀ n rest, Gives deep (primary (n + 1)) (t :: rest) e rest) :
    Completes deep .primary [t] e := by
  intro n hn rest hrest
  exact gives_rule rfl hn (Nat.succ_pos _) fun n _ => ht n rest

theorem completes_name (name : String) : Completes deep .primary [.name name] (.name name) := by
  intro n hn rest hrest
  refine gives_rule rfl hn (Nat.succ_pos _) fun n _ => ?_
  exact gives_primaryOf_name name (hrest.head?_ne (by decide))

theorem completes_call (name : String) (h : Completes deep .arguments ts es) :
    Completes deep .primary (.name name :: .mark .openParen :: ts) (.call name es) := by
  intro n hn rest hrest
  refine gives_rule rfl hn (Nat.succ_pos _) fun n hn => ?_
  rw [List.length_cons, List.length_cons] at hn
  exact gives_primaryOf_call name (h n (hn.less (by omega)) rest)

/-- What stands in parentheses is read by one rule below that of the primary expressions. -/
theorem completes_parenthesised {us : List Token}
    (h : ∀ n, Enough deep (10 * us.length) n → ∀ rest,
      Gives deep (parenthesisedOf (expr n)) (.mark .openParen :: (us ++ rest)) e rest) :
    Completes deep .primary (.mark .openParen :: us) e := by
  intro n hn rest hrest
  refine gives_rule rfl hn (Nat.succ_pos _) fun n hn => ?_
  rw [List.length_cons] at hn
  refine gives_primaryOf_parenthesised ?_
  have hinner : Enough deep (10 * us.length + 1) n := hn.less (by omega)
  exact gives_rule rfl hinner (Nat.succ_pos _) fun n hn => h n (hn.less (by omega)) rest

theorem completes_unit :
    Completes deep .primary [.mark .openParen, .mark .closeParen] (.tuple []) :=
  completes_parenthesised fun _ _ rest => gives_parenthesisedOf_unit _ rest

theorem completes_group (d : Derivation .expr ts e) (h : Completes deep .expr ts e) :
    Completes deep .primary (.mark .openParen :: (ts ++ [.mark .closeParen])) e := by
  refine completes_parenthesised fun n hn rest => ?_
  rw [List.length_append, List.length_singleton] at hn
  rw [List.append_assoc]
  exact gives_parenthesisedOf_group (head?_expr_ne_closeParen d _)
    (h n (hn.mono (by omega)) _ (closes_cons _ (by decide)))

theorem completes_tuple (d : Derivation .expr ts e) (ds : Derivation .items us es)
    (h : Completes deep .expr ts e) (hs : Completes deep .items us es) :
    Completes deep .primary (.mark .openParen :: (ts ++ (us ++ [.mark .closeParen])))
      (.tuple (e :: es)) := by
  refine completes_parenthesised fun n hn rest => ?_
  simp only [List.length_append, List.length_singleton] at hn
  have hcloses : Closes 6 (us ++ .mark .closeParen :: rest) := closes_items ds _
  have hmid : (us ++ .mark .closeParen :: rest).head? ≠ some (.mark .closeParen) :=
    head?_items_ne_closeParen ds _
  simp only [List.append_assoc, List.singleton_append]
  exact gives_parenthesisedOf_tuple (head?_expr_ne_closeParen d _)
    (h n (hn.mono (by omega)) _ hcloses) hmid (hs n (hn.mono (by omega)) rest)

theorem completes_block (d : Derivation .body ts es) (h : Completes deep .body ts es) :
    Completes deep .primary ts (.block es) := by
  obtain ⟨_, hempty⟩ | ⟨t, us, rfl, rfl⟩ := d.starts
  · cases hempty
  · intro n hn rest hrest
    refine gives_rule rfl hn (Nat.succ_pos _) fun n hn => ?_
    exact gives_primaryOf_block (h n (hn.less (Nat.lt_succ_self _)) rest)

theorem completes_condition (d : Derivation .ifElse ts e) (h : Completes deep .ifElse ts e) :
    Completes deep .primary ts e := by
  obtain ⟨_, hempty⟩ | ⟨t, us, rfl, rfl⟩ := d.starts
  · cases hempty
  · intro n hn rest hrest
    refine gives_rule rfl hn (Nat.succ_pos _) fun n hn => ?_
    exact gives_primaryOf_ifElse (h n (hn.less (Nat.lt_succ_self _)) rest hrest)

theorem completes_noArguments : Completes deep .arguments [.mark .closeParen] [] := by
  intro n hn rest
  exact gives_rule rfl hn (by simp) fun n _ => gives_commaSeparated_nil _ rest

theorem completes_someArguments (d : Derivation .expr ts e) (ds : Derivation .moreArguments us es)
    (h : Completes deep .expr ts e) (hs : Completes deep .moreArguments us es) :
    Completes deep .arguments (ts ++ us) (e :: es) := by
  intro n hn rest
  have hpos := List.length_pos_of_ne_nil (d.ne_nil rfl)
  have hposs := List.length_pos_of_ne_nil (ds.ne_nil rfl)
  rw [List.length_append] at hn
  refine gives_rule rfl hn (by omega) fun n hn => ?_
  rw [List.append_assoc]
  exact gives_commaSeparated_cons (h n (hn.less (by omega)) _ (closes_moreArguments ds rest))
    (head?_expr_ne_closeParen d _) (hs n (hn.less (by omega)) rest)

theorem completes_nextArgument (ds : Derivation .moreArguments us es)
    (h : Completes deep .expr ts e) (hs : Completes deep .moreArguments us es) :
    Completes deep .moreArguments (.mark .comma :: (ts ++ us)) (e :: es) := by
  intro n hn rest
  rw [List.length_cons, List.length_append] at hn
  rw [List.cons_append, List.append_assoc]
  exact Repeats.afterMark ts (h n (hn.mono (by omega)) _ (closes_moreArguments ds rest))
    (hs n (hn.mono (by omega)) rest)

theorem completes_nextItem (d : Derivation .expr ts e) (ds : Derivation .moreItems us es)
    (h : Completes deep .expr ts e) (hs : Completes deep .moreItems us es) :
    Completes deep .items (.mark .comma :: (ts ++ us)) (e :: es) := by
  intro n hn rest
  rw [List.length_cons, List.length_append] at hn
  have hend : Closes 7 (.mark .closeParen :: rest) := closes_cons _ (Nat.le_refl 7)
  have hcloses : Closes 6 (us ++ .mark .closeParen :: rest) :=
    ds.closes_expr rfl fun _ => hend
  rw [List.cons_append, List.append_assoc]
  refine .more (gives_nextItem_some (head?_expr_ne_closeParen d _) ?_)
    (length_lt_cons_append _ ts _) (hs n (hn.mono (by omega)) rest)
  exact h n (hn.mono (by omega)) _ hcloses

theorem completes_ifOnly (dbody : Derivation .body us es) (hc : Completes deep .expr ts c)
    (hbody : Completes deep .body us es) :
    Completes deep .ifElse (.mark .ifWord :: (ts ++ us)) (.ifElse c es []) := by
  intro n hn rest hrest
  refine gives_rule rfl hn (by simp) fun n hn => ?_
  rw [List.length_cons, List.length_append] at hn
  rw [List.cons_append, List.append_assoc]
  exact gives_ifElseOf_only (hc n (hn.less (by omega)) _ (closes_body dbody rest))
    (hbody n (hn.less (by omega)) rest) (hrest.head?_ne (by decide))

theorem completes_else {vs : List Token} (dbody : Derivation .body us es)
    (hc : Completes deep .expr ts c) (hbody : Completes deep .body us es)
    (helse : ∀ n, Enough deep (10 * vs.length) n → ∀ rest, Closes 1 rest →
      Gives deep (elseOf (body n) (ifElse n)) (vs ++ rest) fs rest) :
    Completes deep .ifElse (.mark .ifWord :: (ts ++ (us ++ .mark .elseWord :: vs)))
      (.ifElse c es fs) := by
  intro n hn rest hrest
  refine gives_rule rfl hn (by simp) fun n hn => ?_
  simp only [List.length_cons, List.length_append] at hn
  simp only [List.cons_append, List.append_assoc]
  exact gives_ifElseOf_else (hc n (hn.less (by omega)) _ (closes_body dbody _))
    (hbody n (hn.less (by omega)) _) (helse n (hn.less (by omega)) rest hrest)

theorem completes_ifElse {vs : List Token} (dbody : Derivation .body us es)
    (delse : Derivation .body vs fs) (hc : Completes deep .expr ts c)
    (hbody : Completes deep .body us es) (helse : Completes deep .body vs fs) :
    Completes deep .ifElse (.mark .ifWord :: (ts ++ (us ++ .mark .elseWord :: vs)))
      (.ifElse c es fs) := by
  refine completes_else dbody hc hbody fun n hn rest _ => gives_elseOf_body ?_ (helse n hn rest)
  exact delse.head?_ne_of_filled rfl (fun hbegins => by cases hbegins) rest

theorem completes_elseIf {vs : List Token} (dbody : Derivation .body us es)
    (delse : Derivation .ifElse vs e) (hc : Completes deep .expr ts c)
    (hbody : Completes deep .body us es) (helse : Completes deep .ifElse vs e) :
    Completes deep .ifElse (.mark .ifWord :: (ts ++ (us ++ .mark .elseWord :: vs)))
      (.ifElse c es [e]) := by
  obtain ⟨_, hempty⟩ | ⟨t, ws, rfl, rfl⟩ := delse.starts
  · cases hempty
  · exact completes_else dbody hc hbody fun n hn rest hrest =>
      gives_elseOf_ifElse (helse n hn rest hrest)

end Operands

/-- Every phrase is read by the parser of its category. -/
theorem completes {category : Category} {x : category.Tree} (deep : Prop)
    (d : Derivation category ts x) : Completes deep category ts x := by
  induction d with
  | program count d ih => exact completes_program count d ih
  | noFunctions => exact fun n _ => .stop ((gives_peek _).bind (gives_pure _ _))
  | someFunctions count d ds ih ihs => exact completes_someFunctions count d ds ih ihs
  | function name _ _ ihps ihbody => exact completes_function name ihps ihbody
  | noParams => exact fun rest => gives_commaSeparated_nil _ rest
  | someParams d ds ih ihs => exact completes_someParams d ds ih ihs
  | lastParam => exact fun rest => repeats_comma_stop _ rest
  | nextParam _ ds ih ihs => exact completes_nextParam ds ih ihs
  | plainParam name => exact fun rest hrest => gives_param_plain name hrest
  | annotatedParam name annotation => exact fun rest _ => gives_param_annotated name annotation rest
  | body count d ih => exact completes_body count d ih
  | noStatements => exact fun n _ rest => .stop (gives_nextStatement_none _ rest)
  | someStatements d _ ih ihs => exact completes_someStatements d ih ihs
  | lastStatement count => exact completes_lastStatement count
  | nextStatement count d _ ih ihs => exact completes_nextStatement count d ih ihs
  | declare name _ ih => exact completes_declare name ih
  | assign name _ ih => exact completes_assign name ih
  | expression d ih => exact completes_expression d ih
  | expr _ ds ih ihs => exact completes_expr ds ih ihs
  | exprEnd => exact completes_exprEnd
  | or _ ds ih ihs => exact completes_or ds ih ihs
  | conjunction _ ds ih ihs => exact completes_conjunction ds ih ihs
  | conjunctionEnd => exact completes_conjunctionEnd
  | and _ ds ih ihs => exact completes_and ds ih ihs
  | plainSum _ ih => exact completes_plainSum ih
  | compare op h _ _ ihl ihr => exact completes_compare h ihl ihr
  | sum _ ds ih ihs => exact completes_sum ds ih ihs
  | sumEnd => exact completes_sumEnd
  | sign op h _ ds ih ihs => exact completes_sign h ds ih ihs
  | negative m h _ ds ih ihs => exact completes_negative h ds ih ihs
  | term _ ds ih ihs => exact completes_term ds ih ihs
  | termEnd => exact completes_termEnd
  | factor op h _ ds ih ihs => exact completes_factor h ds ih ihs
  | not _ ih => exact completes_not ih
  | plainPrimary d ih => exact completes_plainPrimary d ih
  | int | string | bool =>
    exact completes_literal fun n rest =>
      (gives_peek _).bind ((gives_advance _ _).bind (gives_pure _ _))
  | name name => exact completes_name name
  | call name _ ih => exact completes_call name ih
  | unit => exact completes_unit
  | group d ih => exact completes_group d ih
  | tuple d ds ih ihs => exact completes_tuple d ds ih ihs
  | block d ih => exact completes_block d ih
  | condition d ih => exact completes_condition d ih
  | noArguments => exact completes_noArguments
  | someArguments d ds ih ihs => exact completes_someArguments d ds ih ihs
  | lastArgument => exact fun n _ rest => repeats_comma_stop _ rest
  | nextArgument _ ds ih ihs => exact completes_nextArgument ds ih ihs
  | trailingComma => exact fun n _ rest => .stop (gives_nextItem_trailing _ rest)
  | nextItem d ds ih ihs => exact completes_nextItem d ds ih ihs
  | lastItem => exact fun n _ rest => .stop (gives_nextItem_none _ rest)
  | furtherItems _ ih => exact ih
  | ifOnly _ dbody ihc ihbody => exact completes_ifOnly dbody ihc ihbody
  | ifElse _ dbody delse ihc ihbody ihelse => exact completes_ifElse dbody delse ihc ihbody ihelse
  | elseIf _ dbody delse ihc ihbody ihelse => exact completes_elseIf dbody delse ihc ihbody ihelse

end Parser
end Scriptlet
