import Scriptlet.Proofs.Stalls

/-!
# What was read can always be gone on with

When a parser fails, the tokens that it had read are the beginning of some phrase of its category:
there are tokens that could stand behind them and complete the phrase.  `Viable` says that tokens
are the beginning of a phrase, and the lemmas here go through the rules one by one.

A rule fails in one of the parsers that it calls.  What this one had read is the beginning of a
phrase of its own category, and that is completed first; then the rest of the rule is added, with
the shortest phrases there are.  So for each place of a rule there is one derivation to be given.
Behind a chain of operators nothing is missing, and in a chain the completed operand is the last.
-/

namespace Scriptlet
namespace Grammar

variable {c : Category} {ts w : List Token} {x : c.Tree}

/-- The tokens are the beginning of a phrase. -/
def Viable (c : Category) (w : List Token) : Prop :=
  ∃ us x, Derives c (w ++ us) x

theorem Viable.of_phrase (d : Derivation c ts x) (h : w <+: ts) : Viable c w := by
  obtain ⟨us, rfl⟩ := h
  exact ⟨us, x, ⟨d⟩⟩

/-- The shortest body. -/
def emptyBody : Derivation .body [.mark .openBrace, .mark .closeBrace] [] :=
  .body 0 .noStatements

theorem viable_statement_nil : Viable .statement [] := by
  obtain ⟨d⟩ := Derives.expr_of_primary ⟨.unit⟩
  exact .of_phrase (.expression d) (List.nil_prefix)

theorem viable_statement_name (name : String) : Viable .statement [.name name] := by
  obtain ⟨d⟩ := Derives.expr_of_primary ⟨.name name⟩
  exact .of_phrase (.expression d) (List.prefix_refl _)

theorem viable_ifElse_nil : Viable .ifElse [] := by
  obtain ⟨d⟩ := Derives.expr_of_primary ⟨.unit⟩
  exact .of_phrase (.ifOnly d emptyBody) List.nil_prefix

/-- An expression in parentheses with items behind it, or with none. -/
theorem Derives.exists_primary {us : List Token} {e : Expr} {es : List Expr}
    (h : Derives .moreItems us es) (he : Derives .expr ts e) :
    ∃ x, Derives .primary (.mark .openParen :: (ts ++ (us ++ [.mark .closeParen]))) x := by
  obtain ⟨d⟩ := h
  obtain ⟨de⟩ := he
  cases d with
  | lastItem => exact ⟨e, ⟨.group de⟩⟩
  | furtherItems d => exact ⟨_, ⟨.tuple de d⟩⟩

/-- Behind semicolons a body can be gone on with from its start. -/
theorem Derives.moreStatements {es : List Expr} (count : Nat) (h : Derives .statements ts es) :
    Derives .moreStatements (semicolons (count + 1) ++ ts) es := by
  obtain ⟨d⟩ := h
  cases d with
  | noStatements =>
    rw [List.append_nil]
    exact ⟨.lastStatement _⟩
  | someStatements d ds => exact ⟨.nextStatement count d ds⟩

end Grammar

namespace Parser

open Grammar

variable {α β : Type} {category : Category} {ts : List Token} {V W : List Token → Prop}

/-- Whenever the parser fails, what it had read is the beginning of a phrase. -/
def StaysViable (category : Category) (p : Parser α) : Prop :=
  ∀ ts, Stalls p ts (Viable category)

theorem Phrase.suffix {x : category.Tree} {rest : List Token} (h : Phrase category ts x rest) :
    rest <:+ ts := by
  obtain ⟨us, rfl, _⟩ := h
  exact List.suffix_append us rest

/-- A phrase, and what follows it. -/
theorem StaysViable.bind {p : Parser category.Tree} {f : category.Tree → Parser β}
    (hp : StaysViable category p) (hreads : Reads p (Phrase category))
    (hW : ∀ us, Viable category us → W us)
    (hf : ∀ us x rest, Derivation category us x → Stalls (f x) rest fun vs => W (us ++ vs)) :
    Stalls (p >>= f) ts W := by
  refine ((hp ts).mono hW).bind hreads ?_
  rintro x rest ⟨us, rfl, ⟨d⟩⟩
  exact ⟨us, rfl, hf us x rest d⟩

/-! ## Phrases behind a mark -/

/-- What a loop reads behind a mark satisfies `V`, complete phrases or the beginning of one. -/
structure Chains (m : Mark) (category : Category) (V : List Token → Prop) : Prop where
  nil : V []
  next : ∀ us, Viable category us → V (.mark m :: us)
  more : ∀ us vs x, Derivation category us x → V vs → V (.mark m :: (us ++ vs))

theorem Chains.carries {m : Mark} (hV : Chains m category V) :
    Carries (AfterMark m (Phrase category)) fun _ => V where
  stop := by
    rintro ts rest ⟨_, rfl⟩
    exact ⟨[], rfl, hV.nil⟩
  more := by
    rintro ts mid x ⟨_, rfl, us, rfl, ⟨d⟩⟩
    exact ⟨.mark m :: us, rfl, fun vs hvs => hV.more us vs x d hvs⟩

theorem Chains.stalls_bind {m : Mark} {item : Parser category.Tree}
    {f : List category.Tree → Parser β} (hV : Chains m category V)
    (hitem : StaysViable category item) (hreads : Reads item (Phrase category))
    (hW : ∀ us, V us → W us)
    (hf : ∀ xs us rest, V us → Stalls (f xs) rest fun vs => W (us ++ vs)) :
    Stalls (many (afterMark m item) >>= f) ts W := by
  refine stalls_many_bind hV.carries (reads_afterMark m hreads)
    (fun _ _ _ => AfterMark.length_lt fun _ _ _ => Phrase.length_le) (fun ts => ?_) hW hf
  exact stalls_afterMark hV.nil fun mid _ => (hitem mid).mono hV.next

theorem stalls_commaSeparated {item : Parser category.Tree} (hV : Chains .comma category V)
    (hitem : StaysViable category item) (hreads : Reads item (Phrase category)) (h : W [])
    (hfirst : ∀ us, Viable category us → W us)
    (hothers : ∀ us vs x, Derivation category us x → V vs → W (us ++ vs)) :
    Stalls (commaSeparated item) ts W := by
  refine stalls_isAtMark_bind h (fun rest _ => ?_) fun _ => ?_
  · exact stalls_expectMark_bind h fun _ _ => stalls_pure _ _ _
  · refine hitem.bind hreads hfirst fun us x rest d => ?_
    refine hV.stalls_bind hitem hreads (fun vs => hothers us vs x d) fun xs vs rest hvs => ?_
    refine stalls_expectMark_bind ?_ fun _ _ => stalls_pure _ _ _
    rw [List.append_nil]
    exact hothers us vs x d hvs

theorem Chains.stalls_operands {m : Mark} {operand : Parser category.Tree}
    {g : category.Tree → List category.Tree → β} (hV : Chains m category V)
    (hoperand : StaysViable category operand) (hreads : Reads operand (Phrase category))
    (hfirst : ∀ us, Viable category us → W us)
    (hothers : ∀ us vs x, Derivation category us x → V vs → W (us ++ vs)) :
    Stalls (do return g (← operand) (← many (afterMark m operand))) ts W := by
  refine hoperand.bind hreads hfirst fun us x rest d => ?_
  exact hV.stalls_bind hoperand hreads (fun vs => hothers us vs x d) fun xs vs rest hvs =>
    stalls_pure _ _ _

/-! ## Functions -/

theorem staysViable_param : StaysViable .param param := by
  intro ts
  refine stalls_expectName_bind (.of_phrase (.plainParam "x") List.nil_prefix) fun name rest _ => ?_
  refine Stalls.bind_pure (stalls_peek_bind (.of_phrase (.plainParam name) ?_) ?_) _
  · match rest with
    | .name text :: rest => exact stalls_advance_bind (stalls_pure _ _ _)
    | [] | .mark _ :: _ | .bool _ :: _ | .string _ :: _ | .int _ :: _ => exact stalls_pure _ _ _
  · exact List.prefix_refl _

theorem chains_moreParams : Chains .comma .param (Viable .moreParams) where
  nil := .of_phrase .lastParam List.nil_prefix
  next := fun w ⟨us, p, ⟨d⟩⟩ => .of_phrase (.nextParam d .lastParam) (by simp)
  more := fun ts w p d ⟨us, ps, ⟨ds⟩⟩ => .of_phrase (.nextParam d ds) (by simp)

theorem staysViable_params : StaysViable .params (commaSeparated param) := by
  intro ts
  refine stalls_commaSeparated chains_moreParams staysViable_param reads_param ?_ ?_ ?_
  · exact .of_phrase .noParams List.nil_prefix
  · rintro w ⟨us, p, ⟨d⟩⟩
    exact .of_phrase (.someParams d .lastParam) (by simp)
  · rintro ts w p d ⟨us, ps, ⟨ds⟩⟩
    exact .of_phrase (.someParams d ds) (by simp)

theorem reads_params : Reads (commaSeparated param) (Phrase .params) := by
  intro c c' ts ending ps h hp
  obtain ⟨rest, hlist, h₁⟩ := reads_commaSeparated reads_param (fun _ _ _ => Phrase.length_le) h hp
  exact ⟨rest, phrase_params hlist, h₁⟩

theorem staysViable_functionOf {body : Parser (List Expr)} (hbody : StaysViable .body body) :
    StaysViable .function (functionOf body) := by
  have hbegun : ∀ name, Derivation .function _ _ := fun name => .function name .noParams emptyBody
  intro ts
  refine stalls_expectMark_bind (.of_phrase (hbegun "f") List.nil_prefix) fun _ _ => ?_
  refine stalls_expectName_bind (.of_phrase (hbegun "f") (by simp)) fun name _ _ => ?_
  refine stalls_expectMark_bind (.of_phrase (hbegun name) (by simp)) fun _ _ => ?_
  refine staysViable_params.bind reads_params ?_ fun us ps rest dparams => ?_
  · rintro w ⟨us, ps, ⟨d⟩⟩
    exact .of_phrase (.function name d emptyBody) (by simp)
  · refine Stalls.bind_pure ((hbody _).mono ?_) _
    rintro w ⟨vs, es, ⟨d⟩⟩
    exact .of_phrase (.function name dparams d) (by simp)

theorem staysViable_nextFunction {function : Parser Function}
    (hfunction : StaysViable .function function) (hreads : Reads function (Phrase .function)) :
    StaysViable .functions (nextFunction function) := by
  intro ts
  refine stalls_peek_bind (.of_phrase .noFunctions List.nil_prefix) ?_
  cases ts with
  | nil => exact stalls_pure _ _ _
  | cons t ts =>
    refine hfunction.bind hreads ?_ fun us f rest d => ?_
    · rintro w ⟨us, f, ⟨d⟩⟩
      exact .of_phrase (.someFunctions 0 d .noFunctions) (by simp)
    · refine stalls_skipSemicolons_bind (fun count => ?_) fun _ _ _ => stalls_pure _ _ _
      exact .of_phrase (.someFunctions count d .noFunctions) (by simp)

theorem staysViable_programOf {function : Parser Function}
    (hfunction : StaysViable .function function) (hreads : Reads function (Phrase .function)) :
    StaysViable .program (programOf function) := by
  have hcarries : Carries FunctionStep fun _ => Viable .functions := by
    constructor
    · rintro ts rest ⟨rfl, rfl⟩
      exact ⟨[], rfl, .of_phrase .noFunctions List.nil_prefix⟩
    · rintro ts mid f ⟨count, us, rfl, ⟨d⟩⟩
      refine ⟨us ++ semicolons count, by simp, ?_⟩
      rintro w ⟨vs, fs, ⟨ds⟩⟩
      exact .of_phrase (.someFunctions count d ds) (by simp)
  intro ts
  refine stalls_skipSemicolons_bind (fun count => ?_) fun count rest _ => ?_
  · exact .of_phrase (.program count .noFunctions) (by simp)
  · refine (stalls_many hcarries (reads_nextFunction hreads)
      (staysViable_nextFunction hfunction hreads) rest).mono ?_
    rintro w ⟨us, fs, ⟨d⟩⟩
    exact .of_phrase (.program count d) (by simp)

/-! ## Bodies and statements -/

/-- What the loop over statements has read: the beginning of statements, and nothing at the end of
the body. -/
def ViableStatements (ts w : List Token) : Prop :=
  Viable .statements w ∧ (ts.head? = some (.mark .closeBrace) → w = [])

theorem carries_statements : Carries StatementStep ViableStatements where
  stop := by
    rintro ts rest ⟨_, rfl⟩
    exact ⟨[], rfl, .of_phrase .noStatements List.nil_prefix, fun _ => rfl⟩
  more := by
    rintro ts mid e ⟨hopen, count, ⟨us, rfl, ⟨d⟩⟩, hend⟩
    refine ⟨us ++ semicolons count, by simp, ?_⟩
    rintro w ⟨⟨vs, es, ds⟩, hclosed⟩
    refine ⟨?_, fun hclose => absurd hclose hopen⟩
    cases count with
    | zero =>
      -- without a semicolon the body ends there
      rw [hclosed (hend rfl)]
      exact .of_phrase (.someStatements d (.lastStatement 0)) (by simp)
    | succ count =>
      obtain ⟨dmore⟩ := ds.moreStatements count
      exact .of_phrase (.someStatements d dmore) (by simp)

theorem stalls_nextStatement {statement : Parser Expr}
    (hstatement : StaysViable .statement statement)
    (hreads : Reads statement (Phrase .statement)) (ts : List Token) :
    Stalls (nextStatement statement) ts (ViableStatements ts) := by
  refine stalls_isAtMark_bind ⟨.of_phrase .noStatements List.nil_prefix, fun _ => rfl⟩
    (fun _ _ => ?_) fun hopen => ?_
  · exact stalls_pure _ _ _
  · -- the body goes on, and so it does not matter what is next
    have hviable : ∀ w, Viable .statements w → ViableStatements ts w := fun w hw =>
      ⟨hw, fun hclose => absurd hclose hopen⟩
    refine hstatement.bind hreads (fun w hw => hviable w ?_) fun us e rest d => ?_
    · obtain ⟨us, e, ⟨d⟩⟩ := hw
      exact .of_phrase (.someStatements d (.lastStatement 0)) (by simp)
    · have hread : ∀ count, ViableStatements ts (us ++ semicolons count) := fun count =>
        hviable _ (.of_phrase (.someStatements d (.lastStatement count)) (List.prefix_refl _))
      refine stalls_isAtMark_bind (hread 0) (fun _ _ => stalls_pure _ _ _) fun _ => ?_
      refine stalls_expectMark_bind (hread 0) fun _ _ => ?_
      exact stalls_skipSemicolons_bind (fun count => hread (count + 1)) fun _ _ _ =>
        stalls_pure _ _ _

theorem staysViable_bodyOf {statement : Parser Expr} (hstatement : StaysViable .statement statement)
    (hreads : Reads statement (Phrase .statement)) : StaysViable .body (bodyOf statement) := by
  intro ts
  refine stalls_expectMark_bind (.of_phrase emptyBody List.nil_prefix) fun _ _ => ?_
  refine stalls_skipSemicolons_bind (fun count => ?_) fun count rest _ => ?_
  · exact .of_phrase (.body count .noStatements) (by simp)
  · have hread : ∀ w, Viable .statements w →
        Viable .body (.mark .openBrace :: (semicolons count ++ w)) := by
      rintro w ⟨us, es, ⟨d⟩⟩
      exact .of_phrase (.body count d) (by simp)
    refine stalls_many_bind carries_statements (reads_nextStatement hreads)
      (fun _ _ _ => StatementStep.length_lt) (stalls_nextStatement hstatement hreads)
      (fun w hw => hread w hw.1) fun es us rest hus => ?_
    refine stalls_expectMark_bind ?_ fun _ _ => stalls_pure _ _ _
    rw [List.append_nil]
    exact hread us hus.1

theorem staysViable_statementOf {expr : Parser Expr} (hexpr : StaysViable .expr expr) :
    StaysViable .statement (statementOf expr) := by
  have hplain : ∀ ts, Stalls expr ts (Viable .statement) := by
    refine fun ts => (hexpr ts).mono ?_
    rintro w ⟨us, e, ⟨d⟩⟩
    exact .of_phrase (.expression d) (by simp)
  have hbehind : ∀ (t t' : Token) (build : Expr → Expr) (ts : List Token),
      (∀ us, Viable .expr us → Viable .statement (t :: t' :: us)) →
      Stalls (do let _ ← advance; let _ ← advance; return build (← expr)) (t :: t' :: ts)
        (Viable .statement) := by
    intro t t' build ts hread
    exact stalls_advance_bind (stalls_advance_bind (((hexpr ts).mono hread).bind_pure build))
  intro ts
  refine stalls_peek_bind viable_statement_nil ?_
  match ts with
  | .name name :: ts =>
    have hsecond : Stalls (peekAhead 1) (.name name :: ts) (Viable .statement) := by
      refine stalls_peekAhead fun hshort => ?_
      -- the name is all there is
      obtain rfl : ts = [] := List.eq_nil_of_length_eq_zero (by simpa using hshort)
      exact viable_statement_name name
    refine hsecond.bind (reads_peekAhead 1) ?_
    rintro next mid ⟨rfl, rfl⟩
    refine ⟨[], rfl, ?_⟩
    match ts with
    | .mark m :: ts =>
      cases m with
      | define =>
        refine hbehind _ _ _ _ ?_
        rintro w ⟨us, e, ⟨d⟩⟩
        exact .of_phrase (.declare name d) (by simp)
      | assign =>
        refine hbehind _ _ _ _ ?_
        rintro w ⟨us, e, ⟨d⟩⟩
        exact .of_phrase (.assign name d) (by simp)
      | _ => exact hplain _
    | [] | .bool _ :: _ | .string _ :: _ | .int _ :: _ | .name _ :: _ => exact hplain _
  | [] | .mark _ :: _ | .bool _ :: _ | .string _ :: _ | .int _ :: _ => exact hplain _

/-! ## Operators -/

theorem chains_exprRest : Chains .orOr .conjunction fun w => ∀ l, Viable (.exprRest l) w where
  nil := fun l => .of_phrase .exprEnd List.nil_prefix
  next := fun w ⟨us, e, ⟨d⟩⟩ l => .of_phrase (.or d .exprEnd) (by simp)
  more := fun ts w e d hw l => by
    obtain ⟨us, e, ⟨ds⟩⟩ := hw (.conditional .or l e)
    exact .of_phrase (.or d ds) (by simp)

theorem chains_conjunctionRest :
    Chains .andAnd .comparison fun w => ∀ l, Viable (.conjunctionRest l) w where
  nil := fun l => .of_phrase .conjunctionEnd List.nil_prefix
  next := fun w ⟨us, e, ⟨d⟩⟩ l => .of_phrase (.and d .conjunctionEnd) (by simp)
  more := fun ts w e d hw l => by
    obtain ⟨us, e, ⟨ds⟩⟩ := hw (.conditional .and l e)
    exact .of_phrase (.and d ds) (by simp)

theorem staysViable_exprOf {conjunction : Parser Expr}
    (h : StaysViable .conjunction conjunction) (hreads : Reads conjunction (Phrase .conjunction)) :
    StaysViable .expr (conditionalChain .or .orOr conjunction) := by
  intro ts
  refine chains_exprRest.stalls_operands h hreads ?_ ?_
  · rintro w ⟨us, e, ⟨d⟩⟩
    exact .of_phrase (.expr d .exprEnd) (by simp)
  · intro ts w l d hw
    obtain ⟨us, e, ⟨ds⟩⟩ := hw l
    exact .of_phrase (.expr d ds) (by simp)

theorem staysViable_conjunctionOf {comparison : Parser Expr}
    (h : StaysViable .comparison comparison) (hreads : Reads comparison (Phrase .comparison)) :
    StaysViable .conjunction (conditionalChain .and .andAnd comparison) := by
  intro ts
  refine chains_conjunctionRest.stalls_operands h hreads ?_ ?_
  · rintro w ⟨us, e, ⟨d⟩⟩
    exact .of_phrase (.conjunction d .conjunctionEnd) (by simp)
  · intro ts w l d hw
    obtain ⟨us, e, ⟨ds⟩⟩ := hw l
    exact .of_phrase (.conjunction d ds) (by simp)

theorem staysViable_comparisonOf {sum : Parser Expr} (hsum : StaysViable .sum sum)
    (hreads : Reads sum (Phrase .sum)) : StaysViable .comparison (comparisonOf sum) := by
  intro ts
  refine hsum.bind hreads ?_ fun us l rest dleft => ?_
  · rintro w ⟨us, e, ⟨d⟩⟩
    exact .of_phrase (.plainSum d) (by simp)
  · refine stalls_peek_bind (.of_phrase (.plainSum dleft) (by simp)) ?_
    cases rest with
    | nil => exact stalls_pure _ _ _
    | cons t rest =>
      cases hop : comparison? t with
      | none =>
        simp only [List.head?_cons, Option.bind_some, hop]
        exact stalls_pure _ _ _
      | some op =>
        obtain ⟨rfl, hlevel⟩ := comparison?_sound hop
        simp only [List.head?_cons, Option.bind_some, hop]
        refine stalls_advance_bind (((hsum rest).mono ?_).bind_pure _)
        rintro w ⟨vs, r, ⟨dright⟩⟩
        exact .of_phrase (.compare op hlevel dleft dright) (by simp)

theorem stalls_nextOperand {level : Operator.Level} {operator? : Token → Option Operator}
    (hoperator : ∀ ⦃t op⦄, operator? t = some op → t = .mark op.mark ∧ op.level = level)
    {operand : Parser Expr} {category : Category} (hoperand : StaysViable category operand)
    (h : V []) (hnext : ∀ (op : Operator) (w : List Token), op.level = level → Viable category w →
      V (.mark op.mark :: w)) :
    Stalls (nextOperand operator? operand) ts V := by
  refine stalls_peek_bind h ?_
  cases ts with
  | nil => exact stalls_pure _ _ _
  | cons t ts =>
    cases hop : operator? t with
    | none =>
      simp only [List.head?_cons, Option.bind_some, hop]
      exact stalls_pure _ _ _
    | some op =>
      obtain ⟨rfl, hlevel⟩ := hoperator hop
      simp only [List.head?_cons, Option.bind_some, hop]
      exact stalls_advance_bind (((hoperand ts).mono (hnext op · hlevel)).bind_pure _)

theorem carries_termRest :
    Carries (OperandStep .term (Phrase .unary)) fun _ w => ∀ l, Viable (.termRest l) w where
  stop := by
    rintro ts rest rfl
    exact ⟨[], rfl, fun l => .of_phrase .termEnd List.nil_prefix⟩
  more := by
    rintro ts mid ⟨op, r⟩ ⟨hlevel, _, rfl, us, rfl, ⟨d⟩⟩
    refine ⟨.mark op.mark :: us, rfl, fun w hw l => ?_⟩
    obtain ⟨vs, e, ⟨ds⟩⟩ := hw (.binary op l r)
    exact .of_phrase (.factor op hlevel d ds) (by simp)

theorem stalls_factors {unary : Parser Expr} (hunary : StaysViable .unary unary)
    (hreads : Reads unary (Phrase .unary)) (ts : List Token) :
    Stalls (many (nextOperand multiplicative? unary)) ts fun w => ∀ l, Viable (.termRest l) w := by
  refine stalls_many carries_termRest
    (reads_nextOperand (fun _ _ => multiplicative?_sound) hreads) (fun ts => ?_) ts
  refine stalls_nextOperand (fun _ _ => multiplicative?_sound) hunary ?_ ?_
  · exact fun l => .of_phrase .termEnd List.nil_prefix
  · rintro op w hlevel ⟨us, r, ⟨d⟩⟩ l
    exact .of_phrase (.factor op hlevel d .termEnd) (by simp)

theorem staysViable_termFromOf {unary : Parser Expr} (hunary : StaysViable .unary unary)
    (hreads : Reads unary (Phrase .unary)) (first : Expr) :
    StaysViable (.termRest first) (termFromOf unary first) := fun ts =>
  ((stalls_factors hunary hreads ts).mono fun _ hw => hw first).bind_pure _

theorem staysViable_termOf {unary : Parser Expr} (hunary : StaysViable .unary unary)
    (hreads : Reads unary (Phrase .unary)) :
    StaysViable .term (unary >>= termFromOf unary) := by
  intro ts
  refine hunary.bind hreads ?_ fun us l rest d => ?_
  · rintro w ⟨us, e, ⟨d⟩⟩
    exact .of_phrase (.term d .termEnd) (by simp)
  · refine (staysViable_termFromOf hunary hreads l rest).mono ?_
    rintro w ⟨vs, e, ⟨ds⟩⟩
    exact .of_phrase (.term d ds) (by simp)

theorem carries_sumRest : Carries SummandStep fun _ w => ∀ l, Viable (.sumRest l) w where
  stop := by
    rintro ts rest rfl
    exact ⟨[], rfl, fun l => .of_phrase .sumEnd List.nil_prefix⟩
  more := by
    rintro ts mid ⟨op, r⟩ (⟨hlevel, _, rfl, us, rfl, ⟨d⟩⟩ | ⟨rfl, n, _, hn, rfl, us, rfl, ⟨d⟩⟩)
    · refine ⟨.mark op.mark :: us, rfl, fun w hw l => ?_⟩
      obtain ⟨vs, e, ⟨ds⟩⟩ := hw (.binary op l r)
      exact .of_phrase (.sign op hlevel d ds) (by simp)
    · refine ⟨.int n :: us, rfl, fun w hw l => ?_⟩
      obtain ⟨vs, e, ⟨ds⟩⟩ := hw (.binary .add l r)
      exact .of_phrase (.negative n hn d ds) (by simp)

theorem stalls_nextSummand {term : Parser Expr} {termFrom : Expr → Parser Expr}
    (hterm : StaysViable .term term)
    (htermFrom : ∀ first, StaysViable (.termRest first) (termFrom first)) :
    Stalls (nextSummand term termFrom) ts fun w => ∀ l, Viable (.sumRest l) w := by
  have hnil : ∀ l, Viable (.sumRest l) [] := fun l => .of_phrase .sumEnd List.nil_prefix
  have hsign : ∀ ts, Stalls (nextOperand additive? term) ts fun w =>
      ∀ l, Viable (.sumRest l) w := by
    intro ts
    refine stalls_nextOperand (fun _ _ => additive?_sound) hterm hnil ?_
    rintro op w hlevel ⟨us, r, ⟨d⟩⟩ l
    exact .of_phrase (.sign op hlevel d .sumEnd) (by simp)
  refine stalls_peek_bind hnil ?_
  match ts with
  | .int n :: ts =>
    by_cases hn : n < 0
    · simp only [List.head?_cons, if_pos hn]
      refine stalls_advance_bind (((htermFrom _ ts).mono ?_).bind_pure _)
      rintro w ⟨us, r, ⟨d⟩⟩ l
      exact .of_phrase (.negative n hn d .sumEnd) (by simp)
    · simp only [List.head?_cons, if_neg hn]
      exact stalls_pure _ _ _
  | [] | .mark _ :: _ | .bool _ :: _ | .string _ :: _ | .name _ :: _ => exact hsign _

theorem staysViable_sumOf {term : Parser Expr} {termFrom : Expr → Parser Expr}
    (hterm : StaysViable .term term) (hreads : Reads term (Phrase .term))
    (htermFrom : ∀ first, StaysViable (.termRest first) (termFrom first))
    (hreadsFrom : ∀ first, Reads (termFrom first) (Phrase (.termRest first))) :
    StaysViable .sum (sumOf term termFrom) := by
  intro ts
  refine hterm.bind hreads ?_ fun us l rest d => ?_
  · rintro w ⟨us, e, ⟨d⟩⟩
    exact .of_phrase (.sum d .sumEnd) (by simp)
  · have hloop := stalls_many carries_sumRest (reads_nextSummand hreads hreadsFrom)
      (fun ts => stalls_nextSummand hterm htermFrom) rest
    refine (hloop.mono fun w hw => ?_).bind_pure _
    obtain ⟨vs, e, ⟨ds⟩⟩ := hw l
    exact .of_phrase (.sum d ds) (by simp)

/-! ## Operands -/

theorem chains_moreArguments : Chains .comma .expr (Viable .moreArguments) where
  nil := .of_phrase .lastArgument List.nil_prefix
  next := fun w ⟨us, e, ⟨d⟩⟩ => .of_phrase (.nextArgument d .lastArgument) (by simp)
  more := fun ts w e d ⟨us, es, ⟨ds⟩⟩ => .of_phrase (.nextArgument d ds) (by simp)

theorem staysViable_argumentsOf {expr : Parser Expr} (hexpr : StaysViable .expr expr)
    (hreads : Reads expr (Phrase .expr)) : StaysViable .arguments (commaSeparated expr) := by
  intro ts
  refine stalls_commaSeparated chains_moreArguments hexpr hreads ?_ ?_ ?_
  · exact .of_phrase .noArguments List.nil_prefix
  · rintro w ⟨us, e, ⟨d⟩⟩
    exact .of_phrase (.someArguments d .lastArgument) (by simp)
  · rintro ts w e d ⟨us, es, ⟨ds⟩⟩
    exact .of_phrase (.someArguments d ds) (by simp)

/-- What stands behind a mark with nothing to follow, or something else where the mark is not next.
-/
theorem stalls_afterMark_bind {m : Mark} {next : Parser α} {b : α → β} {f : Option α → Parser β}
    {R : List Token → α → List Token → Prop} (hreads : Reads next R)
    (hsuffix : ∀ ⦃mid a rest⦄, R mid a rest → rest <:+ mid) (h : W [])
    (hnext : ∀ mid, Stalls next mid fun us => W (.mark m :: us))
    (hsome : ∀ a, f (some a) = pure (b a))
    (hnone : ts.head? ≠ some (.mark m) → Stalls (f none) ts W) :
    Stalls (afterMark m next >>= f) ts W := by
  refine (stalls_afterMark h fun mid _ => hnext mid).bind (reads_afterMark m hreads) ?_
  intro found rest hfound
  cases found with
  | none =>
    obtain ⟨hopen, rfl⟩ := hfound
    exact ⟨[], rfl, hnone hopen⟩
  | some a =>
    obtain ⟨mid, rfl, hread⟩ := hfound
    obtain ⟨us, rfl⟩ := hsuffix hread
    rw [hsome]
    exact ⟨.mark m :: us, rfl, stalls_pure _ _ _⟩

theorem staysViable_unaryOf {unary primary : Parser Expr} (hunary : StaysViable .unary unary)
    (hreads : Reads unary (Phrase .unary)) (hprimary : StaysViable .primary primary) :
    StaysViable .unary (unaryOf unary primary) := by
  intro ts
  refine stalls_afterMark_bind hreads (fun _ _ _ => Phrase.suffix) ?_ (fun mid => ?_)
    (fun _ => rfl) fun _ => ?_
  · exact .of_phrase (.plainPrimary .unit) List.nil_prefix
  · refine (hunary mid).mono ?_
    rintro w ⟨us, e, ⟨d⟩⟩
    exact .of_phrase (.not d) (by simp)
  · refine (hprimary ts).mono ?_
    rintro w ⟨us, e, ⟨d⟩⟩
    exact .of_phrase (.plainPrimary d) (by simp)

theorem staysViable_primaryOf {arguments body : Parser (List Expr)}
    {parenthesised ifElse : Parser Expr} (harguments : StaysViable .arguments arguments)
    (hreads : Reads arguments (Phrase .arguments))
    (hparenthesised : StaysViable .primary parenthesised) (hbody : StaysViable .body body)
    (hif : StaysViable .ifElse ifElse) :
    StaysViable .primary (primaryOf arguments parenthesised body ifElse) := by
  have hnil : Viable .primary [] := .of_phrase .unit List.nil_prefix
  intro ts
  refine stalls_peek_bind hnil ?_
  match ts with
  | [] => exact stalls_fail _ hnil
  | .int _ :: _ | .string _ :: _ | .bool _ :: _ => exact stalls_advance_bind (stalls_pure _ _ _)
  | .name name :: ts =>
    refine stalls_advance_bind (stalls_afterMark_bind hreads (fun _ _ _ => Phrase.suffix) ?_
      (fun mid => ?_) (fun _ => rfl) fun _ => stalls_pure _ _ _)
    · exact .of_phrase (.name name) (List.prefix_refl _)
    · refine (harguments mid).mono ?_
      rintro w ⟨us, es, ⟨d⟩⟩
      exact .of_phrase (.call name d) (by simp)
  | .mark m :: ts =>
    cases m with
    | openParen => exact hparenthesised _
    | openBrace =>
      refine ((hbody _).mono ?_).bind_pure _
      rintro w ⟨us, es, ⟨d⟩⟩
      exact .of_phrase (.block d) (by simp)
    | ifWord =>
      refine (hif _).mono ?_
      rintro w ⟨us, e, ⟨d⟩⟩
      exact .of_phrase (.condition d) (by simp)
    | _ => exact stalls_fail _ hnil

/-! ## Tuples and conditions -/

theorem carries_moreItems : Carries ItemStep fun _ => Viable .moreItems where
  stop := by
    rintro ts rest (rfl | ⟨rfl, _⟩)
    · exact ⟨[], rfl, .of_phrase .lastItem List.nil_prefix⟩
    · exact ⟨[_], rfl, .of_phrase (.furtherItems .trailingComma) (List.prefix_refl _)⟩
  more := by
    rintro ts mid e ⟨_, rfl, us, rfl, ⟨d⟩⟩
    refine ⟨.mark .comma :: us, rfl, ?_⟩
    rintro w ⟨vs, es, ⟨ds⟩⟩
    exact .of_phrase (.furtherItems (.nextItem d ds)) (by simp)

theorem staysViable_nextItem {expr : Parser Expr} (hexpr : StaysViable .expr expr) :
    StaysViable .moreItems (nextItem expr) := by
  intro ts
  refine stalls_isAtMark_bind (.of_phrase .lastItem List.nil_prefix) (fun rest hts => ?_) fun _ =>
    stalls_pure _ _ _
  subst hts
  refine stalls_advance_bind (stalls_isAtMark_bind ?_ (fun _ _ => stalls_pure _ _ _) fun _ => ?_)
  · exact .of_phrase (.furtherItems .trailingComma) (List.prefix_refl _)
  · refine ((hexpr rest).mono ?_).map some
    rintro w ⟨us, e, ⟨d⟩⟩
    exact .of_phrase (.furtherItems (.nextItem d .lastItem)) (by simp)

theorem staysViable_parenthesisedOf {expr : Parser Expr} (hexpr : StaysViable .expr expr)
    (hreads : Reads expr (Phrase .expr)) : StaysViable .primary (parenthesisedOf expr) := by
  intro ts
  refine stalls_expectMark_bind (.of_phrase .unit List.nil_prefix) fun _ _ => ?_
  refine stalls_afterMark_bind reads_unit ?_ (.of_phrase .unit (by simp))
    (fun _ => stalls_pure _ _ _) (fun _ => rfl) fun _ => ?_
  · rintro mid _ rest rfl
    exact List.suffix_refl _
  refine hexpr.bind hreads ?_ fun us e _ d => ?_
  · rintro w ⟨us, e, ⟨d⟩⟩
    exact .of_phrase (.group d) (by simp)
  refine stalls_afterMark_bind reads_unit ?_ (.of_phrase (.group d) (by simp))
    (fun _ => stalls_pure _ _ _) (fun _ => rfl) fun _ => ?_
  · rintro mid _ rest rfl
    exact List.suffix_refl _
  have hread : ∀ w, Viable .moreItems w → Viable .primary (.mark .openParen :: (us ++ w)) := by
    rintro w ⟨vs, es, ds⟩
    obtain ⟨x, ⟨dx⟩⟩ := ds.exists_primary ⟨d⟩
    exact .of_phrase dx (by simp)
  refine stalls_many_bind carries_moreItems (reads_nextItem hreads)
    (fun _ _ _ => ItemStep.length_lt) (staysViable_nextItem hexpr) hread fun es vs _ hvs => ?_
  refine stalls_expectMark_bind ?_ fun _ _ => stalls_pure _ _ _
  rw [List.append_nil]
  exact hread vs hvs

theorem staysViable_ifElseOf {expr : Parser Expr} {body : Parser (List Expr)}
    {ifElse : Parser Expr} (hexpr : StaysViable .expr expr) (hreads : Reads expr (Phrase .expr))
    (hbody : StaysViable .body body) (hreadsBody : Reads body (Phrase .body))
    (hif : StaysViable .ifElse ifElse) : StaysViable .ifElse (ifElseOf expr body ifElse) := by
  intro ts
  refine stalls_expectMark_bind viable_ifElse_nil fun _ _ => ?_
  refine hexpr.bind hreads ?_ fun us c _ dcondition => ?_
  · rintro w ⟨us, c, ⟨d⟩⟩
    exact .of_phrase (.ifOnly d emptyBody) (by simp)
  refine hbody.bind hreadsBody ?_ fun vs es rest dthen => ?_
  · rintro w ⟨vs, es, ⟨d⟩⟩
    exact .of_phrase (.ifOnly dcondition d) (by simp)
  refine (stalls_afterMark ?_ fun mid _ => ?_).bind_pure _
  · exact .of_phrase (.ifOnly dcondition dthen) (by simp)
  · refine stalls_isAtMark_bind ?_ (fun _ _ => ?_) fun _ => ?_
    · exact .of_phrase (.ifElse dcondition dthen emptyBody) (by simp)
    · refine ((hif mid).mono ?_).bind_pure _
      rintro w ⟨ws, e, ⟨d⟩⟩
      exact .of_phrase (.elseIf dcondition dthen d) (by simp)
    · refine (hbody mid).mono ?_
      rintro w ⟨ws, fs, ⟨d⟩⟩
      exact .of_phrase (.ifElse dcondition dthen d) (by simp)

/-! ## The recursion -/

/-- What the parsers with a budget have read when they fail can be gone on with. -/
structure StayViable (budget : Nat) : Prop where
  body : StaysViable .body (body budget)
  statement : StaysViable .statement (statement budget)
  expr : StaysViable .expr (expr budget)
  conjunction : StaysViable .conjunction (conjunction budget)
  comparison : StaysViable .comparison (comparison budget)
  sum : StaysViable .sum (sum budget)
  term : StaysViable .term (term budget)
  termFrom (first : Expr) : StaysViable (.termRest first) (termFrom budget first)
  unary : StaysViable .unary (unary budget)
  primary : StaysViable .primary (primary budget)
  arguments : StaysViable .arguments (arguments budget)
  parenthesised : StaysViable .primary (parenthesised budget)
  ifElse : StaysViable .ifElse (ifElse budget)

theorem stayViable (budget : Nat) : StayViable budget := by
  induction budget with
  | zero => constructor <;> intros <;> exact fun ts => stalls_tooDeep ts _
  | succ n ih =>
    have hreads := readsPhrases n
    exact {
      body := staysViable_bodyOf ih.statement hreads.statement
      statement := statement_cases (fun ts => stalls_tooDeep ts _) fun _ =>
        staysViable_statementOf ih.expr
      expr := staysViable_exprOf ih.conjunction hreads.conjunction
      conjunction := staysViable_conjunctionOf ih.comparison hreads.comparison
      comparison := staysViable_comparisonOf ih.sum hreads.sum
      sum := staysViable_sumOf ih.term hreads.term ih.termFrom hreads.termFrom
      term := staysViable_termOf ih.unary hreads.unary
      termFrom := staysViable_termFromOf ih.unary hreads.unary
      unary := staysViable_unaryOf ih.unary hreads.unary ih.primary
      primary := staysViable_primaryOf ih.arguments hreads.arguments ih.parenthesised ih.body
        ih.ifElse
      arguments := staysViable_argumentsOf ih.expr hreads.expr
      parenthesised := staysViable_parenthesisedOf ih.expr hreads.expr
      ifElse := staysViable_ifElseOf ih.expr hreads.expr ih.body hreads.body ih.ifElse }

/-- What has been read of a program that cannot be read is the beginning of a program. -/
theorem staysViable_program (budget : Nat) : StaysViable .program (program budget) := by
  match budget with
  | 0 => exact fun ts => stalls_tooDeep ts _
  | 1 => exact staysViable_programOf (fun ts => stalls_tooDeep ts _) (reads_tooDeep _)
  | n + 2 =>
    exact staysViable_programOf (staysViable_functionOf (stayViable n).body)
      (reads_functionOf (readsPhrases n).body)

end Parser
end Scriptlet
