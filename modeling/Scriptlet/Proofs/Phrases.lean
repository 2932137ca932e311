import Scriptlet.Proofs.Grammar

/-!
# Where phrases begin and end

The grammar is read from left to right with one token of lookahead, two behind a name.  That this is
enough rests on two observations about phrases.

A phrase shows by its first token what it is: `Category.Begins` lists the tokens that phrases of a
category can begin with, and the categories whose phrases can be empty are `Category.nullable`.

A phrase is over where no token follows that could go on with it.  Tokens that go on with an
expression have a rank, lowest for the one that binds closest, an opening parenthesis behind a name;
a phrase ends before a token of higher rank than its own operators have, and `Closes` says so.  The
two marks of a declaration and an assignment come behind all operators, because only a statement has
to look out for them.
-/

namespace Scriptlet

/-! ## First tokens -/

/-- Whether an expression can begin with the token. -/
def Token.opens : Token → Bool
  | .bool _ | .string _ | .int _ | .name _ => true
  | .mark .openParen | .mark .openBrace | .mark .ifWord | .mark .bang => true
  | .mark _ => false

/-- How far a token that goes on with an expression reaches back: the higher the rank, the more of
what stands before it belongs to its left operand. -/
def Token.rank : Token → Nat
  | .mark .openParen | .mark .elseWord => 0
  | .mark .star | .mark .slash | .mark .percent => 1
  | .mark .plus | .mark .minus => 2
  | .int n => if n < 0 then 2 else 7
  | .mark .equals | .mark .notEquals | .mark .less | .mark .lessEquals => 3
  | .mark .greater | .mark .greaterEquals => 3
  | .mark .andAnd => 4
  | .mark .orOr => 5
  | .mark .define | .mark .assign => 6
  | _ => 7

/-- The rank of the operators of a rule. -/
def Operator.Level.rank : Operator.Level → Nat
  | .term => 1
  | .sum => 2
  | .comparison => 3

theorem Operator.rank_mark (op : Operator) : (Token.mark op.mark).rank = op.level.rank := by
  cases op <;> rfl

namespace Grammar

namespace Category

/-- Whether a phrase of the category can be empty. -/
def nullable : Category → Bool
  | .program | .functions | .statements | .moreStatements | .moreItems => true
  | .exprRest _ | .conjunctionRest _ | .sumRest _ | .termRest _ => true
  | _ => false

/-- Whether a phrase of the category can begin with the token. -/
def Begins : Category → Token → Prop
  | .program, t => t = .mark .semicolon ∨ t = .mark .func
  | .functions, t | .function, t => t = .mark .func
  | .params, t => t = .mark .closeParen ∨ ∃ name, t = .name name
  | .moreParams, t | .moreArguments, t => t = .mark .closeParen ∨ t = .mark .comma
  | .param, t => ∃ name, t = .name name
  | .body, t => t = .mark .openBrace
  | .moreStatements, t => t = .mark .semicolon
  | .exprRest _, t => t = .mark .orOr
  | .conjunctionRest _, t => t = .mark .andAnd
  | .sumRest _, t => t.rank = 2
  | .termRest _, t => t.rank = 1
  | .arguments, t => t = .mark .closeParen ∨ t.opens = true
  | .items, t | .moreItems, t => t = .mark .comma
  | .ifElse, t => t = .mark .ifWord
  | .statements, t | .statement, t | .expr, t | .conjunction, t | .comparison, t => t.opens = true
  | .sum, t | .term, t | .unary, t => t.opens = true
  | .primary, t => t.opens = true ∧ t ≠ .mark .bang

end Category

variable {c : Category} {ts : List Token} {x : c.Tree}

/-- Tokens that are a phrase of a category: none, or a token that the category begins with. -/
def Starts (c : Category) (ts : List Token) : Prop :=
  (ts = [] ∧ c.nullable = true) ∨ ∃ t us, ts = t :: us ∧ c.Begins t

theorem Starts.cons {t : Token} (us : List Token) (h : c.Begins t) : Starts c (t :: us) :=
  Or.inr ⟨t, us, rfl, h⟩

/-- A phrase that begins with a non-empty phrase begins as that one does. -/
theorem Starts.append {c' : Category} (h : Starts c' ts) (us : List Token)
    (hfilled : c'.nullable = false) (hbegins : ∀ t, c'.Begins t → c.Begins t) :
    Starts c (ts ++ us) := by
  rcases h with ⟨_, hempty⟩ | ⟨t, left, rfl, ht⟩
  · rw [hfilled] at hempty
    cases hempty
  · exact .cons _ (hbegins t ht)

theorem Starts.mono {c' : Category} (h : Starts c' ts) (hnull : c'.nullable = c.nullable)
    (hbegins : ∀ t, c'.Begins t → c.Begins t) : Starts c ts := by
  rcases h with ⟨rfl, hempty⟩ | ⟨t, left, rfl, ht⟩
  · exact Or.inl ⟨rfl, hnull ▸ hempty⟩
  · exact .cons _ (hbegins t ht)

theorem Derivation.starts (d : Derivation c ts x) : Starts c ts := by
  induction d with
  | program count _ ih =>
    cases count with
    | zero => exact ih.mono rfl fun t ht => Or.inr ht
    | succ count => exact .cons _ (Or.inl rfl)
  | noFunctions | noStatements | exprEnd | conjunctionEnd | sumEnd | termEnd | lastItem =>
    exact Or.inl ⟨rfl, rfl⟩
  | someFunctions _ _ _ ih _ => exact ih.append _ rfl fun t ht => ht
  | function => exact .cons _ rfl
  | noParams => exact .cons _ (Or.inl rfl)
  | someParams _ _ ih _ => exact ih.append _ rfl fun t ht => Or.inr ht
  | lastParam => exact .cons _ (Or.inl rfl)
  | nextParam => exact .cons _ (Or.inr rfl)
  | plainParam name | annotatedParam name => exact .cons _ ⟨name, rfl⟩
  | body => exact .cons _ rfl
  | someStatements _ _ ih _ => exact ih.append _ rfl fun t ht => ht
  | lastStatement count =>
    cases count with
    | zero => exact Or.inl ⟨rfl, rfl⟩
    | succ count => exact .cons _ rfl
  | nextStatement => exact .cons _ rfl
  | declare | assign => exact .cons _ rfl
  | expression _ ih | plainSum _ ih => exact ih.mono rfl fun t ht => ht
  | plainPrimary _ ih => exact ih.mono rfl fun t ht => ht.1
  | expr _ _ ih _ | conjunction _ _ ih _ | sum _ _ ih _ | term _ _ ih _ =>
    exact ih.append _ rfl fun t ht => ht
  | or | and => exact .cons _ rfl
  | compare _ _ _ _ ih _ => exact ih.append _ rfl fun t ht => ht
  | sign op h => exact .cons _ (by rw [Category.Begins, op.rank_mark, h]; rfl)
  | negative n h => exact .cons _ (if_pos h)
  | factor op h => exact .cons _ (by rw [Category.Begins, op.rank_mark, h]; rfl)
  | not => exact .cons _ rfl
  | int | string | bool | name | call | unit | group | tuple => exact .cons _ ⟨rfl, by simp⟩
  | block _ ih => exact ih.mono rfl fun t ht => by rw [ht]; exact ⟨rfl, by simp⟩
  | condition _ ih => exact ih.mono rfl fun t ht => by rw [ht]; exact ⟨rfl, by simp⟩
  | noArguments => exact .cons _ (Or.inl rfl)
  | someArguments _ _ ih _ => exact ih.append _ rfl fun t ht => Or.inr ht
  | lastArgument => exact .cons _ (Or.inl rfl)
  | nextArgument => exact .cons _ (Or.inr rfl)
  | trailingComma | nextItem => exact .cons _ rfl
  | furtherItems _ ih =>
    rcases ih with ⟨_, hempty⟩ | ⟨t, left, rfl, ht⟩
    · cases hempty
    · exact .cons _ ht
  | ifOnly | ifElse | elseIf => exact .cons _ rfl

theorem Derivation.ne_nil (d : Derivation c ts x) (hfilled : c.nullable = false) : ts ≠ [] := by
  rcases d.starts with ⟨_, hempty⟩ | ⟨t, us, rfl, _⟩
  · rw [hfilled] at hempty
    cases hempty
  · exact List.cons_ne_nil _ _

/-- The first token of a phrase that is not empty is one that the category begins with. -/
theorem Derivation.begins (d : Derivation c ts x) {t : Token} (h : t ∈ ts.head?) :
    c.Begins t := by
  rcases d.starts with ⟨rfl, _⟩ | ⟨t', us, rfl, ht⟩
  · cases h
  · obtain rfl : t' = t := by simpa using h
    exact ht

/-- A token that the category does not begin with is not next where a phrase is, unless the phrase
is empty and the token follows. -/
theorem Derivation.head?_ne (d : Derivation c ts x) {rest : List Token} {t : Token}
    (hbegins : ¬c.Begins t) (hrest : c.nullable = true → rest.head? ≠ some t) :
    (ts ++ rest).head? ≠ some t := by
  intro hhead
  rcases d.starts with ⟨rfl, hempty⟩ | ⟨t', us, rfl, ht⟩
  · exact hrest hempty hhead
  · obtain rfl : t' = t := by simpa using hhead
    exact hbegins ht

theorem Derivation.head?_ne_of_filled (d : Derivation c ts x) (hfilled : c.nullable = false)
    {t : Token} (hbegins : ¬c.Begins t) (rest : List Token) : (ts ++ rest).head? ≠ some t := by
  refine d.head?_ne hbegins fun hempty => ?_
  rw [hfilled] at hempty
  cases hempty

/-! ## What may follow -/

/-- No token of a lower rank is next. -/
def Closes (rank : Nat) (rest : List Token) : Prop :=
  ∀ t ∈ rest.head?, rank ≤ t.rank

variable {rank : Nat} {rest : List Token}

theorem closes_nil (rank : Nat) : Closes rank [] := by
  intro t ht
  cases ht

theorem closes_cons {t : Token} (ts : List Token) (h : rank ≤ t.rank) : Closes rank (t :: ts) := by
  intro t' ht
  obtain rfl : t = t' := by simpa using ht
  exact h

theorem Closes.mono {rank' : Nat} (h : Closes rank rest) (hle : rank' ≤ rank) :
    Closes rank' rest :=
  fun t ht => Nat.le_trans hle (h t ht)

/-- A rank that no first token of the category is below. -/
def Category.startRank : Category → Nat
  | .termRest _ => 1
  | .sumRest _ => 2
  | .conjunctionRest _ => 4
  | .exprRest _ => 5
  | .body | .moreStatements | .moreArguments | .items | .moreItems => 7
  | _ => 0

theorem Category.Begins.startRank_le {t : Token} (h : c.Begins t) : c.startRank ≤ t.rank := by
  cases c with
  | exprRest | conjunctionRest | body | moreStatements | items | moreItems =>
    rw [Category.Begins] at h
    rw [h]
    exact Nat.le_refl _
  | sumRest | termRest => exact Nat.le_of_eq (Eq.symm h)
  | moreArguments => rcases h with rfl | rfl <;> exact Nat.le_refl _
  | _ => exact Nat.zero_le _

/-- A phrase closes what stands before it by its first token, or by what follows if it is empty. -/
theorem Derivation.closes (d : Derivation c ts x)
    (h : c.nullable = true → Closes c.startRank rest) : Closes c.startRank (ts ++ rest) := by
  rcases d.starts with ⟨rfl, hempty⟩ | ⟨t, us, rfl, ht⟩
  · exact h hempty
  · exact closes_cons _ ht.startRank_le

theorem Derivation.closes_self (d : Derivation c ts x) : Closes c.startRank ts := by
  have hcloses := d.closes fun _ => closes_nil _
  rwa [List.append_nil] at hcloses

/-- Where a phrase begins with a token that goes on with nothing, the expression before it is over.
-/
theorem Derivation.closes_expr (d : Derivation c ts x) (hrank : c.startRank = 7)
    (h : c.nullable = true → Closes 7 rest) : Closes 6 (ts ++ rest) := by
  have hcloses := d.closes (by rw [hrank]; exact h)
  rw [hrank] at hcloses
  exact hcloses.mono (Nat.le_succ 6)

theorem Derivation.closes_expr_self (d : Derivation c ts x) (hrank : c.startRank = 7) :
    Closes 6 ts := by
  have hcloses := d.closes_expr hrank fun _ => closes_nil 7
  rwa [List.append_nil] at hcloses

theorem Closes.head?_ne {t : Token} (h : Closes rank rest) (ht : t.rank < rank) :
    rest.head? ≠ some t := by
  intro hhead
  have hle := h t hhead
  omega

/-! ## Between two phrases -/

section Between

variable {op : Operator} {e : Expr} {es : List Expr} {p : Param} {ps : List Param} {fs : Program}

theorem head?_functions_ne_semicolon (d : Derivation .functions ts fs) :
    ts.head? ≠ some (.mark .semicolon) := by
  rw [← List.append_nil ts]
  exact d.head?_ne (fun hbegins => by cases hbegins) fun _ => by simp

theorem head?_param_ne_closeParen (d : Derivation .param ts p) (rest : List Token) :
    (ts ++ rest).head? ≠ some (.mark .closeParen) := by
  refine d.head?_ne_of_filled rfl ?_ rest
  rintro ⟨name, hname⟩
  cases hname

/-- No name stands behind a parameter that is followed by others or by the end of the list. -/
theorem head?_moreParams_ne_name (d : Derivation .moreParams ts ps) (rest : List Token)
    (text : String) : (ts ++ rest).head? ≠ some (.name text) := by
  refine d.head?_ne_of_filled rfl ?_ rest
  rintro (h | h) <;> cases h

theorem head?_statements_ne_semicolon (d : Derivation .statements ts es) (rest : List Token) :
    (ts ++ .mark .closeBrace :: rest).head? ≠ some (.mark .semicolon) :=
  d.head?_ne (fun hbegins => by cases hbegins) fun _ => by simp

theorem head?_statement_ne {k : Mark} (d : Derivation .statement ts e)
    (hk : (Token.mark k).opens = false) (rest : List Token) :
    (ts ++ rest).head? ≠ some (.mark k) := by
  refine d.head?_ne_of_filled rfl (fun hbegins => ?_) rest
  rw [Category.Begins, hk] at hbegins
  cases hbegins

/-- An expression does not begin with a closing parenthesis. -/
theorem head?_expr_ne_closeParen (d : Derivation .expr ts e) (rest : List Token) :
    (ts ++ rest).head? ≠ some (.mark .closeParen) :=
  d.head?_ne_of_filled rfl (fun hbegins => by cases hbegins) rest

theorem head?_items_ne_closeParen (d : Derivation .items ts es) (rest : List Token) :
    (ts ++ rest).head? ≠ some (.mark .closeParen) :=
  d.head?_ne_of_filled rfl (fun hbegins => by cases hbegins) rest

/-- What follows an argument closes it. -/
theorem closes_moreArguments (d : Derivation .moreArguments ts es) (rest : List Token) :
    Closes 6 (ts ++ rest) :=
  d.closes_expr rfl fun hempty => by cases hempty

/-- Items of a tuple begin with a comma, which closes the expression before them. -/
theorem closes_items (d : Derivation .items ts es) (rest : List Token) : Closes 6 (ts ++ rest) :=
  d.closes_expr rfl fun hempty => by cases hempty

/-- A body closes the condition before it. -/
theorem closes_body (d : Derivation .body ts es) (rest : List Token) : Closes 6 (ts ++ rest) :=
  d.closes_expr rfl fun hempty => by cases hempty

/-- A comparison operator closes the sum before it. -/
theorem closes_comparison (hop : op.level = .comparison) (rest : List Token) :
    Closes 3 (.mark op.mark :: rest) := by
  refine closes_cons _ ?_
  rw [op.rank_mark, hop]
  exact Nat.le_refl _

end Between

/-! ## The second token of a statement -/

/-- Whether the phrases of the category are expressions. -/
def Category.isExpression : Category → Bool
  | .expr | .conjunction | .comparison | .sum | .term | .unary | .primary => true
  | _ => false

/-- What follows the name, where the tokens begin with one, goes on with an expression. -/
def NameGoesOn (ts : List Token) : Prop :=
  ∀ name us, ts = .name name :: us → ∀ t ∈ us.head?, t.rank < 6

theorem NameGoesOn.append {us : List Token} (h : NameGoesOn ts) (hfilled : ts ≠ [])
    (hus : ∀ t ∈ us.head?, t.rank < 6) : NameGoesOn (ts ++ us) := by
  intro name vs hvs t ht
  obtain ⟨t', left, rfl⟩ := List.exists_cons_of_ne_nil hfilled
  rw [List.cons_append, List.cons.injEq] at hvs
  obtain ⟨rfl, rfl⟩ := hvs
  cases left with
  | nil => exact hus t ht
  | cons t'' left => exact h name _ rfl t ht

theorem nameGoesOn_of_ne {t : Token} (us : List Token) (h : ∀ name, t ≠ .name name) :
    NameGoesOn (t :: us) := by
  intro name vs hvs
  exact absurd (List.cons.inj hvs).1 (h name)

/-- In an expression, no mark of a declaration or an assignment follows a name at the front. -/
theorem Derivation.nameGoesOn (d : Derivation c ts x) (hc : c.isExpression = true) :
    NameGoesOn ts := by
  induction d with
  | expr dfirst drest ih _ =>
    refine (ih rfl).append (dfirst.ne_nil rfl) fun t ht => ?_
    rw [drest.begins ht]
    decide
  | conjunction dfirst drest ih _ =>
    refine (ih rfl).append (dfirst.ne_nil rfl) fun t ht => ?_
    rw [drest.begins ht]
    decide
  | plainSum _ ih | plainPrimary _ ih => exact ih rfl
  | compare op h dleft _ ih _ =>
    refine (ih rfl).append (dleft.ne_nil rfl) fun t ht => ?_
    obtain rfl : .mark op.mark = t := by simpa using ht
    rw [op.rank_mark, h]
    decide
  | sum dfirst drest ih _ =>
    refine (ih rfl).append (dfirst.ne_nil rfl) fun t ht => ?_
    have hrank : t.rank = 2 := drest.begins ht
    omega
  | term dfirst drest ih _ =>
    refine (ih rfl).append (dfirst.ne_nil rfl) fun t ht => ?_
    have hrank : t.rank = 1 := drest.begins ht
    omega
  | name =>
    intro name us hus t ht
    obtain ⟨_, rfl⟩ : _ ∧ [] = us := by simpa using hus
    cases ht
  | call =>
    intro name us hus t ht
    obtain ⟨_, rfl⟩ := List.cons.inj hus
    obtain rfl : .mark .openParen = t := by simpa using ht
    decide
  | not | int | string | bool | unit | group | tuple =>
    exact nameGoesOn_of_ne _ fun name => by simp
  | block dbody =>
    rcases dbody.starts with ⟨_, hempty⟩ | ⟨t, us, rfl, ht⟩
    · cases hempty
    · exact nameGoesOn_of_ne _ fun name => by rw [Category.Begins] at ht; simp [ht]
  | condition dif =>
    rcases dif.starts with ⟨_, hempty⟩ | ⟨t, us, rfl, ht⟩
    · cases hempty
    · exact nameGoesOn_of_ne _ fun name => by rw [Category.Begins] at ht; simp [ht]
  | _ => cases hc

end Grammar
end Scriptlet
