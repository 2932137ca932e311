import Scriptlet.Proofs.Congruence
import Scriptlet.Proofs.RoundTrip
import Scriptlet.Proofs.Spans

/-!
# What is displayed can be read back

The text that is printed for a value is source text for it, as long as no string is in the value:
scanned, read as an expression and evaluated, it gives the value again.  So no two such values are
displayed alike.

The way of a value through the text is described by two functions on it.  `Value.tokens` is what its
text is scanned to, and `Value.quote` is the expression that these tokens are read as.

* **Scanning.**  Unlike in the canonical text of a program, there is no blank between most lexemes,
  and what separates them are commas and parentheses.  Behind an item of a tuple one of these comes,
  or the text ends (`Delimited`), and that is enough for an integer and for a bool to be read whole.
  `Scans` says what a text is scanned to; it is put together from behind, lexeme by lexeme.
* **Reading.**  A tuple of one item has its comma, which keeps it from being taken for grouping.  A
  negative integer stands behind a parenthesis or a comma and never behind an operand, and so it is
  not taken for a summand.  A tuple costs eight rules that are entered inside one another, from
  `expr` down to `parenthesised`, whatever it has in it; this is why the nesting of the value, and
  not its length, decides whether the budget is enough.
* **Evaluation.**  Literals and tuples of them touch nothing in the machine.
-/

namespace Scriptlet

open Scriptlet.Text Grammar

/-! ## Values without strings -/

namespace Value

/-- The value is built from integers of 64 bits, bools and tuples. -/
inductive StringFree : Value → Prop
  | int {n : Int} : Word64.InRange n → StringFree (.int n)
  | bool (b : Bool) : StringFree (.bool b)
  | tuple {items : List Value} : (∀ v ∈ items, StringFree v) → StringFree (.tuple items)

mutual

/-- How many tuples are inside one another. -/
def nesting : Value → Nat
  | .tuple items => nestingOfEach items + 1
  | _ => 0

/-- The deepest nesting among values. -/
def nestingOfEach : List Value → Nat
  | [] => 0
  | v :: vs => max (nesting v) (nestingOfEach vs)

end

theorem nesting_le_of_mem {v : Value} {vs : List Value} (h : v ∈ vs) :
    v.nesting ≤ nestingOfEach vs := by
  induction vs with
  | nil => exact absurd h List.not_mem_nil
  | cons w vs ih =>
    rw [nestingOfEach]
    rcases List.mem_cons.mp h with rfl | h
    · exact Nat.le_max_left _ _
    · exact Nat.le_trans (ih h) (Nat.le_max_right _ _)

/-- The tokens of the items of a tuple, put together. -/
def encloseTokens (items : List (List Token)) : List Token :=
  .mark .openParen :: [.mark .comma].intercalate items ++
    (if items.length = 1 then [.mark .comma, .mark .closeParen] else [.mark .closeParen])

mutual

/-- The tokens of the text of a value without strings. -/
def tokens : Value → List Token
  | .int n => [.int n]
  | .bool b => [.bool b]
  | .tuple items => encloseTokens (tokensOfEach items)
  | .string _ | .absent => []

/-- The tokens of the text of each value. -/
def tokensOfEach : List Value → List (List Token)
  | [] => []
  | v :: vs => tokens v :: tokensOfEach vs

end

theorem tokensOfEach_eq_map (vs : List Value) : tokensOfEach vs = vs.map tokens := by
  induction vs with
  | nil => rfl
  | cons v vs ih => rw [tokensOfEach, ih, List.map_cons]

mutual

/-- An expression for a value: a literal, or a tuple of expressions for its items. -/
def quote : Value → Expr
  | .tuple items => .tuple (quoteEach items)
  | v => .lit v

/-- An expression for each value. -/
def quoteEach : List Value → List Expr
  | [] => []
  | v :: vs => quote v :: quoteEach vs

end

theorem quoteEach_eq_map (vs : List Value) : quoteEach vs = vs.map quote := by
  induction vs with
  | nil => rfl
  | cons v vs ih => rw [quoteEach, ih, List.map_cons]

/-- What closes a tuple: a comma comes before the parenthesis if there is only one item. -/
def closing (single : Bool) : List Char :=
  if single then [',', ')'] else [')']

/-- The tokens of what closes a tuple. -/
def closingTokens (single : Bool) : List Token :=
  if single then [.mark .comma, .mark .closeParen] else [.mark .closeParen]

theorem write_tuple_nil : write .plain (.tuple []) = '(' :: closing false := rfl

theorem write_tuple_cons (v : Value) (vs : List Value) :
    write .plain (.tuple (v :: vs)) = '(' :: (write .plain v ++
      ((vs.flatMap fun w => [',', ' '] ++ write .plain w) ++ closing vs.isEmpty)) := by
  rw [write, writeItems_eq_map, enclose, List.map_cons, intercalate_cons_eq_append_flatMap,
    List.flatMap_map]
  cases vs <;> simp [closing]

theorem tokens_tuple_nil : tokens (.tuple []) = .mark .openParen :: closingTokens false := rfl

theorem tokens_tuple_cons (v : Value) (vs : List Value) :
    tokens (.tuple (v :: vs)) = .mark .openParen :: (tokens v ++
      ((vs.flatMap fun w => .mark .comma :: tokens w) ++ closingTokens vs.isEmpty)) := by
  rw [tokens, tokensOfEach_eq_map, encloseTokens, List.map_cons, intercalate_eq_append_flatMap,
    List.flatMap_map]
  cases vs <;> simp [closingTokens]

/-- A value without strings begins with a token of its own or with an opening parenthesis. -/
theorem StringFree.head?_tokens_ne {v : Value} (h : v.StringFree) {m : Mark} (hm : m ≠ .openParen)
    (rest : List Token) : (v.tokens ++ rest).head? ≠ some (.mark m) := by
  cases h with
  | int | bool => simp [tokens]
  | tuple => simpa [tokens, encloseTokens] using hm.symm

end Value

/-! ## Scanning -/

section Scanning

variable {text rest : List Char} {ts : List Token} {lexeme : Lexeme} {token : Token}

/-- A scanner that comes upon the text behind a gap without a line feed hands out the tokens, and
then it is at its end. -/
def Scans (text : List Char) (ts : List Token) : Prop :=
  ∀ s : Scanner, '\n' ∉ gap false s.rest → afterGap false s.rest = text →
    (Feed.scanner s).Yields ts none

theorem scans_nil : Scans [] [] := by
  intro s hline hfront
  obtain ⟨after, hnext⟩ := Scanner.next_of_nil hline hfront
  exact .finished (Feed.next_scanner hnext)

/-- A lexeme, a gap without a line feed, and what comes behind it. -/
theorem Scans.cons (hread : Lexeme.read? text = some (lexeme, rest))
    (htoken : lexeme.token = .ok token) (hline : '\n' ∉ gap false rest)
    (h : Scans (afterGap false rest) ts) : Scans text (token :: ts) := by
  intro s hs hfront
  obtain ⟨span, after, hnext, rfl, rfl⟩ := Scanner.next_of_read hs (hfront ▸ hread) htoken
  exact .token (Feed.next_scanner hnext) (h after hline rfl)

/-- No gap stands at the front of the text. -/
def Tight (text : List Char) : Prop :=
  gap false text = []

theorem Tight.afterGap_eq (h : Tight text) : afterGap false text = text := by
  have happend := gap_append_afterGap false text
  rwa [h, List.nil_append] at happend

theorem tight_cons {c : Char} (hblank : isBlank c = false) (hslash : c ≠ '/') (text : List Char) :
    Tight (c :: text) :=
  (Lexeme.gap_cons_eq_nil hblank fun hc => absurd hc hslash).1

theorem Scans.cons_tight (hread : Lexeme.read? text = some (lexeme, rest))
    (htoken : lexeme.token = .ok token) (htight : Tight rest) (h : Scans rest ts) :
    Scans text (token :: ts) := by
  refine .cons hread htoken ?_ ?_
  · rw [htight]
    exact List.not_mem_nil
  · rw [htight.afterGap_eq]
    exact h

theorem Scans.cons_blank (hread : Lexeme.read? text = some (lexeme, ' ' :: rest))
    (htoken : lexeme.token = .ok token) (htight : Tight rest) (h : Scans rest ts) :
    Scans text (token :: ts) := by
  obtain ⟨hblank, hskip⟩ := gap_of_isBlank (by decide : isBlank ' ' = true) rest
  refine .cons hread htoken ?_ ?_
  · rw [hblank, htight]
    decide
  · rw [hskip, htight.afterGap_eq]
    exact h

/-- A source text without a gap at its front. -/
theorem Scans.yields_ofSource {source : String} (h : Scans source.toList ts)
    (htight : Tight source.toList) : (Feed.scanner (.ofSource source)).Yields ts none := by
  refine h (.ofSource source) ?_ htight.afterGap_eq
  show '\n' ∉ gap false source.toList
  rw [htight]
  exact List.not_mem_nil

/-- What comes behind a value: the end of the text, a comma or a closing parenthesis. -/
inductive Delimited : List Char → Prop
  | nil : Delimited []
  | comma (rest : List Char) : Delimited (',' :: rest)
  | closeParen (rest : List Char) : Delimited (')' :: rest)

theorem Delimited.startsWith_eq_false (h : Delimited rest) {p : Char → Bool}
    (hcomma : p ',' = false) (hparen : p ')' = false) : Lexeme.startsWith p rest = false := by
  cases h with
  | nil => rfl
  | comma => exact hcomma
  | closeParen => exact hparen

theorem Delimited.tight (h : Delimited rest) : Tight rest := by
  cases h with
  | nil => rfl
  | comma => exact tight_cons (by decide) (by decide) _
  | closeParen => exact tight_cons (by decide) (by decide) _

/-- What the text of a value is scanned to, whatever may come behind it. -/
def Value.IsScanned (v : Value) : Prop :=
  ∀ ⦃rest : List Char⦄ ⦃ts : List Token⦄, Delimited rest → Scans rest ts →
    Tight (v.write .plain ++ rest) ∧ Scans (v.write .plain ++ rest) (v.tokens ++ ts)

theorem Lexeme.spelling_ofInt (n : Int) : (Lexeme.ofInt n).spelling = Decimal.ofInt n := by
  rw [Decimal.ofInt, Lexeme.ofInt, Lexeme.spelling]
  simp only [decide_eq_true_eq]

/-- A lexeme that is read whole before a comma or a parenthesis. -/
theorem scans_lexeme (hwell : lexeme.WellFormed) (htoken : lexeme.token = .ok token)
    (hread : Lexeme.read? (lexeme.spelling ++ rest) = some (lexeme, rest)) (hrest : Delimited rest)
    (h : Scans rest ts) :
    Tight (lexeme.spelling ++ rest) ∧ Scans (lexeme.spelling ++ rest) (token :: ts) :=
  ⟨(Lexeme.gap_spelling_of_startsWith hwell (hrest.startsWith_eq_false rfl rfl)).1,
    .cons_tight hread htoken hrest.tight h⟩

theorem Value.isScanned_int {n : Int} (h : Word64.InRange n) : (Value.int n).IsScanned := by
  intro rest ts hrest hscans
  rw [write, ← Lexeme.spelling_ofInt]
  have hwell := (Lexeme.spells_ofInt h).1
  have hread := Lexeme.read?_int hwell (hrest.startsWith_eq_false (by decide) (by decide))
  exact scans_lexeme hwell (Lexeme.token_ofInt h) hread hrest hscans

theorem Value.isScanned_bool (b : Bool) : (Value.bool b).IsScanned := by
  intro rest ts hrest hscans
  have hread := Lexeme.read?_bool b (hrest.startsWith_eq_false (by decide) (by decide))
  have hwell : (Lexeme.bool b).WellFormed := trivial
  exact scans_lexeme hwell rfl hread hrest hscans

/-- What closes a tuple. -/
theorem scans_closing (single : Bool) (hrest : Delimited rest) (h : Scans rest ts) :
    Delimited (Value.closing single ++ rest) ∧
      Scans (Value.closing single ++ rest) (Value.closingTokens single ++ ts) := by
  have hparen : Scans (')' :: rest) (.mark .closeParen :: ts) :=
    .cons_tight rfl rfl hrest.tight h
  cases single with
  | false => exact ⟨.closeParen rest, hparen⟩
  | true =>
    have htight : Tight (')' :: rest) := (Delimited.closeParen rest).tight
    exact ⟨.comma (')' :: rest), .cons_tight rfl rfl htight hparen⟩

/-- The items of a tuple behind the first, each with a comma and a blank before it. -/
theorem scans_items {vs : List Value} (hvs : ∀ v ∈ vs, v.IsScanned) (hrest : Delimited rest)
    (h : Scans rest ts) :
    Delimited ((vs.flatMap fun v => [',', ' '] ++ v.write .plain) ++ rest) ∧
      Scans ((vs.flatMap fun v => [',', ' '] ++ v.write .plain) ++ rest)
        ((vs.flatMap fun v => .mark .comma :: v.tokens) ++ ts) := by
  induction vs with
  | nil => exact ⟨hrest, h⟩
  | cons v vs ih =>
    obtain ⟨hv, hvs⟩ := List.forall_mem_cons.mp hvs
    obtain ⟨hmore, hscans⟩ := ih hvs
    obtain ⟨htight, hitem⟩ := hv hmore hscans
    simp only [List.flatMap_cons, List.cons_append, List.nil_append, List.append_assoc]
      at htight hitem ⊢
    exact ⟨.comma _, .cons_blank rfl rfl htight hitem⟩

/-- The text of a tuple: by its items, from the last to the first. -/
theorem Value.isScanned_tuple {items : List Value} (h : ∀ v ∈ items, v.IsScanned) :
    (Value.tuple items).IsScanned := by
  intro rest ts hrest hscans
  cases items with
  | nil =>
    obtain ⟨hdelimited, hclosing⟩ := scans_closing false hrest hscans
    rw [write_tuple_nil, tokens_tuple_nil]
    exact ⟨tight_cons (by decide) (by decide) _, .cons_tight rfl rfl hdelimited.tight hclosing⟩
  | cons v vs =>
    obtain ⟨hv, hvs⟩ := List.forall_mem_cons.mp h
    obtain ⟨hdelimited, hclosing⟩ := scans_closing vs.isEmpty hrest hscans
    obtain ⟨hmore, hitems⟩ := scans_items hvs hdelimited hclosing
    obtain ⟨htight, hfirst⟩ := hv hmore hitems
    rw [write_tuple_cons, tokens_tuple_cons]
    simp only [List.cons_append, List.append_assoc] at htight hfirst ⊢
    exact ⟨tight_cons (by decide) (by decide) _, .cons_tight rfl rfl htight hfirst⟩

theorem Value.StringFree.isScanned {v : Value} (h : v.StringFree) : v.IsScanned := by
  induction h with
  | int hrange => exact isScanned_int hrange
  | bool b => exact isScanned_bool b
  | tuple _ ih => exact isScanned_tuple ih

/-- The text of a value without strings is scanned to its tokens. -/
theorem Value.StringFree.yields {v : Value} (h : v.StringFree) :
    (Feed.scanner (.ofSource v.display)).Yields v.tokens none := by
  obtain ⟨htight, hscans⟩ := h.isScanned .nil scans_nil
  simp only [List.append_nil] at htight hscans
  have htext : v.display.toList = v.write .plain := by rw [display, String.toList_ofList]
  exact Scans.yields_ofSource (htext ▸ hscans) (htext ▸ htight)

end Scanning

/-! ## Reading -/

namespace Parser

variable {deep : Prop} {ts rest : List Token} {e : Expr}

/-- A factor with nothing behind it that goes on is an expression, five rules further up. -/
theorem gives_expr_of_unary (needed : Nat)
    (hunary : ∀ n, Enough deep needed n → Gives deep (unary n) ts e rest) (hrest : Closes 6 rest)
    {n : Nat} (hn : Enough deep (needed + 5) n) : Gives deep (expr n) ts e rest := by
  have hfactors : ∀ n, Repeats (Gives deep (nextOperand multiplicative? (unary n))) rest [] rest :=
    fun _ => .stop <| gives_nextOperand_none _ <|
      bind_operator?_eq_none (fun _ _ => multiplicative?_sound) (hrest.mono (by decide))
  have hsummands : ∀ n, Repeats (Gives deep (nextSummand (term n) (termFrom n))) rest [] rest :=
    fun _ => .stop (gives_nextSummand_none (hrest.mono (by decide)))
  have hoperands : ∀ (m : Mark) (operand : Parser Expr), (Token.mark m).rank < 6 →
      Repeats (Gives deep (afterMark m operand)) rest [] rest :=
    fun m operand hm => .stop (gives_afterMark_none _ (hrest.head?_ne hm))
  have hterm : ∀ n, Enough deep (needed + 1) n → Gives deep (term n) ts e rest := fun n hn =>
    gives_rule rfl hn (by omega) fun n hn =>
      (hunary n (hn.less (by omega))).bind (gives_termFromOf e (hfactors n))
  have hsum : ∀ n, Enough deep (needed + 2) n → Gives deep (sum n) ts e rest := fun n hn =>
    gives_rule rfl hn (by omega) fun n hn =>
      gives_sumOf (hterm n (hn.less (by omega))) (hsummands n)
  have hcomparison : ∀ n, Enough deep (needed + 3) n → Gives deep (comparison n) ts e rest :=
    fun n hn => gives_rule rfl hn (by omega) fun n hn =>
      gives_comparisonOf_sum (hsum n (hn.less (by omega))) (hrest.mono (by decide))
  have hconjunction : ∀ n, Enough deep (needed + 4) n → Gives deep (conjunction n) ts e rest :=
    fun n hn => gives_rule rfl hn (by omega) fun n hn =>
      gives_conditionalChain .and .andAnd (hcomparison n (hn.less (by omega)))
        (hoperands _ _ (by decide))
  exact gives_rule rfl hn (by omega) fun n hn =>
    gives_conditionalChain .or .orOr (hconjunction n (hn.less (by omega)))
      (hoperands _ _ (by decide))

/-- A primary expression is a factor where no exclamation mark stands before it. -/
theorem gives_unary_of_primary (needed : Nat)
    (hprimary : ∀ n, Enough deep needed n → Gives deep (primary n) ts e rest)
    (hhead : ts.head? ≠ some (.mark .bang)) {n : Nat} (hn : Enough deep (needed + 1) n) :
    Gives deep (unary n) ts e rest :=
  gives_rule rfl hn (by omega) fun n hn =>
    gives_unaryOf_primary hhead (hprimary n (hn.less (by omega)))

/-- A primary expression with nothing behind it that goes on is an expression, six rules further
up. -/
theorem gives_expr_of_primary (needed : Nat)
    (hprimary : ∀ n, Enough deep needed n → Gives deep (primary n) ts e rest)
    (hhead : ts.head? ≠ some (.mark .bang)) (hrest : Closes 6 rest) {n : Nat}
    (hn : Enough deep (needed + 6) n) : Gives deep (expr n) ts e rest :=
  gives_expr_of_unary (needed + 1) (fun _ => gives_unary_of_primary needed hprimary hhead) hrest hn

/-- What stands in parentheses, eight rules further down. -/
theorem gives_expr_of_parenthesised (needed : Nat)
    (h : ∀ n, Enough deep needed n →
      Gives deep (parenthesisedOf (expr n)) (.mark .openParen :: ts) e rest)
    (hrest : Closes 6 rest) {n : Nat} (hn : Enough deep (needed + 8) n) :
    Gives deep (expr n) (.mark .openParen :: ts) e rest := by
  refine gives_expr_of_primary (needed + 2) (fun n hn => ?_) (by simp) hrest hn
  refine gives_rule rfl hn (by omega) fun n hn => gives_primaryOf_parenthesised ?_
  have hinner : Enough deep (needed + 1) n := hn.less (by omega)
  exact gives_rule rfl hinner (by omega) fun n hn => h n (hn.less (by omega))

end Parser

namespace Value

open Scriptlet.Parser

variable {deep : Prop} {rest : List Token}

/-- With a budget of `needed`, the tokens of the value are read as the expression for it. -/
def ReadWith (deep : Prop) (needed : Nat) (v : Value) : Prop :=
  ∀ ⦃n : Nat⦄ ⦃rest : List Token⦄, Enough deep needed n → Closes 6 rest →
    Gives deep (expr n) (v.tokens ++ rest) v.quote rest

theorem readWith_literal {v : Value} {t : Token} (htokens : v.tokens = [t])
    (ht : ∀ n rest, Gives deep (primary (n + 1)) (t :: rest) v.quote rest)
    (hhead : t ≠ .mark .bang) : v.ReadWith deep 7 := by
  intro n rest hn hrest
  rw [htokens]
  refine gives_expr_of_primary 1 (fun n hn => ?_) (by simpa using hhead) hrest hn
  exact gives_rule rfl hn Nat.one_pos fun n _ => ht n rest

/-- The items of a tuple behind the first, up to what closes the tuple. -/
theorem repeats_items {needed n : Nat} {vs : List Value} {mid : List Token}
    (hfree : ∀ v ∈ vs, v.StringFree) (h : ∀ v ∈ vs, v.ReadWith deep needed)
    (hn : Enough deep needed n) (hmid : Closes 6 mid)
    (hstop : Gives deep (nextItem (expr n)) mid none (.mark .closeParen :: rest)) :
    Repeats (Gives deep (nextItem (expr n)))
      ((vs.flatMap fun v => .mark .comma :: v.tokens) ++ mid) (vs.map quote)
      (.mark .closeParen :: rest) := by
  induction vs with
  | nil => exact .stop hstop
  | cons v vs ih =>
    obtain ⟨hvfree, hvsfree⟩ := List.forall_mem_cons.mp hfree
    obtain ⟨hv, hvs⟩ := List.forall_mem_cons.mp h
    have hcloses : Closes 6 ((vs.flatMap fun v => .mark .comma :: v.tokens) ++ mid) := by
      cases vs with
      | nil => exact hmid
      | cons => exact closes_cons _ (by decide)
    rw [List.flatMap_cons, List.append_assoc, List.cons_append, List.map_cons]
    exact .more (gives_nextItem_some (hvfree.head?_tokens_ne (by decide) _) (hv hn hcloses))
      (length_lt_cons_append _ _ _) (ih hvsfree hvs)

theorem readWith_tuple_cons {needed : Nat} {v : Value} {vs : List Value}
    (hfree : ∀ w ∈ v :: vs, w.StringFree) (h : ∀ w ∈ v :: vs, w.ReadWith deep needed) :
    (tuple (v :: vs)).ReadWith deep (needed + 8) := by
  obtain ⟨hvfree, hvsfree⟩ := List.forall_mem_cons.mp hfree
  obtain ⟨hv, hvs⟩ := List.forall_mem_cons.mp h
  intro n rest hn hrest
  rw [tokens_tuple_cons, quote, quoteEach_eq_map, List.map_cons]
  simp only [List.cons_append, List.append_assoc]
  refine gives_expr_of_parenthesised needed (fun n hn => ?_) hrest hn
  have hfirst : ∀ rest, (v.tokens ++ rest).head? ≠ some (.mark .closeParen) :=
    hvfree.head?_tokens_ne (by decide)
  cases vs with
  | nil =>
    -- the only item has a comma behind it, and then the parenthesis comes
    refine gives_parenthesisedOf_tuple (hfirst _) (hv hn (closes_cons _ (by decide))) ?_ ?_
    · simp [closingTokens]
    · exact .stop (gives_nextItem_trailing _ rest)
  | cons w ws =>
    refine gives_parenthesisedOf_tuple (hfirst _) (hv hn (closes_cons _ (by decide))) (by simp) ?_
    exact repeats_items hvsfree hvs hn (closes_cons _ (by decide)) (gives_nextItem_none _ rest)

/-- A value is read with a budget of eight for each tuple around another, and seven more. -/
theorem StringFree.readWith {v : Value} (h : v.StringFree) :
    v.ReadWith deep (8 * v.nesting + 7) := by
  induction h with
  | int | bool =>
    refine readWith_literal rfl (fun n rest => ?_) (by simp)
    exact (gives_peek _).bind ((gives_advance _ _).bind (gives_pure _ _))
  | @tuple items hfree ih =>
    cases items with
    | nil =>
      intro n rest hn hrest
      exact gives_expr_of_parenthesised 7 (fun n _ => gives_parenthesisedOf_unit _ rest) hrest hn
    | cons v vs =>
      have hneeded : 8 * (Value.tuple (v :: vs)).nesting + 7 =
          8 * nestingOfEach (v :: vs) + 7 + 8 := by
        rw [nesting]
        omega
      rw [hneeded]
      refine readWith_tuple_cons hfree fun w hw n rest hn hrest => ?_
      have hle := nesting_le_of_mem hw
      exact ih w hw (hn.mono (by omega)) hrest

end Value

/-! ## Evaluation -/

mutual

/-- The expression for a value is evaluated to it, and the machine is left as it was. -/
theorem Run.evalWith_quote (callee : Callee) (m : Machine) :
    ∀ v : Value, Run.evalWith callee v.quote m = .ok v m
  | .int _ | .string _ | .bool _ | .absent => rfl
  | .tuple items => by
    rw [Value.quote, Run.evalWith, Run.bind_of_ok (Run.evalEachWith_quoteEach callee m items)]
    rfl

theorem Run.evalEachWith_quoteEach (callee : Callee) (m : Machine) :
    ∀ vs : List Value, Run.evalEachWith callee (Value.quoteEach vs) m = .ok vs m
  | [] => rfl
  | v :: vs => by
    rw [Value.quoteEach, Run.evalEachWith, Run.bind_of_ok (Run.evalWith_quote callee m v),
      Run.bind_of_ok (Run.evalEachWith_quoteEach callee m vs)]
    rfl

end

theorem Run.eval_quote (v : Value) (m : Machine) : Run.eval v.quote m = .ok v m :=
  Run.evalWith_quote _ m v

/-! ## Values that are displayed and read -/

namespace Value

/-- The text of a value without strings is drained to spans of its tokens. -/
theorem StringFree.exists_spans {v : Value} (h : v.StringFree) :
    ∃ spans : List Span, (Scanner.ofSource v.display).drain = .ok (spans.map .token) ∧
      spans.map Span.token = v.tokens := by
  obtain ⟨spans, hhands, htokens⟩ := h.yields.exists_hands
  exact ⟨spans, Scanner.drain_of_hands hhands, htokens⟩

/-- The tokens of a value, with nothing behind them, are read as the expression for it. -/
theorem StringFree.gives {deep : Prop} {v : Value} (h : v.StringFree) {n : Nat}
    (hn : Parser.Enough deep (8 * v.nesting + 7) n) :
    Parser.Gives deep (Parser.expr n) v.tokens v.quote [] := by
  have hgives := h.readWith hn (closes_nil 6)
  rwa [List.append_nil] at hgives

/-- Values without strings are told apart by their texts. -/
theorem StringFree.eq_of_display_eq {v w : Value} (hv : v.StringFree) (hw : w.StringFree)
    (h : v.display = w.display) : v = w := by
  have htokens : v.tokens = w.tokens := (hv.yields.unique (h ▸ hw.yields)).1
  let budget := max (8 * v.nesting + 7) (8 * w.nesting + 7)
  have hreadv : Parser.Gives False (Parser.expr budget) v.tokens v.quote [] :=
    hv.gives (Or.inl (Nat.le_max_left _ _))
  have hreadw : Parser.Gives False (Parser.expr budget) w.tokens w.quote [] :=
    hw.gives (Or.inl (Nat.le_max_right _ _))
  rw [← htokens] at hreadw
  have hquote : v.quote = w.quote := (hreadv.unique hreadw).1
  have heval := Run.eval_quote v { maxCallDepth := 0 }
  rw [hquote, Run.eval_quote w] at heval
  simpa using heval.symm

end Value

/-- **What is displayed can be read back.**  Let a value be built from integers of 64 bits, bools
and tuples.  Its text is scanned without an error, and there is one expression that the tokens are
read as, all of them, unless the budget is below eight for each tuple inside another and seven more
and they are found to be nested too deeply.  In every machine the expression is evaluated to the
value, and the machine is left as it was.  So no two such values have the same text. -/
theorem display_is_read_back :
    (∀ v : Value, v.StringFree → ∃ (spans : List Span) (e : Expr),
      (Scanner.ofSource v.display).drain = .ok (spans.map .token) ∧
      (∀ budget,
        (∃ left, Parser.expr budget (.ofItems (spans.map .token)) = .ok e left ∧
          left.Holds [] none) ∨
        (budget < 8 * v.nesting + 7 ∧
          ∃ position left, Parser.expr budget (.ofItems (spans.map .token)) =
            .error (.nestedTooDeeply position) left)) ∧
      ∀ m : Machine, Run.eval e m = .ok v m) ∧
    ∀ v w : Value, v.StringFree → w.StringFree → v.display = w.display → v = w := by
  refine ⟨fun v h => ?_, fun v w hv hw => hv.eq_of_display_eq hw⟩
  obtain ⟨spans, hdrain, htokens⟩ := h.exists_spans
  refine ⟨spans, v.quote, hdrain, fun budget => ?_, fun m => Run.eval_quote v m⟩
  exact h.gives (Nat.lt_or_ge budget _).symm (htokens ▸ Cursor.holds_ofItems spans)

/-- The smallest integer in a tuple of one item, a bool in another, and an empty tuple. -/
def nestedValue : Value :=
  .tuple [.tuple [.int (-9223372036854775808)], .tuple [.bool true, .int (-1)], .tuple []]

theorem nestedValue_is_read_back :
    nestedValue.StringFree ∧
    nestedValue.display = "((-9223372036854775808,), (true, -1), ())" ∧
    ∃ (spans : List Span) (e : Expr),
      (Scanner.ofSource nestedValue.display).drain = .ok (spans.map .token) ∧
      (∃ left, Parser.expr Parser.nestingLimit (.ofItems (spans.map .token)) = .ok e left ∧
        left.Holds [] none) ∧
      ∀ m : Machine, Run.eval e m = .ok nestedValue m := by
  have hfree : nestedValue.StringFree := by
    refine .tuple ?_
    simp only [List.forall_mem_cons]
    refine ⟨.tuple ?_, .tuple ?_, .tuple ?_, ?_⟩
    · simpa using .int (by decide)
    · simpa using ⟨.bool true, .int (by decide)⟩
    · simp
    · simp
  obtain ⟨spans, e, hdrain, hread, heval⟩ := display_is_read_back.1 nestedValue hfree
  have hbudget : ¬Parser.nestingLimit < 8 * nestedValue.nesting + 7 := by decide
  exact ⟨hfree, by decide, spans, e, hdrain, (hread _).resolve_right fun hdeep => hbudget hdeep.1,
    heval⟩

end Scriptlet
