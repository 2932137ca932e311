import Scriptlet.Proofs.Display
import Scriptlet.Proofs.Progress

/-!
# Room for nesting

A text can be read while it is scanned, or it is scanned to its end first and the items are read.
With one and the same budget both come to the same (`ruleClosed_sameFrom`), but they do not have the
same budget: a scanner takes up room on the host's stack as well, and what is left for the rules is
less.

So the two can differ, and it is known how.  A larger budget only makes a difference where the
smaller one is used up (`Request.eq_of_larger_budget`).  Hence the two readings come to the same
unless the one that scans as it reads finds the nesting too deep.

## A text on which they differ

The exclamation marks of `!!…!true` are read by one rule that calls itself, so that each of them
takes one step of the budget.  How many there may be in the body of a function is then a matter of
counting the rules above and below them: reading succeeds with eleven more than there are marks
(`gives_program_negation`), and with nine more or less the nesting is too deep
(`sinks_program_negation`).  The second is not what `Gives` can say, which allows a parser to fail
for its nesting and does not ask for it; `Sinks` does.
-/

namespace Scriptlet

open Grammar

namespace Parser

/-! ## Larger budgets -/

/-- A program is read with every larger budget as it is with a smaller one that is not used up. -/
theorem result_program_of_le {b b' : Nat} (hle : b ≤ b') (c : Cursor) :
    (∃ position, (program b).result c = .error (.nestedTooDeeply position)) ∨
      (program b').result c = (program b).result c := by
  rcases Request.eq_of_larger_budget (q := .program) (Or.inl rfl) hle c with
    ⟨position, c', hrun⟩ | hsame
  · exact Or.inl ⟨position, result_eq_error_iff.mpr ⟨c', hrun⟩⟩
  · refine Or.inr ?_
    have hprogram : program b' c = program b c := hsame
    rw [result, result, hprogram]

end Parser

/-- **Scanning ahead does not change what is read, the nesting left aside.**  Let a source text be
scanned to its end, so that no integer in it is too long.  The items are the spans of its tokens and
perhaps an error behind them.  With every budget, reading them gives the same as reading the text
and scanning each token when it is needed: the same program, or the same error at the same place.
With the room that there is in each case, it gives the same unless the nesting is found to be too
deep as the text is scanned. -/
theorem parse_eq_parseScanned {source : String} {items : List Item}
    (h : (Scanner.ofSource source).drain = .ok items) :
    (∃ spans ending, items = Item.ofSpans spans ending) ∧
    (∀ budget, (Parser.program budget).result (.ofSource source) =
      (Parser.program budget).result (.ofItems items)) ∧
    ((∀ position, Program.parse source ≠ .error (.nestedTooDeeply position)) →
      Program.parse source = Program.parseScanned source) := by
  have hsame : ∀ budget, (Parser.program budget).result (.ofSource source) =
      (Parser.program budget).result (.ofItems items) := fun budget =>
    (Parser.ruleClosed_sameFrom.program budget).result_eq (Cursor.abreast_ofItems h)
  obtain ⟨spans, ending, hitems, _⟩ := Scanner.hands_of_drain h
  refine ⟨⟨spans, ending, hitems⟩, hsame, fun hdeep => ?_⟩
  have hroom : Parser.nestingLimit ≤ Parser.nestingLimit + 5 := Nat.le_add_right _ _
  have hlarger := Parser.result_program_of_le hroom (.ofSource source)
  rw [hsame (Parser.nestingLimit + 5)] at hlarger
  rw [Program.parseScanned, h]
  exact (hlarger.resolve_left (not_exists.mpr hdeep)).symm

/-- A text with a number in place of a name, and behind it a character that spells nothing. -/
def unnamedFunction : String := "func\n7() @"

theorem unnamedFunction_is_read_as_scanned :
    (Scanner.ofSource unnamedFunction).drain = .ok [.token ⟨0, .mark .func, 4⟩,
      .token ⟨5, .int 7, 6⟩, .token ⟨6, .mark .openParen, 7⟩, .token ⟨7, .mark .closeParen, 8⟩,
      .error ⟨.unrecognized, 9⟩] ∧
    Program.parse unnamedFunction = .error (.grammar (.expected .name (some (.int 7))) 5) ∧
    Program.parse unnamedFunction = Program.parseScanned unnamedFunction := by
  have hdrain : (Scanner.ofSource unnamedFunction).drain = .ok [.token ⟨0, .mark .func, 4⟩,
      .token ⟨5, .int 7, 6⟩, .token ⟨6, .mark .openParen, 7⟩, .token ⟨7, .mark .closeParen, 8⟩,
      .error ⟨.unrecognized, 9⟩] := by decide +kernel
  have hparse : Program.parse unnamedFunction =
      .error (.grammar (.expected .name (some (.int 7))) 5) := by decide +kernel
  refine ⟨hdrain, hparse, (parse_eq_parseScanned hdrain).2.2 ?_⟩
  rw [hparse]
  exact fun _ => nofun

/-! ## Exclamation marks -/

/-- So many negations of a bool. -/
def negation : (count : Nat) → Expr
  | 0 => .lit (.bool true)
  | count + 1 => .not (negation count)

/-- The program whose `main` is that expression. -/
def negationProgram (count : Nat) : Program :=
  [⟨"main", [], [negation count]⟩]

/-- The characters of the expression and what is behind it, with nothing between the marks. -/
def negationChars (count : Nat) : List Char :=
  List.replicate count '!' ++ ['t', 'r', 'u', 'e', ' ', '\x7d']

/-- The text of the program. -/
def negationText (count : Nat) : String :=
  .ofList (['f', 'u', 'n', 'c', ' ', 'm', 'a', 'i', 'n', '(', ')', ' ', '\x7b', ' '] ++
    negationChars count)

/-- The tokens of the expression, and the brace behind it. -/
def negationTokens (count : Nat) : List Token :=
  List.replicate count (.mark .bang) ++ [.bool true, .mark .closeBrace]

/-- The tokens of the text. -/
def negationProgramTokens (count : Nat) : List Token :=
  .mark .func :: .name "main" :: .mark .openParen :: .mark .closeParen :: .mark .openBrace ::
    negationTokens count

section Scanning

theorem tight_negationChars (count : Nat) : Tight (negationChars count) := by
  cases count with
  | zero => rfl
  | succ count => exact tight_cons (by decide) (by decide) _

theorem scans_negationChars (count : Nat) : Scans (negationChars count) (negationTokens count) := by
  induction count with
  | zero => exact .cons_blank rfl rfl rfl (.cons_tight rfl rfl rfl scans_nil)
  | succ count ih =>
    have hread : Lexeme.read? ('!' :: negationChars count) =
        some (.mark .bang, negationChars count) := by
      cases count <;> rfl
    exact .cons_tight hread rfl (tight_negationChars count) ih

theorem yields_negationText (count : Nat) :
    (Cursor.ofSource (negationText count)).feed.Yields (negationProgramTokens count) none := by
  have htext : (negationText count).toList = ['f', 'u', 'n', 'c', ' ', 'm', 'a', 'i', 'n', '(', ')',
      ' ', '\x7b', ' '] ++ negationChars count := String.toList_ofList
  refine Scans.yields_ofSource ?_ ?_ <;> rw [htext]
  · have hbody : Scans ('\x7b' :: ' ' :: negationChars count)
        (.mark .openBrace :: negationTokens count) :=
      .cons_blank rfl rfl (tight_negationChars count) (scans_negationChars count)
    refine .cons_blank rfl rfl rfl (.cons_tight rfl rfl rfl (.cons_tight rfl rfl rfl ?_))
    exact .cons_blank rfl rfl rfl hbody
  · rfl

end Scanning

namespace Parser

/-! ### Enough room -/

section Room

variable {deep : Prop} {n count : Nat}

theorem gives_unary_negation (hn : Enough deep (count + 2) n) :
    Gives deep (unary n) (negationTokens count) (negation count) [.mark .closeBrace] := by
  induction count generalizing n with
  | zero =>
    refine gives_unary_of_primary 1 (fun n hn => ?_) (by simp [negationTokens]) hn
    refine gives_rule rfl hn Nat.one_pos fun n _ => ?_
    exact (gives_peek _).bind ((gives_advance _ _).bind (gives_pure _ _))
  | succ count ih =>
    exact gives_rule rfl hn (Nat.succ_pos _) fun n hn => gives_unaryOf_not (ih (hn.less (by omega)))

/-- The first token is a mark or a bool. -/
theorem head?_negationTokens_ne (count : Nat) {m : Mark} (hm : m ≠ .bang) :
    (negationTokens count).head? ≠ some (.mark m) := by
  cases count with
  | zero => exact fun h => by cases h
  | succ count => exact fun h => hm (by cases h; rfl)

theorem gives_statement_negation (hn : Enough deep (count + 8) n) :
    Gives deep (statement n) (negationTokens count) (negation count) [.mark .closeBrace] := by
  refine gives_statement hn (by rw [descent]; omega) fun m hm => ?_
  refine gives_statementOf_expr ?_ fun name t us htokens => ?_
  · refine gives_expr_of_unary (count + 2) (fun _ => gives_unary_negation) ?_ (hm.less (by omega))
    exact closes_cons _ (by decide)
  · cases count <;> cases htokens

theorem gives_body_negation (hn : Enough deep (count + 9) n) :
    Gives deep (body n) (.mark .openBrace :: negationTokens count) [negation count] [] := by
  refine gives_rule rfl hn (Nat.succ_pos _) fun n hn => ?_
  refine gives_bodyOf 0 (head?_negationTokens_ne count (by decide)) ?_
  have hstatement := gives_statement_negation (hn.less (Nat.lt_succ_self _))
  refine .more (gives_nextStatement_some 0 hstatement ?_ (by simp) fun _ => rfl) ?_
    (.stop (gives_nextStatement_none _ _))
  · exact head?_negationTokens_ne count (by decide)
  · simp

theorem gives_program_negation (hn : Enough deep (count + 11) n) :
    Gives deep (program n) (negationProgramTokens count) (negationProgram count) [] := by
  refine gives_rule rfl hn (Nat.succ_pos _) fun n hn => gives_programOf 0 (by simp) ?_
  have hfunction : Gives deep (function n) (negationProgramTokens count)
      ⟨"main", [], [negation count]⟩ [] :=
    gives_rule rfl (hn.less (Nat.lt_succ_self _)) (Nat.succ_pos _) fun n hn =>
      gives_functionOf "main" (gives_commaSeparated_nil _ _)
        (gives_body_negation (hn.less (Nat.lt_succ_self _)))
  refine .more (gives_nextFunction 0 hfunction (by simp) (by simp)) ?_ (.stop ?_)
  · simp
  · exact (gives_peek _).bind (gives_pure _ _)

end Room

/-! ### Not enough room -/

/-- From every cursor with that outlook and no error behind it, the parser fails for its nesting. -/
def Sinks (p : Parser α) (ts : List Token) : Prop :=
  ∀ ⦃c : Cursor⦄, c.Holds ts none → ∃ position c', p c = .error (.nestedTooDeeply position) c'

section Sinks

variable {α β : Type} {p : Parser α} {a : α} {ts mid : List Token} {n count bound : Nat}

theorem sinks_tooDeep (ts : List Token) : Sinks (tooDeep : Parser α) ts :=
  fun c _ => ⟨c.stop, c, rfl⟩

theorem Sinks.bind (h : Sinks p ts) (f : α → Parser β) : Sinks (p >>= f) ts := by
  intro c hc
  obtain ⟨position, c', hp⟩ := h hc
  exact ⟨position, c', bind_of_error hp f⟩

/-- Steps that come before make no difference. -/
theorem Gives.sinks_bind {f : α → Parser β} (hp : Gives False p ts a mid)
    (hf : Sinks (f a) mid) : Sinks (p >>= f) ts := by
  intro c hc
  obtain ⟨c₁, hfirst, h₁⟩ := (hp hc).resolve_right fun hdeep => hdeep.1
  rw [bind_of_ok hfirst]
  exact hf h₁

/-- A rule sinks without a budget, and with one if what it reads first does. -/
theorem sinks_rule {p : Nat → Parser α} (hzero : p 0 = tooDeep) (hn : n ≤ bound + 1)
    (hsucc : ∀ m, m ≤ bound → Sinks (p (m + 1)) ts) : Sinks (p n) ts := by
  cases n with
  | zero =>
    rw [hzero]
    exact sinks_tooDeep ts
  | succ m => exact hsucc m (Nat.le_of_succ_le_succ hn)

theorem sinks_unary_negation (hn : n ≤ count) : Sinks (unary n) (negationTokens count) := by
  induction count generalizing n with
  | zero =>
    obtain rfl := Nat.le_zero.mp hn
    exact sinks_tooDeep _
  | succ count ih =>
    refine sinks_rule rfl hn fun m hm => ?_
    have hmark : Sinks (afterMark .bang (unary m)) (negationTokens (count + 1)) := by
      refine (gives_isAtMark_true _ _).sinks_bind ((gives_advance _ _).sinks_bind ?_)
      rw [map_eq_pure_bind]
      exact (ih hm).bind _
    exact hmark.bind _

/-- Every rule from an expression down to a factor reads the one below it first. -/
theorem sinks_expr_negation (hn : n ≤ count + 5) : Sinks (expr n) (negationTokens count) := by
  have hterm : ∀ n, n ≤ count + 1 → Sinks (term n) (negationTokens count) := fun n hn =>
    sinks_rule rfl hn fun m hm => (sinks_unary_negation hm).bind _
  have hsum : ∀ n, n ≤ count + 2 → Sinks (sum n) (negationTokens count) := fun n hn =>
    sinks_rule rfl hn fun m hm => (hterm m hm).bind _
  have hcomparison : ∀ n, n ≤ count + 3 → Sinks (comparison n) (negationTokens count) := fun n hn =>
    sinks_rule rfl hn fun m hm => (hsum m hm).bind _
  have hconjunction : ∀ n, n ≤ count + 4 → Sinks (conjunction n) (negationTokens count) :=
    fun n hn => sinks_rule rfl hn fun m hm => (hcomparison m hm).bind _
  exact sinks_rule rfl hn fun m hm => (hconjunction m hm).bind _

theorem sinks_statement_negation (hn : n ≤ count + 6) :
    Sinks (statement n) (negationTokens count) := by
  refine sinks_rule rfl hn fun m hm => ?_
  rw [statement]
  split
  · exact sinks_tooDeep _
  · refine (gives_peek _).sinks_bind ?_
    -- the first token is not a name
    cases count <;> exact sinks_expr_negation hm

theorem sinks_body_negation (hn : n ≤ count + 7) :
    Sinks (body n) (.mark .openBrace :: negationTokens count) := by
  refine sinks_rule rfl hn fun m hm => (gives_expectMark _ _).sinks_bind ?_
  have hskip : Gives False skipSemicolons (negationTokens count) () (negationTokens count) :=
    gives_skipSemicolons 0 (head?_negationTokens_ne count (by decide))
  refine hskip.sinks_bind (.bind (.bind ?_ _) _)
  have hbrace := head?_negationTokens_ne count (m := .closeBrace) (by decide)
  exact (gives_isAtMark_false hbrace).sinks_bind ((sinks_statement_negation hm).bind _)

theorem sinks_program_negation (hn : n ≤ count + 9) :
    Sinks (program n) (negationProgramTokens count) := by
  have hfunction : ∀ n, n ≤ count + 8 → Sinks (function n) (negationProgramTokens count) :=
    fun n hn => sinks_rule rfl hn fun m hm =>
      (gives_expectMark _ _).sinks_bind <| (gives_expectName _ _).sinks_bind <|
        (gives_expectMark _ _).sinks_bind <| (gives_commaSeparated_nil _ _).sinks_bind <|
          (sinks_body_negation hm).bind _
  refine sinks_rule rfl hn fun m hm => ?_
  have hskip : Gives False skipSemicolons (negationProgramTokens count) ()
      (negationProgramTokens count) := gives_skipSemicolons 0 (by simp)
  exact hskip.sinks_bind (.bind ((gives_peek _).sinks_bind ((hfunction m hm).bind _)) _)

end Sinks

end Parser

/-- What becomes of the text, by the budget there is. -/
theorem result_negationText (count : Nat) :
    ∃ items, (Scanner.ofSource (negationText count)).drain = .ok items ∧
      (∀ n, n ≤ count + 9 → ∃ position,
        (Parser.program n).result (.ofSource (negationText count)) =
          .error (.nestedTooDeeply position)) ∧
      ∀ n, count + 11 ≤ n →
        (Parser.program n).result (.ofItems items) = .ok (negationProgram count) := by
  have hyields := yields_negationText count
  obtain ⟨spans, hhands, htokens⟩ := hyields.exists_hands
  refine ⟨_, Scanner.drain_of_hands hhands, fun n hn => ?_, fun n hn => ?_⟩
  · obtain ⟨position, c, hfails⟩ := Parser.sinks_program_negation hn ⟨_, hyields, rfl⟩
    exact ⟨position, Parser.result_eq_error_iff.mpr ⟨c, hfails⟩⟩
  · have hitems := Cursor.holds_ofItems spans
    rw [htokens] at hitems
    have hgives : Parser.Gives False (Parser.program n) (negationProgramTokens count)
        (negationProgram count) [] := Parser.gives_program_negation (Or.inl hn)
    obtain ⟨c, hreads, _⟩ := (hgives hitems).resolve_right fun hdeep => hdeep.1
    exact Parser.result_eq_ok_iff.mpr ⟨c, hreads⟩

/-- With so many marks there is only room if the text is scanned ahead. -/
theorem negations_are_read_only_when_scanned_ahead :
    (∃ items, (Scanner.ofSource (negationText 984)).drain = .ok items) ∧
    (∃ position, Program.parse (negationText 984) = .error (.nestedTooDeeply position)) ∧
    Program.parseScanned (negationText 984) = .ok (negationProgram 984) ∧
    Program.parse (negationText 984) ≠ Program.parseScanned (negationText 984) := by
  obtain ⟨items, hdrain, hfails, hreads⟩ := result_negationText 984
  have hscanned : Program.parseScanned (negationText 984) = .ok (negationProgram 984) := by
    rw [Program.parseScanned, hdrain]
    exact hreads (Parser.nestingLimit + 5) (by decide)
  obtain ⟨position, hparse⟩ : ∃ position, Program.parse (negationText 984) =
      .error (.nestedTooDeeply position) := hfails Parser.nestingLimit (by decide)
  refine ⟨⟨items, hdrain⟩, ⟨position, hparse⟩, hscanned, ?_⟩
  rw [hparse, hscanned]
  exact fun hsame => by cases hsame

end Scriptlet
