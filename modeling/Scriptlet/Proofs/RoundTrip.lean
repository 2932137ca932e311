import Scriptlet.Proofs.SourceTrees
import Scriptlet.Syntax.Printer

/-!
# Printing is undone by reading

The canonical text of a well-formed program is read back as the program.

The way there is through lexemes.  `Spelled c lexemes x` says that each of the lexemes can be read
and spells a token, and that the tokens derive `x`.  For each form of a tree there is a rule of the
grammar that makes its lexemes out of those of its parts; the operands of operators are in
parentheses, which makes primary expressions of them, whatever they are.

The text has one blank between any two lexemes.  The scanner is led through it lexeme by lexeme,
each taken together with the blank before it, so that what remains always begins with a blank or is
empty: a lexeme is read whole there, two slashes never meet, and without a line feed in the gaps no
semicolon comes in.
-/

namespace Scriptlet

open Scriptlet.Text Grammar

/-- Parts with something between them are the first part, and then as often as others follow, that
and a part. -/
theorem intercalate_cons_eq_append_flatMap {α : Type} (between part : List α)
    (parts : List (List α)) :
    between.intercalate (part :: parts) = part ++ parts.flatMap fun next => between ++ next := by
  induction parts generalizing part with
  | nil => rw [List.intercalate_singleton, List.flatMap_nil, List.append_nil]
  | cons next parts ih =>
    rw [List.intercalate_cons_cons, ih, List.flatMap_cons]
    simp

theorem intercalate_eq_append_flatMap {α : Type} (between : α) (part : List α)
    (parts : List (List α)) :
    [between].intercalate (part :: parts) = part ++ parts.flatMap fun next => between :: next :=
  intercalate_cons_eq_append_flatMap [between] part parts

/-! ## Lexemes that spell tokens -/

namespace Lexeme

/-- The lexeme can be read and spells a token. -/
def Spells (lexeme : Lexeme) : Prop :=
  lexeme.WellFormed ∧ ∃ token, lexeme.token = .ok token

/-- The tokens that the lexemes spell. -/
def tokens (lexemes : List Lexeme) : List Token :=
  lexemes.filterMap fun lexeme => lexeme.token.toOption

theorem tokens_append (ls ms : List Lexeme) : tokens (ls ++ ms) = tokens ls ++ tokens ms :=
  List.filterMap_append

theorem tokens_cons {l : Lexeme} {t : Token} (h : l.token = .ok t) (ls : List Lexeme) :
    tokens (l :: ls) = t :: tokens ls :=
  List.filterMap_cons_some (by rw [h]; rfl)

theorem tokens_mark (m : Mark) (ls : List Lexeme) :
    tokens (.mark m :: ls) = .mark m :: tokens ls :=
  tokens_cons rfl ls

theorem spells_mark (m : Mark) : (Lexeme.mark m).Spells :=
  ⟨trivial, _, rfl⟩

theorem spells_bool (b : Bool) : (Lexeme.bool b).Spells :=
  ⟨trivial, _, rfl⟩

theorem token_ofName (name : String) : (ofName name).token = .ok (.name name) := by
  rw [ofName, token, String.ofList_toList]

theorem spells_ofName {name : String} (h : IsIdentifier name) : (ofName name).Spells :=
  ⟨h, _, token_ofName name⟩

theorem token_ofString (text : String) : (ofString text).token = .ok (.string text) := by
  rw [ofString, token, Escape.decode_doubleBackslashes, String.ofList_toList]

theorem spells_ofString {text : String} (h : '"' ∉ text.toList) : (ofString text).Spells := by
  refine ⟨?_, _, token_ofString text⟩
  rw [ofString, WellFormed, Escape.doubleBackslashes, List.mem_flatMap]
  rintro ⟨c, hc, hquote⟩
  split at hquote
  · simp at hquote
  · rw [List.mem_singleton] at hquote
    exact h (hquote ▸ hc)

/-- A 64-bit integer has few digits. -/
theorem length_toDigits_le {n : Int} (h : Word64.InRange n) :
    (Nat.toDigits 10 n.natAbs).length ≤ Decimal.maxDigits := by
  have hbound : n.natAbs < 10 ^ 19 := by
    obtain ⟨hlow, hhigh⟩ := h
    omega
  have hlength := (Nat.length_toDigits_le_iff (by decide) (by decide)).mpr hbound
  exact Nat.le_trans hlength (by decide)

theorem token_ofInt {n : Int} (h : Word64.InRange n) : (ofInt n).token = .ok (.int n) := by
  have hlength := length_toDigits_le h
  simp only [ofInt, token]
  rw [if_neg (by omega), Decimal.signedValue_toDigits_natAbs, if_pos h]

theorem spells_ofInt {n : Int} (h : Word64.InRange n) : (ofInt n).Spells := by
  refine ⟨⟨Nat.toDigits_ne_nil, fun d hd => ?_⟩, _, token_ofInt h⟩
  exact Nat.isDigit_of_mem_toDigits (by decide) (by decide) hd

theorem ofOperator_eq (op : Operator) : ofOperator op = .mark op.mark := by
  cases op <;> rfl

end Lexeme

/-! ## Phrases in parentheses -/

namespace Grammar

variable {ts us : List Token} {e l r : Expr}

/-- An expression in parentheses is an operand of any operator. -/
theorem Derives.grouped (h : Derives .expr ts e) :
    Derives .unary (.mark .openParen :: (ts ++ [.mark .closeParen])) e := by
  obtain ⟨d⟩ := h
  exact ⟨.plainPrimary (.group d)⟩

/-- Two operands with an operator between them. -/
theorem Derives.binary (op : Operator) (hl : Derives .unary ts l) (hr : Derives .unary us r) :
    Derives .expr (ts ++ .mark op.mark :: us) (.binary op l r) := by
  cases hlevel : op.level with
  | comparison =>
    obtain ⟨dl⟩ := hl.term_of_unary.sum_of_term
    obtain ⟨dr⟩ := hr.term_of_unary.sum_of_term
    exact Derives.expr_of_comparison ⟨.compare op hlevel dl dr⟩
  | sum =>
    obtain ⟨dl⟩ := hl.term_of_unary
    obtain ⟨dr⟩ := hr.term_of_unary
    have dsum := Derivation.sum dl (.sign op hlevel dr .sumEnd)
    rw [List.append_nil] at dsum
    exact (Derives.comparison_of_sum ⟨dsum⟩).expr_of_comparison
  | term =>
    obtain ⟨dl⟩ := hl
    obtain ⟨dr⟩ := hr
    have dterm := Derivation.term dl (.factor op hlevel dr .termEnd)
    rw [List.append_nil] at dterm
    exact (Derives.sum_of_term ⟨dterm⟩).comparison_of_sum.expr_of_comparison

/-- The mark of a conditional operator. -/
def conditionalMark : Conditional → Mark
  | .and => .andAnd
  | .or => .orOr

/-- Two operands with a conditional operator between them. -/
theorem Derives.conditional (op : Conditional) (hl : Derives .unary ts l)
    (hr : Derives .unary us r) :
    Derives .expr (ts ++ .mark (conditionalMark op) :: us) (.conditional op l r) := by
  have hl := hl.term_of_unary.sum_of_term.comparison_of_sum
  have hr := hr.term_of_unary.sum_of_term.comparison_of_sum
  cases op with
  | and =>
    obtain ⟨dl⟩ := hl
    obtain ⟨dr⟩ := hr
    have dconjunction := Derivation.conjunction dl (.and dr .conjunctionEnd)
    rw [List.append_nil] at dconjunction
    exact Derives.expr_of_conjunction ⟨dconjunction⟩
  | or =>
    obtain ⟨dl⟩ := hl.conjunction_of_comparison
    obtain ⟨dr⟩ := hr.conjunction_of_comparison
    have dexpr := Derivation.expr dl (.or dr .exprEnd)
    rw [List.append_nil] at dexpr
    exact ⟨dexpr⟩

end Grammar

/-! ## Trees and their lexemes -/

/-- The lexemes spell tokens that derive the tree. -/
def Spelled (c : Category) (lexemes : List Lexeme) (x : c.Tree) : Prop :=
  (∀ lexeme ∈ lexemes, lexeme.Spells) ∧ Derives c (Lexeme.tokens lexemes) x

section Lists

open Lexeme

variable {es : List Expr}

theorem spelled_moreStatements (h : ∀ e ∈ es, Spelled .statement (ofExpr e) e) :
    Spelled .moreStatements (es.flatMap fun e => .mark .semicolon :: ofExpr e) es := by
  induction es with
  | nil => exact ⟨by simp, ⟨.lastStatement 0⟩⟩
  | cons e es ih =>
    obtain ⟨⟨hspells, ⟨d⟩⟩, hes⟩ := List.forall_mem_cons.mp h
    obtain ⟨hmore, ⟨ds⟩⟩ := ih hes
    rw [List.flatMap_cons]
    refine ⟨?_, ?_⟩
    · rw [List.forall_mem_append, List.forall_mem_cons]
      exact ⟨⟨spells_mark _, hspells⟩, hmore⟩
    · rw [tokens_append, tokens_mark]
      exact ⟨.nextStatement 0 d ds⟩

theorem spelled_body (h : ∀ e ∈ es, Spelled .statement (ofExpr e) e) :
    Spelled .body (brace (separate .semicolon (es.map ofExpr))) es := by
  have hstatements : Spelled .statements (separate .semicolon (es.map ofExpr)) es := by
    cases es with
    | nil => exact ⟨by simp [separate], ⟨.noStatements⟩⟩
    | cons e es =>
      obtain ⟨⟨hspells, ⟨d⟩⟩, hes⟩ := List.forall_mem_cons.mp h
      obtain ⟨hmore, ⟨ds⟩⟩ := spelled_moreStatements hes
      rw [List.map_cons, separate, intercalate_eq_append_flatMap, List.flatMap_map]
      refine ⟨List.forall_mem_append.mpr ⟨hspells, hmore⟩, ?_⟩
      rw [tokens_append]
      exact ⟨.someStatements d ds⟩
  obtain ⟨hspells, ⟨d⟩⟩ := hstatements
  refine ⟨?_, ?_⟩
  · rw [brace, List.forall_mem_append, List.forall_mem_cons]
    exact ⟨⟨spells_mark _, hspells⟩, by simpa using spells_mark _⟩
  · rw [brace, tokens_append, tokens_mark]
    exact ⟨.body 0 d⟩

theorem spelled_moreArguments (h : ∀ e ∈ es, Spelled .expr (ofExpr e) e) :
    Spelled .moreArguments
      ((es.flatMap fun e => .mark .comma :: ofExpr e) ++ [.mark .closeParen]) es := by
  induction es with
  | nil => exact ⟨by simpa using spells_mark _, ⟨.lastArgument⟩⟩
  | cons e es ih =>
    obtain ⟨⟨hspells, ⟨d⟩⟩, hes⟩ := List.forall_mem_cons.mp h
    obtain ⟨hmore, ⟨ds⟩⟩ := ih hes
    rw [List.flatMap_cons, List.append_assoc]
    refine ⟨?_, ?_⟩
    · rw [List.forall_mem_append, List.forall_mem_cons]
      exact ⟨⟨spells_mark _, hspells⟩, hmore⟩
    · rw [tokens_append, tokens_mark]
      exact ⟨.nextArgument d ds⟩

theorem spelled_arguments (h : ∀ e ∈ es, Spelled .expr (ofExpr e) e) :
    Spelled .arguments (separate .comma (es.map ofExpr) ++ [.mark .closeParen]) es := by
  cases es with
  | nil => exact ⟨by simpa [separate] using spells_mark _, ⟨.noArguments⟩⟩
  | cons e es =>
    obtain ⟨⟨hspells, ⟨d⟩⟩, hes⟩ := List.forall_mem_cons.mp h
    obtain ⟨hmore, ⟨ds⟩⟩ := spelled_moreArguments hes
    rw [List.map_cons, separate, intercalate_eq_append_flatMap, List.flatMap_map, List.append_assoc]
    refine ⟨List.forall_mem_append.mpr ⟨hspells, hmore⟩, ?_⟩
    rw [tokens_append]
    exact ⟨.someArguments d ds⟩

/-- Every item of a tuple is written with a comma behind it, so that a comma comes before the others
and the last one has no item behind it. -/
theorem spelled_items (h : ∀ e ∈ es, Spelled .expr (ofExpr e) e) :
    Spelled .items (.mark .comma :: es.flatMap fun e => ofExpr e ++ [.mark .comma]) es := by
  induction es with
  | nil => exact ⟨by simpa using spells_mark _, ⟨.trailingComma⟩⟩
  | cons e es ih =>
    obtain ⟨⟨hspells, ⟨d⟩⟩, hes⟩ := List.forall_mem_cons.mp h
    obtain ⟨hmore, ⟨ds⟩⟩ := ih hes
    rw [List.flatMap_cons, List.append_assoc, List.singleton_append]
    refine ⟨?_, ?_⟩
    · rw [List.forall_mem_cons, List.forall_mem_append]
      exact ⟨spells_mark _, hspells, hmore⟩
    · rw [tokens_mark, tokens_append]
      exact ⟨.nextItem d (.furtherItems ds)⟩

theorem spelled_tuple (h : ∀ e ∈ es, Spelled .expr (ofExpr e) e) :
    Spelled .primary (parenthesise ((es.map ofExpr).flatMap (· ++ [.mark .comma])))
      (.tuple es) := by
  rw [List.flatMap_map]
  cases es with
  | nil => exact ⟨by simp [parenthesise, spells_mark], ⟨.unit⟩⟩
  | cons e es =>
    obtain ⟨⟨hspells, ⟨d⟩⟩, hes⟩ := List.forall_mem_cons.mp h
    obtain ⟨hmore, ⟨ds⟩⟩ := spelled_items hes
    rw [List.flatMap_cons, List.append_assoc, List.singleton_append, parenthesise]
    refine ⟨?_, ?_⟩
    · rw [List.forall_mem_append, List.forall_mem_cons, List.forall_mem_append]
      exact ⟨⟨spells_mark _, hspells, hmore⟩, by simpa using spells_mark _⟩
    · rw [tokens_append, tokens_mark, tokens_append, List.cons_append, List.append_assoc]
      exact ⟨.tuple d ds⟩

end Lists

section Trees

open Lexeme

variable {ls ms : List Lexeme} {e l r c : Expr} {es fs : List Expr}

theorem spelled_literal {value : Value} (h : value.IsLiteral) :
    Spelled .expr (ofValue value) (.lit value) := by
  cases value with
  | int n =>
    refine ⟨List.forall_mem_singleton.mpr (spells_ofInt h), ?_⟩
    rw [ofValue, tokens_cons (token_ofInt h)]
    exact Derives.expr_of_primary ⟨.int n⟩
  | string text =>
    refine ⟨List.forall_mem_singleton.mpr (spells_ofString h), ?_⟩
    rw [ofValue, tokens_cons (token_ofString text)]
    exact Derives.expr_of_primary ⟨.string text⟩
  | bool b =>
    refine ⟨List.forall_mem_singleton.mpr (spells_bool b), ?_⟩
    exact Derives.expr_of_primary ⟨.bool b⟩
  | tuple | absent => exact absurd h id

theorem spelled_name {name : String} (h : IsIdentifier name) :
    Spelled .expr [ofName name] (.name name) := by
  refine ⟨List.forall_mem_singleton.mpr (spells_ofName h), ?_⟩
  rw [tokens_cons (token_ofName name)]
  exact Derives.expr_of_primary ⟨.name name⟩

theorem spelled_call {name : String} (h : IsIdentifier name)
    (hs : Spelled .arguments (ls ++ [.mark .closeParen]) es) :
    Spelled .expr (ofName name :: parenthesise ls) (.call name es) := by
  obtain ⟨hspells, ⟨d⟩⟩ := hs
  rw [parenthesise, List.cons_append]
  refine ⟨?_, ?_⟩
  · rw [List.forall_mem_cons, List.forall_mem_cons]
    exact ⟨spells_ofName h, spells_mark _, hspells⟩
  · rw [tokens_cons (token_ofName name), tokens_mark]
    exact Derives.expr_of_primary ⟨.call name d⟩

/-- A statement that gives a name a value, by either of the two marks. -/
theorem spelled_naming {name : String} {m : Mark} {statement : Expr} (h : IsIdentifier name)
    (he : Spelled .expr ls e)
    (rule : ∀ {ts}, Derivation .expr ts e →
      Derivation .statement (.name name :: .mark m :: ts) statement) :
    Spelled .statement (ofName name :: .mark m :: ls) statement := by
  obtain ⟨hspells, ⟨d⟩⟩ := he
  refine ⟨?_, ?_⟩
  · rw [List.forall_mem_cons, List.forall_mem_cons]
    exact ⟨spells_ofName h, spells_mark _, hspells⟩
  · rw [tokens_cons (token_ofName name), tokens_mark]
    exact ⟨rule d⟩

theorem Spelled.statement (h : Spelled .expr ls e) : Spelled .statement ls e := by
  obtain ⟨hspells, ⟨d⟩⟩ := h
  exact ⟨hspells, ⟨.expression d⟩⟩

theorem Spelled.block (h : Spelled .body ls es) : Spelled .expr ls (.block es) := by
  obtain ⟨hspells, ⟨d⟩⟩ := h
  exact ⟨hspells, Derives.expr_of_primary ⟨.block d⟩⟩

theorem Spelled.grouped (h : Spelled .expr ls e) : Spelled .unary (parenthesise ls) e := by
  obtain ⟨hspells, hderives⟩ := h
  rw [parenthesise]
  refine ⟨?_, ?_⟩
  · rw [List.forall_mem_append, List.forall_mem_cons]
    exact ⟨⟨spells_mark _, hspells⟩, List.forall_mem_singleton.mpr (spells_mark _)⟩
  · rw [tokens_append, tokens_mark]
    exact hderives.grouped

theorem spelled_binary (op : Operator) (hl : Spelled .unary ls l) (hr : Spelled .unary ms r) :
    Spelled .expr (ls ++ ofOperator op :: ms) (.binary op l r) := by
  rw [ofOperator_eq]
  refine ⟨?_, ?_⟩
  · rw [List.forall_mem_append, List.forall_mem_cons]
    exact ⟨hl.1, spells_mark _, hr.1⟩
  · rw [tokens_append, tokens_mark]
    exact hl.2.binary op hr.2

theorem spelled_conditional (op : Conditional) (hl : Spelled .unary ls l)
    (hr : Spelled .unary ms r) :
    Spelled .expr (ls ++ ofConditional op :: ms) (.conditional op l r) := by
  have hop : ofConditional op = .mark (conditionalMark op) := by cases op <;> rfl
  rw [hop]
  refine ⟨?_, ?_⟩
  · rw [List.forall_mem_append, List.forall_mem_cons]
    exact ⟨hl.1, spells_mark _, hr.1⟩
  · rw [tokens_append, tokens_mark]
    exact hl.2.conditional op hr.2

theorem Spelled.not (h : Spelled .unary ls e) : Spelled .expr (.mark .bang :: ls) (.not e) := by
  obtain ⟨hspells, ⟨d⟩⟩ := h
  refine ⟨List.forall_mem_cons.mpr ⟨spells_mark _, hspells⟩, ?_⟩
  rw [tokens_mark]
  exact Derives.expr_of_unary ⟨.not d⟩

theorem spelled_ifElse {thenLexemes elseLexemes : List Lexeme} (hc : Spelled .unary ls c)
    (hthen : Spelled .body thenLexemes es) (helse : Spelled .body elseLexemes fs) :
    Spelled .expr (.mark .ifWord :: ls ++ thenLexemes ++ .mark .elseWord :: elseLexemes)
      (.ifElse c es fs) := by
  obtain ⟨dc⟩ := hc.2.expr_of_unary
  obtain ⟨hspells, ⟨dthen⟩⟩ := hthen
  obtain ⟨hspells', ⟨delse⟩⟩ := helse
  rw [List.append_assoc, List.cons_append]
  refine ⟨?_, ?_⟩
  · simp only [List.forall_mem_cons, List.forall_mem_append]
    exact ⟨spells_mark _, hc.1, hspells, spells_mark _, hspells'⟩
  · rw [tokens_mark, tokens_append, tokens_append, tokens_mark]
    exact Derives.expr_of_primary ⟨.condition (.ifElse dc dthen delse)⟩

mutual

/-- The lexemes of a well-formed expression spell it. -/
theorem spelled_expr : ∀ e : Expr, e.WellFormed false → Spelled .expr (ofExpr e) e
  | .lit value, h => spelled_literal h
  | .name n, h => spelled_name h
  | .call n args, h => by
    rw [ofExpr, ofEach_eq_map]
    exact spelled_call h.1 (spelled_arguments fun e he =>
      spelled_expr e (Expr.wellFormedEach_iff.mp h.2 e he))
  | .declare n value, h => by cases h.1
  | .assign n value, h => by cases h.1
  | .block body, h => by
    rw [ofExpr, ofEach_eq_map]
    exact (spelled_body fun e he => spelled_statement e (Expr.wellFormedEach_iff.mp h e he)).block
  | .binary op left right, h => by
    rw [ofExpr]
    exact spelled_binary op (spelled_expr left h.1).grouped (spelled_expr right h.2).grouped
  | .conditional op left right, h => by
    rw [ofExpr]
    exact spelled_conditional op (spelled_expr left h.1).grouped (spelled_expr right h.2).grouped
  | .ifElse condition thenBody elseBody, h => by
    rw [ofExpr, ofEach_eq_map, ofEach_eq_map]
    exact spelled_ifElse (spelled_expr condition h.1).grouped
      (spelled_body fun e he => spelled_statement e (Expr.wellFormedEach_iff.mp h.2.1 e he))
      (spelled_body fun e he => spelled_statement e (Expr.wellFormedEach_iff.mp h.2.2 e he))
  | .not operand, h => (spelled_expr operand h).grouped.not
  | .tuple items, h => by
    rw [ofExpr, ofEach_eq_map]
    have htuple := spelled_tuple fun e he =>
      spelled_expr e (Expr.wellFormedEach_iff.mp h e he)
    exact ⟨htuple.1, htuple.2.expr_of_primary⟩
  | .missing, h => absurd h id
termination_by e => (sizeOf e, 0)

/-- The lexemes of a well-formed statement spell it. -/
theorem spelled_statement : ∀ e : Expr, e.WellFormed true → Spelled .statement (ofExpr e) e
  | .declare n value, h => spelled_naming h.2.1 (spelled_expr value h.2.2) (.declare n)
  | .assign n value, h => spelled_naming h.2.1 (spelled_expr value h.2.2) (.assign n)
  | .lit value, h => (spelled_expr (.lit value) h).statement
  | .name n, h => (spelled_expr (.name n) h).statement
  | .call n args, h => (spelled_expr (.call n args) h).statement
  | .block body, h => (spelled_expr (.block body) h).statement
  | .binary op left right, h => (spelled_expr (.binary op left right) h).statement
  | .conditional op left right, h => (spelled_expr (.conditional op left right) h).statement
  | .ifElse condition thenBody elseBody, h =>
    (spelled_expr (.ifElse condition thenBody elseBody) h).statement
  | .not operand, h => (spelled_expr (.not operand) h).statement
  | .tuple items, h => (spelled_expr (.tuple items) h).statement
  | .missing, h => absurd h id
termination_by e => (sizeOf e, 1)

end

end Trees

section Programs

open Lexeme

theorem spelled_param {p : Param} (h : p.WellFormed) : Spelled .param (ofParam p) p := by
  obtain ⟨name, annotation⟩ := p
  rw [ofParam]
  cases annotation with
  | none =>
    refine ⟨List.forall_mem_singleton.mpr (spells_ofName h.1), ?_⟩
    rw [Option.toList_none, List.map_nil, tokens_cons (token_ofName name)]
    exact ⟨.plainParam name⟩
  | some text =>
    rw [Option.toList_some, List.map_cons, List.map_nil]
    refine ⟨?_, ?_⟩
    · rw [List.forall_mem_cons, List.forall_mem_singleton]
      exact ⟨spells_ofName h.1, spells_ofName (h.2 text rfl)⟩
    · rw [tokens_cons (token_ofName name), tokens_cons (token_ofName text)]
      exact ⟨.annotatedParam name text⟩

theorem spelled_moreParams {ps : List Param} (h : ∀ p ∈ ps, p.WellFormed) :
    Spelled .moreParams
      ((ps.flatMap fun p => .mark .comma :: ofParam p) ++ [.mark .closeParen]) ps := by
  induction ps with
  | nil => exact ⟨List.forall_mem_singleton.mpr (spells_mark _), ⟨.lastParam⟩⟩
  | cons p ps ih =>
    obtain ⟨hp, hps⟩ := List.forall_mem_cons.mp h
    obtain ⟨hspells, ⟨d⟩⟩ := spelled_param hp
    obtain ⟨hmore, ⟨ds⟩⟩ := ih hps
    rw [List.flatMap_cons, List.append_assoc]
    refine ⟨?_, ?_⟩
    · rw [List.forall_mem_append, List.forall_mem_cons]
      exact ⟨⟨spells_mark _, hspells⟩, hmore⟩
    · rw [tokens_append, tokens_mark]
      exact ⟨.nextParam d ds⟩

theorem spelled_params {ps : List Param} (h : ∀ p ∈ ps, p.WellFormed) :
    Spelled .params (separate .comma (ps.map ofParam) ++ [.mark .closeParen]) ps := by
  cases ps with
  | nil => exact ⟨List.forall_mem_singleton.mpr (spells_mark _), ⟨.noParams⟩⟩
  | cons p ps =>
    obtain ⟨hp, hps⟩ := List.forall_mem_cons.mp h
    obtain ⟨hspells, ⟨d⟩⟩ := spelled_param hp
    obtain ⟨hmore, ⟨ds⟩⟩ := spelled_moreParams hps
    rw [List.map_cons, separate, intercalate_eq_append_flatMap, List.flatMap_map, List.append_assoc]
    refine ⟨List.forall_mem_append.mpr ⟨hspells, hmore⟩, ?_⟩
    rw [tokens_append]
    exact ⟨.someParams d ds⟩

theorem spelled_function {f : Function} (h : f.WellFormed) :
    Spelled .function (ofFunction f) f := by
  have hbody := spelled_body fun e he =>
    spelled_statement e (Expr.wellFormedEach_iff.mp h.body e he)
  obtain ⟨hparams, ⟨dparams⟩⟩ := spelled_params h.params
  obtain ⟨hbody, ⟨dbody⟩⟩ := hbody
  show Spelled .function (.mark .func :: ofName f.name :: .mark .openParen ::
    ((separate .comma (f.params.map ofParam) ++ [.mark .closeParen]) ++
      brace (separate .semicolon (f.body.map ofExpr)))) f
  refine ⟨?_, ?_⟩
  · rw [List.forall_mem_cons, List.forall_mem_cons, List.forall_mem_cons, List.forall_mem_append]
    exact ⟨spells_mark _, spells_ofName h.name, spells_mark _, hparams, hbody⟩
  · rw [tokens_mark, tokens_cons (token_ofName f.name), tokens_mark, tokens_append]
    exact ⟨.function f.name dparams dbody⟩

theorem spelled_functions {P : Program} (h : P.WellFormed) :
    Spelled .functions (P.flatMap ofFunction) P := by
  induction P with
  | nil => exact ⟨by simp, ⟨.noFunctions⟩⟩
  | cons f P ih =>
    obtain ⟨hf, hP⟩ := List.forall_mem_cons.mp h
    obtain ⟨hspells, ⟨d⟩⟩ := spelled_function hf
    obtain ⟨hmore, ⟨ds⟩⟩ := ih hP
    rw [List.flatMap_cons]
    refine ⟨List.forall_mem_append.mpr ⟨hspells, hmore⟩, ?_⟩
    rw [tokens_append]
    exact ⟨.someFunctions 0 d ds⟩

theorem spelled_program {P : Program} (h : P.WellFormed) :
    Spelled .program (P.flatMap ofFunction) P := by
  obtain ⟨hspells, ⟨ds⟩⟩ := spelled_functions h
  exact ⟨hspells, ⟨.program 0 ds⟩⟩

end Programs

/-! ## Scanning lexemes with blanks between them -/

namespace Lexeme

/-- The lexemes as they stand behind another, each with a blank before it. -/
def spaced (lexemes : List Lexeme) : List Char :=
  lexemes.flatMap fun lexeme => ' ' :: lexeme.spelling

theorem atGap_spaced (lexemes : List Lexeme) : AtGap (spaced lexemes) := by
  cases lexemes with
  | nil => rfl
  | cons l lexemes => rfl

end Lexeme

section Scanning

open Lexeme

/-- A lexeme behind a gap without a line feed is scanned to its token. -/
theorem yields_cons {lexeme : Lexeme} {lexemes : List Lexeme} {s : Scanner} (h : lexeme.Spells)
    (hline : '\n' ∉ gap false s.rest)
    (hfront : afterGap false s.rest = lexeme.spelling ++ spaced lexemes)
    (hmore : ∀ after : Scanner, after.rest = spaced lexemes →
      Feed.Yields (.scanner after) (tokens lexemes) none) :
    Feed.Yields (.scanner s) (tokens (lexeme :: lexemes)) none := by
  obtain ⟨hwell, token, htoken⟩ := h
  obtain ⟨span, after, hnext, rfl, hafter⟩ :=
    Scanner.next_of_lexeme hline hfront hwell (atGap_spaced lexemes) htoken
  rw [tokens_cons htoken]
  exact .token (Feed.next_scanner hnext) (hmore after hafter)

/-- Lexemes with a blank before each are scanned to their tokens. -/
theorem yields_spaced {lexemes : List Lexeme} (h : ∀ lexeme ∈ lexemes, lexeme.Spells) (s : Scanner)
    (hs : s.rest = spaced lexemes) : Feed.Yields (.scanner s) (tokens lexemes) none := by
  induction lexemes generalizing s with
  | nil =>
    have hgap : gap false s.rest = [] ∧ afterGap false s.rest = [] := by
      rw [hs]
      exact ⟨rfl, rfl⟩
    obtain ⟨after, hnext⟩ := Scanner.next_of_nil (by rw [hgap.1]; simp) hgap.2
    exact .finished (Feed.next_scanner hnext)
  | cons l lexemes ih =>
    obtain ⟨hl, hlexemes⟩ := List.forall_mem_cons.mp h
    obtain ⟨hblank, hskip⟩ := gap_of_isBlank (by decide : isBlank ' ' = true)
      (l.spelling ++ spaced lexemes)
    obtain ⟨hnone, hfront⟩ := gap_spelling hl.1 (atGap_spaced lexemes)
    have hrest : s.rest = ' ' :: (l.spelling ++ spaced lexemes) := hs
    refine yields_cons hl ?_ ?_ (ih hlexemes)
    · rw [hrest, hblank, hnone]
      decide
    · rw [hrest, hskip, hfront]

/-- The text of lexemes with blanks between them is scanned to their tokens. -/
theorem yields_intercalate {lexemes : List Lexeme} (h : ∀ lexeme ∈ lexemes, lexeme.Spells)
    (s : Scanner) (hs : s.rest = [' '].intercalate (lexemes.map spelling)) :
    Feed.Yields (.scanner s) (tokens lexemes) none := by
  cases lexemes with
  | nil => exact yields_spaced h s hs
  | cons l lexemes =>
    obtain ⟨hl, hlexemes⟩ := List.forall_mem_cons.mp h
    obtain ⟨hnone, hfront⟩ := gap_spelling hl.1 (atGap_spaced lexemes)
    have hrest : s.rest = l.spelling ++ spaced lexemes := by
      rw [hs, List.map_cons, intercalate_eq_append_flatMap, List.flatMap_map, spaced]
    refine yields_cons hl ?_ ?_ (yields_spaced hlexemes)
    · rw [hrest, hnone]
      simp
    · rw [hrest, hfront]

end Scanning

/-! ## Source texts and trees -/

/-- The canonical text of a well-formed program has the tokens of its lexemes before it. -/
theorem holds_text {P : Program} (h : P.WellFormed) :
    (Cursor.ofSource P.text).Holds (Lexeme.tokens (P.flatMap Lexeme.ofFunction)) none := by
  refine ⟨_, yields_intercalate (spelled_program h).1 _ ?_, rfl⟩
  rw [Scanner.ofSource, Program.text, String.toList_ofList]

theorem length_tokens_le (lexemes : List Lexeme) :
    (Lexeme.tokens lexemes).length ≤ lexemes.length :=
  List.length_filterMap_le _ _

/-- **Source texts and trees correspond.** The canonical text of a well-formed program is read back
as that program, with any budget above ten times the number of its lexemes; with the fixed limit on
nesting it is read back or found to be nested too deeply.  What is read from any source text is
well-formed, so that the well-formed programs are exactly those that source texts spell, and
printing what was read and reading it again changes nothing. -/
theorem source_texts_spell_the_wellFormed_programs :
    (∀ (P : Program) (budget : Nat), P.WellFormed →
      10 * (P.flatMap Lexeme.ofFunction).length < budget →
      (Parser.program budget).result (.ofSource P.text) = .ok P) ∧
    (∀ P : Program, P.WellFormed →
      Program.parse P.text = .ok P ∨
        ∃ position, Program.parse P.text = .error (.nestedTooDeeply position)) ∧
    (∀ (source : String) (P : Program), Program.parse source = .ok P → P.WellFormed) ∧
    (∀ P : Program, P.WellFormed ↔
      ∃ source budget, (Parser.program budget).result (.ofSource source) = .ok P) ∧
    ∀ (source : String) (P : Program), Program.parse source = .ok P →
      Program.parse P.text = .ok P ∨
        ∃ position, Program.parse P.text = .error (.nestedTooDeeply position) := by
  have hback : ∀ (P : Program) (budget : Nat), P.WellFormed →
      10 * (P.flatMap Lexeme.ofFunction).length < budget →
      (Parser.program budget).result (.ofSource P.text) = .ok P := by
    intro P budget h hbudget
    have hlength := length_tokens_le (P.flatMap Lexeme.ofFunction)
    exact Parser.result_of_derives (holds_text h) (by omega) (spelled_program h).2
  have hlimited : ∀ P : Program, P.WellFormed →
      Program.parse P.text = .ok P ∨
        ∃ position, Program.parse P.text = .error (.nestedTooDeeply position) := by
    intro P h
    exact Parser.result_of_derives_or _ (holds_text h) (spelled_program h).2
  have hread : ∀ (source : String) (P : Program), Program.parse source = .ok P → P.WellFormed := by
    intro source P hparse
    exact Parser.wellFormed_of_result hparse
  refine ⟨hback, hlimited, hread, fun P => ⟨fun h => ?_, ?_⟩, fun source P hparse => ?_⟩
  · exact ⟨P.text, _, hback P _ h (Nat.lt_succ_self _)⟩
  · rintro ⟨source, budget, hresult⟩
    exact Parser.wellFormed_of_result hresult
  · exact hlimited P (hread source P hparse)

/-- What `func f(n) { n-1 }` spells. -/
def decrementTree : Program :=
  [⟨"f", [⟨"n", none⟩], [.binary .add (.name "n") (.lit (.int (-1)))]⟩]

theorem decrementTree_is_read_back :
    Program.parse "func f(n) \x7b n-1 \x7d" = .ok decrementTree ∧ decrementTree.WellFormed ∧
    (Parser.program 1000).result (.ofSource decrementTree.text) = .ok decrementTree := by
  have hparse : Program.parse "func f(n) \x7b n-1 \x7d" = .ok decrementTree := by decide +kernel
  have hwell := source_texts_spell_the_wellFormed_programs.2.2.1 _ _ hparse
  exact ⟨hparse, hwell, source_texts_spell_the_wellFormed_programs.1 _ _ hwell (by decide)⟩

end Scriptlet
