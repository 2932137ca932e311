import Scriptlet.Proofs.Lexemes
import Scriptlet.Proofs.Unambiguous

/-!
# The trees that source texts spell

Trees can be put together by hand in ways that no text spells.  Those that a text can spell are the
well-formed ones: every name is an identifier, every literal is a 64-bit integer, a bool or a string
without quotes, and declarations and assignments stand only where statements stand, directly in the
body of a function, in a block or in a branch of a condition.

That what is read from a source text is well-formed has two parts.  The tokens that a scanner hands
out carry only such names and literals (`Token.Sound`), and a tree that derives from such tokens is
well-formed; the second part is an induction on the derivation.
-/

namespace Scriptlet

/-! ## Well-formed trees -/

/-- The name can be written in a source text: a lower-case letter and word characters, and none of
the words that mean something else. -/
def IsIdentifier (name : String) : Prop :=
  Lexeme.IsName name.toList

/-- The value can be written as a literal. -/
def Value.IsLiteral : Value → Prop
  | .int n => Word64.InRange n
  | .string text => '"' ∉ text.toList
  | .bool _ => True
  | .tuple _ | .absent => False

mutual

/-- The tree can be written in a source text, in the place of a statement or of an expression. -/
def Expr.WellFormed : (isStatement : Bool) → Expr → Prop
  | _, .lit value => value.IsLiteral
  | _, .name n => IsIdentifier n
  | _, .call n args => IsIdentifier n ∧ WellFormedEach false args
  | isStatement, .declare n value => isStatement = true ∧ IsIdentifier n ∧ WellFormed false value
  | isStatement, .assign n value => isStatement = true ∧ IsIdentifier n ∧ WellFormed false value
  | _, .block body => WellFormedEach true body
  | _, .binary _ left right => WellFormed false left ∧ WellFormed false right
  | _, .conditional _ left right => WellFormed false left ∧ WellFormed false right
  | _, .ifElse condition thenBody elseBody =>
    WellFormed false condition ∧ WellFormedEach true thenBody ∧ WellFormedEach true elseBody
  | _, .not operand => WellFormed false operand
  | _, .tuple items => WellFormedEach false items
  | _, .missing => False

/-- Each of the trees can be written in a source text. -/
def Expr.WellFormedEach : (isStatement : Bool) → List Expr → Prop
  | _, [] => True
  | isStatement, e :: es => e.WellFormed isStatement ∧ WellFormedEach isStatement es

end

/-- The parameter has an identifier for its name and for its annotation, if there is one. -/
def Param.WellFormed (p : Param) : Prop :=
  IsIdentifier p.name ∧ ∀ annotation ∈ p.annotation, IsIdentifier annotation

/-- The function can be written in a source text. -/
structure Function.WellFormed (f : Function) : Prop where
  name : IsIdentifier f.name
  params : ∀ p ∈ f.params, p.WellFormed
  body : Expr.WellFormedEach true f.body

/-- The program can be written in a source text. -/
def Program.WellFormed (P : Program) : Prop :=
  ∀ f ∈ P, Function.WellFormed f

theorem Expr.wellFormedEach_iff {isStatement : Bool} {es : List Expr} :
    WellFormedEach isStatement es ↔ ∀ e ∈ es, e.WellFormed isStatement := by
  induction es with
  | nil => simp [WellFormedEach]
  | cons e es ih => rw [WellFormedEach, ih, List.forall_mem_cons]

/-- An expression may stand for a statement. -/
theorem Expr.WellFormed.statement {e : Expr} (h : e.WellFormed false) : e.WellFormed true := by
  cases e with
  | declare n value =>
    rw [WellFormed] at h
    cases h.1
  | assign n value =>
    rw [WellFormed] at h
    cases h.1
  | _ =>
    rw [WellFormed] at h ⊢
    exact h

/-! ## Tokens -/

/-- The token carries nothing that a source text could not spell. -/
def Token.Sound : Token → Prop
  | .mark _ | .bool _ => True
  | .string text => '"' ∉ text.toList
  | .int n => Word64.InRange n
  | .name text => IsIdentifier text

/-- All of the tokens are sound. -/
def AllSound (ts : List Token) : Prop :=
  ∀ t ∈ ts, t.Sound

namespace AllSound

variable {t : Token} {ts us : List Token}

theorem head (h : AllSound (t :: ts)) : t.Sound :=
  h t List.mem_cons_self

theorem tail (h : AllSound (t :: ts)) : AllSound ts :=
  fun t' ht => h t' (List.mem_cons_of_mem t ht)

theorem left (h : AllSound (ts ++ us)) : AllSound ts :=
  fun t ht => h t (List.mem_append_left us ht)

theorem right (h : AllSound (ts ++ us)) : AllSound us :=
  fun t ht => h t (List.mem_append_right ts ht)

end AllSound

/-- No escape stands for a quote. -/
theorem Text.Escape.notMem_decode {inner : List Char} (h : '"' ∉ inner) : '"' ∉ decode inner := by
  fun_induction decode inner with
  | case1 => exact h
  | case2 => exact List.not_mem_nil
  | case3 c text ih =>
    rw [List.mem_cons, List.mem_cons, not_or, not_or] at h
    rw [List.mem_append, not_or]
    refine ⟨?_, ih h.2.2⟩
    unfold meaning
    split
    · decide
    · decide
    · decide
    · decide
    · simpa using h.2.1
  | case4 c text _ _ ih =>
    rw [List.mem_cons, not_or] at h ⊢
    exact ⟨h.1, ih h.2⟩

theorem Lexeme.sound_token {lexeme : Lexeme} {token : Token} (hwell : lexeme.WellFormed)
    (htoken : lexeme.token = .ok token) : token.Sound := by
  cases lexeme with
  | mark m =>
    cases htoken
    trivial
  | bool b =>
    cases htoken
    trivial
  | name text =>
    cases htoken
    rw [Token.Sound, IsIdentifier, String.toList_ofList]
    exact hwell
  | string inner =>
    cases htoken
    rw [Token.Sound, String.toList_ofList]
    exact Text.Escape.notMem_decode hwell
  | int negative digits =>
    simp only [Lexeme.token] at htoken
    split at htoken
    · cases htoken
    · split at htoken
      · cases htoken
        assumption
      · cases htoken

/-- A scanner hands out sound tokens. -/
theorem Feed.Yields.sound {s : Scanner} {ts : List Token} {ending : Option ReadError}
    (h : Feed.Yields (.scanner s) ts ending) : AllSound ts := by
  generalize hfeed : Feed.scanner s = feed at h
  induction h generalizing s with
  | finished | error | overlong => exact fun t ht => absurd ht List.not_mem_nil
  | @token _ left span ts _ hnext _ ih =>
    subst hfeed
    rw [Feed.next, Prod.mk.injEq] at hnext
    obtain ⟨hscanned, rfl⟩ := hnext
    have hspan : span.token.Sound := by
      rcases Scanner.token_cases (Prod.ext hscanned rfl) with ⟨hsemicolon, _⟩ |
        ⟨lexeme, hread, htoken⟩
      · rw [hsemicolon]
        trivial
      · exact Lexeme.sound_token (Lexeme.read?_sound hread).1 htoken
    intro t ht
    rcases List.mem_cons.mp ht with rfl | ht
    · exact hspan
    · exact ih rfl t ht

/-! ## Derivations -/

namespace Grammar

variable {c : Category} {ts us : List Token}

/-- The tree of a phrase is well-formed in the place where the category puts it.  For what follows
an operand, this depends on the tree before it. -/
def Category.WellFormed : (c : Category) → c.Tree → Prop
  | .program, P | .functions, P => P.WellFormed
  | .function, f => f.WellFormed
  | .params, ps | .moreParams, ps => ∀ p ∈ ps, Param.WellFormed p
  | .param, p => p.WellFormed
  | .body, es | .statements, es | .moreStatements, es => Expr.WellFormedEach true es
  | .statement, e => e.WellFormed true
  | .arguments, es | .moreArguments, es | .items, es | .moreItems, es =>
    Expr.WellFormedEach false es
  | .expr, e | .conjunction, e | .comparison, e | .sum, e | .term, e | .unary, e | .primary, e
  | .ifElse, e => e.WellFormed false
  | .exprRest left, e | .conjunctionRest left, e | .sumRest left, e | .termRest left, e =>
    left.WellFormed false → e.WellFormed false

/-- What derives from sound tokens is well-formed. -/
theorem Derivation.wellFormed {x : c.Tree} (d : Derivation c ts x) (h : AllSound ts) :
    c.WellFormed x := by
  induction d with
  | program _ _ ih => exact ih h.right
  | noFunctions => exact fun f hf => absurd hf List.not_mem_nil
  | someFunctions _ _ _ ih ihs => exact List.forall_mem_cons.mpr ⟨ih h.left, ihs h.right.right⟩
  | function _ _ _ ihs ih =>
    have hparts := h.tail.tail.tail
    exact ⟨h.tail.head, ihs hparts.left, ih hparts.right⟩
  | noParams | lastParam => exact fun p hp => absurd hp List.not_mem_nil
  | someParams _ _ ih ihs => exact List.forall_mem_cons.mpr ⟨ih h.left, ihs h.right⟩
  | nextParam _ _ ih ihs => exact List.forall_mem_cons.mpr ⟨ih h.tail.left, ihs h.tail.right⟩
  | plainParam => exact ⟨h.head, fun a ha => by cases ha⟩
  | annotatedParam =>
    refine ⟨h.head, fun a ha => ?_⟩
    cases ha
    exact h.tail.head
  | body _ _ ih => exact ih h.tail.right.left
  | noStatements | lastStatement | noArguments | lastArgument | trailingComma | lastItem =>
    exact trivial
  | someStatements _ _ ih ihs | someArguments _ _ ih ihs => exact ⟨ih h.left, ihs h.right⟩
  | nextStatement _ _ _ ih ihs => exact ⟨ih h.right.left, ihs h.right.right⟩
  | nextArgument _ _ ih ihs | nextItem _ _ ih ihs => exact ⟨ih h.tail.left, ihs h.tail.right⟩
  | declare _ _ ih | assign _ _ ih => exact ⟨rfl, h.head, ih h.tail.tail⟩
  | expression _ ih => exact (ih h).statement
  | expr _ _ ih ihs | conjunction _ _ ih ihs | sum _ _ ih ihs | term _ _ ih ihs =>
    exact ihs h.right (ih h.left)
  | exprEnd | conjunctionEnd | sumEnd | termEnd => exact fun hleft => hleft
  | or _ _ ih ihs | and _ _ ih ihs =>
    exact fun hleft => ihs h.tail.right ⟨hleft, ih h.tail.left⟩
  | plainSum _ ih | plainPrimary _ ih | condition _ ih | furtherItems _ ih => exact ih h
  | compare _ _ _ _ ih ihs => exact ⟨ih h.left, ihs h.right.tail⟩
  | sign _ _ _ _ ih ihs | factor _ _ _ _ ih ihs =>
    exact fun hleft => ihs h.tail.right ⟨hleft, ih h.tail.left⟩
  | negative n _ _ _ ih ihs =>
    have hn : (Expr.lit (.int n)).WellFormed false := h.head
    exact fun hleft => ihs h.tail.right ⟨hleft, ih h.tail.left hn⟩
  | not _ ih => exact ih h.tail
  | int | string | name => exact h.head
  | bool | unit => exact trivial
  | call _ _ ih => exact ⟨h.head, ih h.tail.tail⟩
  | group _ ih => exact ih h.tail.left
  | tuple _ _ ih ihs => exact ⟨ih h.tail.left, ihs h.tail.right.left⟩
  | block _ ih => exact ih h
  | ifOnly _ _ ih ihs => exact ⟨ih h.tail.left, ihs h.tail.right, trivial⟩
  | ifElse _ _ _ ih ihs ihv =>
    have hbodies := h.tail.right
    exact ⟨ih h.tail.left, ihs hbodies.left, ihv hbodies.right.tail⟩
  | elseIf _ _ _ ih ihs ihv =>
    have hbodies := h.tail.right
    exact ⟨ih h.tail.left, ihs hbodies.left, (ihv hbodies.right.tail).statement, trivial⟩

end Grammar

/-- What is read from a source text is well-formed. -/
theorem Parser.wellFormed_of_result {source : String} {budget : Nat} {P : Program}
    (h : (Parser.program budget).result (.ofSource source) = .ok P) : P.WellFormed := by
  obtain ⟨ts, ending, hholds⟩ := (Cursor.ofSource source).exists_holds
  obtain ⟨d⟩ := Parser.derives_of_result hholds h
  obtain ⟨pending, hfeed, rfl⟩ := hholds
  exact d.wellFormed hfeed.sound

end Scriptlet
