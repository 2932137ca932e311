import Scriptlet.Proofs.Display
import Scriptlet.Proofs.ScanningAhead
import Scriptlet.Proofs.Sessions
import Scriptlet.Proofs.Subtraction

/-!
# Subtraction without blanks

In `n-1` no blank shows where the operator ends, and the scanner takes the sign for that of an
integer.  What is read must then be told from the value of the integer alone: behind an operand a
negative one goes on with the sum.  So a function with the body `x-d` does what the one with the
body `x - d` does, for every name and every numeral, leading zeros included, with one exception.
The integer of `-0` is not negative.  Behind a name it does not go on with anything, and the parser
asks for a semicolon in its place.

The way goes from the characters to the answer of a call.

* **Scanning.**  The two texts are scanned lexeme by lexeme (`holds_tight`, `holds_spaced`).  Unlike
  in the canonical text of a program, a name stands directly before a mark.
* **Reading.**  What is read follows from a derivation of the body, except for the zero.  There the
  parser is run on tokens of which only the name and the places are unknown (`parse_of_zero`).
* **Calls.**  A call of a function with one parameter and one expression in its body comes to what
  the expression comes to where the parameter is bound (`Run.result_call_single`).
-/

namespace Scriptlet

open Scriptlet.Text Grammar

/-! ## The texts and their tokens -/

/-- The text of a function with one parameter and a body of one line. -/
def functionText (x body : List Char) : String :=
  .ofList (['f', 'u', 'n', 'c', ' ', 'f', '('] ++ (x ++ ([')', ' ', '\x7b', ' '] ++
    (body ++ [' ', '\x7d']))))

/-- The text of a function that subtracts, without blanks around the sign. -/
def tightText (x digits : List Char) : String :=
  functionText x (x ++ '-' :: digits)

/-- The same with a blank before the sign and one behind it. -/
def spacedText (x digits : List Char) : String :=
  functionText x (x ++ ' ' :: '-' :: ' ' :: digits)

/-- The tokens of a function with one parameter, from those of its body. -/
def functionTokens (x : String) (body : List Token) : List Token :=
  [.mark .func, .name "f", .mark .openParen, .name x, .mark .closeParen, .mark .openBrace] ++
    (body ++ [.mark .closeBrace])

/-- The digits are a numeral that is read, and its value is an integer of 64 bits. -/
structure IsNumeral (digits : List Char) : Prop where
  ne_nil : digits ≠ []
  isDigit : ∀ d ∈ digits, d.isDigit = true
  length_le : digits.length ≤ Decimal.maxDigits
  value_le : Decimal.value digits ≤ 9223372036854775807

section Scanning

variable {x digits body : List Char} {ts : List Token}

theorem IsNumeral.token_eq (h : IsNumeral digits) (negative : Bool) :
    (Lexeme.int negative digits).token = .ok (.int (Decimal.signedValue negative digits)) := by
  have hrange : Word64.InRange (Decimal.signedValue negative digits) := by
    have hvalue := h.value_le
    cases negative <;> simp only [Decimal.signedValue, Word64.InRange] <;> grind
  rw [Lexeme.token, if_neg (Nat.not_lt.mpr h.length_le)]
  exact if_pos hrange

theorem tight_of_isName (h : Lexeme.IsName x) (rest : List Char) : Tight (x ++ rest) := by
  obtain ⟨first, others, rfl, hfirst, _⟩ := h.shape
  obtain ⟨hblank, hslash⟩ := Lexeme.isBlank_eq_false_of_startsName hfirst
  exact tight_cons hblank hslash _

theorem IsNumeral.tight (h : IsNumeral digits) (rest : List Char) : Tight (digits ++ rest) := by
  obtain ⟨d, others, rfl⟩ := List.exists_cons_of_ne_nil h.ne_nil
  obtain ⟨hblank, hslash⟩ := Lexeme.isBlank_eq_false_of_isDigit (h.isDigit d List.mem_cons_self)
  exact tight_cons hblank hslash _

theorem scans_closeBrace : Scans ['\x7d'] [.mark .closeBrace] :=
  .cons_tight rfl rfl rfl scans_nil

/-- A function is scanned to its tokens if its body is. -/
theorem holds_functionText (hx : Lexeme.IsName x) (htight : Tight (body ++ [' ', '\x7d']))
    (h : Scans (body ++ [' ', '\x7d']) (ts ++ [.mark .closeBrace])) :
    (Cursor.ofSource (functionText x body)).Holds (functionTokens (.ofList x) ts) none := by
  have hhead : Scans ([')', ' ', '\x7b', ' '] ++ (body ++ [' ', '\x7d']))
      (.mark .closeParen :: .mark .openBrace :: (ts ++ [.mark .closeBrace])) :=
    .cons_blank rfl rfl (tight_cons rfl (by decide) _) (.cons_blank rfl rfl htight h)
  have hparam := Scans.cons_tight (Lexeme.read?_name hx rfl) rfl
    (tight_cons rfl (by decide) _) hhead
  have htext : (functionText x body).toList = ['f', 'u', 'n', 'c', ' ', 'f', '('] ++
      (x ++ ([')', ' ', '\x7b', ' '] ++ (body ++ [' ', '\x7d']))) := String.toList_ofList
  refine ⟨_, Scans.yields_ofSource ?_ ?_, rfl⟩ <;> rw [htext]
  · refine .cons_blank rfl rfl (tight_cons rfl (by decide) _) ?_
    refine .cons_tight rfl rfl (tight_cons rfl (by decide) _) ?_
    exact .cons_tight rfl rfl (tight_of_isName hx _) hparam
  · exact tight_cons rfl (by decide) _

/-- The numeral that the body ends with. -/
theorem IsNumeral.scans (h : IsNumeral digits) (negative : Bool) :
    Scans ((Lexeme.int negative digits).spelling ++ [' ', '\x7d'])
      [.int (Decimal.signedValue negative digits), .mark .closeBrace] := by
  have hwell : (Lexeme.int negative digits).WellFormed := ⟨h.ne_nil, h.isDigit⟩
  have hrest : Lexeme.startsWith Char.isDigit [' ', '\x7d'] = false := by decide
  have hread := Lexeme.read?_int hwell hrest
  exact .cons_blank hread (h.token_eq negative) rfl scans_closeBrace

/-- Without a blank behind it the minus sign is part of the integer. -/
theorem holds_tight (hx : Lexeme.IsName x) (h : IsNumeral digits) :
    (Cursor.ofSource (tightText x digits)).Holds
      (functionTokens (.ofList x) [.name (.ofList x), .int (-(Decimal.value digits : Int))])
      none := by
  refine holds_functionText hx ?_ ?_
  · rw [List.append_assoc]
    exact tight_of_isName hx _
  · rw [List.append_assoc]
    exact .cons_tight (Lexeme.read?_name hx rfl) rfl (tight_cons rfl (by decide) _) (h.scans true)

/-- With a blank it is a token of its own. -/
theorem holds_spaced (hx : Lexeme.IsName x) (h : IsNumeral digits) :
    (Cursor.ofSource (spacedText x digits)).Holds
      (functionTokens (.ofList x)
        [.name (.ofList x), .mark .minus, .int (Decimal.value digits : Int)]) none := by
  refine holds_functionText hx ?_ ?_
  · rw [List.append_assoc]
    exact tight_of_isName hx _
  · rw [List.append_assoc]
    refine .cons_blank (Lexeme.read?_name hx rfl) rfl (tight_cons rfl (by decide) _) ?_
    exact .cons_blank rfl rfl (h.tight _) (h.scans false)

end Scanning

/-! ## The trees -/

/-- A function with one parameter whose body is one expression. -/
def Program.single (x : String) (e : Expr) : Program :=
  [⟨"f", [⟨x, none⟩], [e]⟩]

theorem derives_single {x : String} {ts : List Token} {e : Expr} (h : Derives .sum ts e) :
    Derives .program (functionTokens x ts) (Program.single x e) := by
  obtain ⟨dexpr⟩ := h.comparison_of_sum.expr_of_comparison
  have dbody := Derivation.body 0 (.someStatements (.expression dexpr) (.lastStatement 0))
  have dfunction := Derivation.function "f" (.someParams (.plainParam x) .lastParam) dbody
  have dprogram := Derivation.program 0 (.someFunctions 0 dfunction .noFunctions)
  simp only [semicolons, List.replicate_zero, List.append_nil, List.nil_append] at dprogram
  exact ⟨dprogram⟩

theorem parse_of_derives {source : String} {x : String} {ts : List Token} {e : Expr}
    (hholds : (Cursor.ofSource source).Holds (functionTokens x ts) none) (hts : ts.length < 90)
    (h : Derives .sum ts e) : Program.parse source = .ok (Program.single x e) := by
  have hlength : 10 * (functionTokens x ts).length < Parser.nestingLimit := by
    simp only [functionTokens, List.length_append, List.length_cons, List.length_nil,
      Parser.nestingLimit]
    omega
  exact Parser.result_of_derives hholds hlength (derives_single h)

/-- A zero behind a name does not go on with the sum, whatever its sign was. -/
theorem parse_of_zero {source : String} {x : String}
    (h : (Cursor.ofSource source).Holds (functionTokens x [.name x, .int 0]) none) :
    ∃ position, Program.parse source =
      .error (.grammar (.expected (.mark .semicolon) (some (.int 0))) position) := by
  obtain ⟨pending, hyields, hpending⟩ := h
  obtain ⟨spans, hhands, rfl⟩ := hyields.exists_hands
  have habreast : (Cursor.ofSource source).Abreast (.ofItems (Item.ofSpans spans none)) :=
    ⟨rfl, rfl, spans, none, hhands, Feed.hands_items spans none⟩
  have hresult := (Parser.ruleClosed_sameFrom.program Parser.nestingLimit).result_eq habreast
  -- only the token behind the name and the place where it begins decide
  match spans, hpending with
  | [⟨_, _, _⟩, ⟨_, _, _⟩, ⟨_, _, _⟩, ⟨_, _, _⟩, ⟨_, _, _⟩, ⟨_, _, _⟩, ⟨_, _, _⟩, ⟨position, _, _⟩,
      ⟨_, _, _⟩], rfl =>
    exact ⟨position, hresult.trans rfl⟩

/-! ## Calls -/

namespace Run

variable {x : String} {e : Expr} {m : Machine}

/-- Loads a program and calls its function `f`. -/
def loadAndCall (P : Program) (args : List Value) : Run Value := do
  load P
  call "f" args

/-- The machine inside a call of `f`. -/
def openedFor (m : Machine) (x : String) (value : Value) : Machine :=
  { m with
    callDepth := m.callDepth + 1
    scopes := { kind := .detached, bindings := [(x, value)] } :: m.scopes
    log := m.log.push ("call " ++ "f" ++ "(" ++ ", ".intercalate [value.display] ++ ")") }

theorem callOpened_single (hm : m.functions = Program.single x e) (value : Value) :
    callOpened "f" [value] { m with
        callDepth := m.callDepth + 1, scopes := m.scopes.enter .detached } =
      eval e (openedFor m x value) := by
  have hfound : Machine.function? { m with
      callDepth := m.callDepth + 1, scopes := m.scopes.enter .detached } "f" =
        some ⟨"f", [⟨x, none⟩], [e]⟩ := by
    rw [Machine.function?, hm]
    rfl
  have hsequence : evalSequenceFrom [e] .unit = eval e := by
    rw [evalSequenceFrom_eq]
    exact bind_pure (eval e)
  rw [callOpened, if_neg (by decide), callFunction_eq_withFunction]
  show runFound "f" [value] (Machine.function? _ "f") _ = _
  rw [hfound, ← hsequence]
  rfl

/-- A call comes to what the body of the function comes to where the parameter is bound. -/
theorem result_call_single (hm : m.functions = Program.single x e) (value : Value)
    (hdepth : m.callDepth < m.maxCallDepth) :
    (call "f" [value]).result m = (eval e).result (openedFor m x value) := by
  have hopened := callOpened_single hm value
  obtain ⟨top, below, hleft, _⟩ := (keepsFrame_eval e (openedFor m x value)).scopes.exists_cons
  have hscopes : ((callOpened "f" [value]).after { m with
      callDepth := m.callDepth + 1, scopes := m.scopes.enter .detached }).scopes =
        top :: below := by
    rw [after, hopened]
    exact hleft
  rw [call_eq_inCall, (inCall_of_lt _ _ hdepth).1, (inScope_of_cons hscopes).1, result, hopened,
    result]

/-- In the call an operator is applied to the argument and the literal. -/
theorem eval_openedFor (op : Operator) (n k : Int) :
    eval (.binary op (.name x) (.lit (.int k))) (openedFor m x (.int n)) =
      ofOperator (op.apply (.int n) (.int k)) (openedFor m x (.int n)) := by
  have hread : eval (.name x) (openedFor m x (.int n)) = .ok (.int n) (openedFor m x (.int n)) := by
    have hget : (openedFor m x (.int n)).scopes.get x = .int n := by
      simp [openedFor, ScopeStack.get, ScopeStack.get?, Scope.get?]
    rw [eval_eq_evalParts, evalParts, readVariable, hget]
  rw [eval_eq_evalParts, evalParts, bind_of_ok hread]
  rfl

/-- What a call comes to: a value, or a fault of that kind. -/
def answer (P : Program) (n : Int) (m : Machine) : Except Diagnostic.Kind Value :=
  ((loadAndCall P [.int n]).result m).mapError Fault.kind

/-- What a difference comes to in a function that is called with `n`. -/
def differenceAnswer (n d : Int) (m : Machine) : Except Diagnostic.Kind Value :=
  if m.callDepth < m.maxCallDepth then
    if Word64.InRange (n - d) then .ok (.int (n - d)) else .error .overflow
  else .error .recursion

/-- The one function is loaded, and nothing is called by that. -/
theorem load_single (x : String) (e : Expr) (m : Machine) : ∃ loaded,
    load (Program.single x e) m = .ok () loaded ∧ loaded.functions = Program.single x e ∧
      loaded.callDepth = m.callDepth ∧ loaded.maxCallDepth = m.maxCallDepth :=
  ⟨_, load_of_distinct rfl m, rfl, rfl, rfl⟩

/-- An operator that comes to a difference, in a function that is called with `n`. -/
theorem answer_single {op : Operator} {n k d : Int}
    (hop : op.apply (.int n) (.int k) = Operator.checked op (n - d)) (m : Machine) :
    answer (.single x (.binary op (.name x) (.lit (.int k)))) n m = differenceAnswer n d m := by
  obtain ⟨loaded, hload, hfunctions, hcalls, hlimit⟩ :=
    load_single x (.binary op (.name x) (.lit (.int k))) m
  rw [answer, loadAndCall, result_bind_of_ok hload, differenceAnswer, ← hcalls, ← hlimit]
  by_cases hdepth : loaded.callDepth < loaded.maxCallDepth
  · rw [if_pos hdepth, result_call_single hfunctions _ hdepth, result, eval_openedFor, hop,
      Operator.checked]
    by_cases hrange : Word64.InRange (n - d)
    · rw [if_pos hrange, if_pos hrange]
      rfl
    · rw [if_neg hrange, if_neg hrange]
      rfl
  · rw [if_neg hdepth, call_eq_inCall, result_of_error (inCall_of_ge _ _ (Int.not_lt.mp hdepth))]
    rfl

end Run

/-- **Subtraction without blanks.**  Let `x` be a name, and let the value `d` of a numeral be below
`2^63`.  The function with the body `x - d` is read as one that subtracts `d`.  If `d` is not zero,
the one with the body `x-d` is read as one that adds `-d`; if it is zero, the text is refused, since
a semicolon is missing between the name and the zero.  In every machine the two functions answer
alike when they are called: with the difference, if it is in range, and with the same kind of fault
otherwise. -/
theorem subtraction_without_blanks {x digits : List Char} (hx : Lexeme.IsName x)
    (h : IsNumeral digits) :
    let name := String.ofList x
    let d : Int := Decimal.value digits
    let spaced := Program.single name (.binary .sub (.name name) (.lit (.int d)))
    let tight := Program.single name (.binary .add (.name name) (.lit (.int (-d))))
    Program.parse (spacedText x digits) = .ok spaced ∧
    (0 < d → Program.parse (tightText x digits) = .ok tight) ∧
    (d = 0 → ∃ position, Program.parse (tightText x digits) =
      .error (.grammar (.expected (.mark .semicolon) (some (.int 0))) position)) ∧
    ∀ n m, Run.answer tight n m = Run.differenceAnswer n d m ∧
      Run.answer spaced n m = Run.differenceAnswer n d m := by
  intro name d spaced tight
  have hname : Derives .sum [.name name] (.name name) :=
    ⟨.sum (.term (.plainPrimary (.name name)) .termEnd) .sumEnd⟩
  refine ⟨?_, fun hd => ?_, fun hd => ?_, fun n m => ⟨?_, ?_⟩⟩
  · exact parse_of_derives (holds_spaced hx h) (by simp) (Factors.nil.sum_minus hname d)
  · exact parse_of_derives (holds_tight hx h) (by simp) (Factors.nil.sum_negative hname hd)
  · have hzero : -d = 0 := by omega
    exact parse_of_zero (hzero ▸ holds_tight hx h)
  · exact Run.answer_single (by rw [Operator.apply, Operator.onInts, ← Int.sub_eq_add_neg]) m
  · exact Run.answer_single rfl m

/-- A numeral with leading zeros is subtracted without blanks, and a zero is not. -/
theorem seven_is_subtracted_without_blanks :
    tightText ['n'] ['0', '0', '7'] = "func f(n) \x7b n-007 \x7d" ∧
    Program.parse (tightText ['n'] ['0', '0', '7']) =
      .ok (Program.single "n" (.binary .add (.name "n") (.lit (.int (-7))))) ∧
    Run.answer (Program.single "n" (.binary .add (.name "n") (.lit (.int (-7)))))
      (-9223372036854775802) { maxCallDepth := 1 } = .error .overflow ∧
    tightText ['x'] ['0'] = "func f(x) \x7b x-0 \x7d" ∧
    ∃ position, Program.parse (tightText ['x'] ['0']) =
      .error (.grammar (.expected (.mark .semicolon) (some (.int 0))) position) := by
  have hn : Lexeme.IsName ['n'] := ⟨⟨'n', [], rfl, rfl, by simp⟩, by decide⟩
  have hx : Lexeme.IsName ['x'] := ⟨⟨'x', [], rfl, rfl, by simp⟩, by decide⟩
  have hseven : IsNumeral ['0', '0', '7'] :=
    ⟨by decide, List.all_eq_true.mp (by decide), by decide, by decide⟩
  have hzero : IsNumeral ['0'] := ⟨by decide, List.all_eq_true.mp (by decide), by decide, by decide⟩
  obtain ⟨_, hread, _, hanswers⟩ := subtraction_without_blanks hn hseven
  obtain ⟨_, _, hrefused, _⟩ := subtraction_without_blanks hx hzero
  exact ⟨by decide, hread (by decide), (hanswers _ _).1, by decide, hrefused (by decide)⟩

end Scriptlet
