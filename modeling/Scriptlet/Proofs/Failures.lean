import Scriptlet.Diagnostic
import Scriptlet.Proofs.Contract
import Scriptlet.Proofs.FirstImpossible
import Scriptlet.Proofs.Tiling

/-!
# Who is to blame for a failure

A machine that is driven by hand can be misused, and a tree put together by hand can lack an
expression.  Neither can come from a source text: whatever text is run, and however few calls are
allowed, a failure is one of the text, of its grammar, or of the program that it spells.

For the program this is the contract of evaluation (`Run.upholds_interpret`) with no condition on
values at all.  A tree that was read has no expression missing, so what remains of the expected
faults are the program's own.  For the text, the only failure that needs a reason is the refusal of
an overlong integer: the scanner stood before one when it was refused.

There is one exception.  Before a program is run, room is made for its calls on the host, and a host
that refuses so high a limit refuses every program.  The room itself is not part of this: it is
taken to be large enough for the calls that are allowed, once the host has taken the limit.
-/

namespace Scriptlet

open Scriptlet.Text

/-! ## Overlong integers -/

/-- An integer with that many digits, more than are read, is written in the text. -/
structure HoldsOverlong (text : List Char) (count : Nat) : Prop where
  long : Decimal.maxDigits < count
  written : ∃ before negative digits after,
    text = before ++ (Lexeme.int negative digits).spelling ++ after ∧
    (Lexeme.int negative digits).WellFormed ∧ digits.length = count

/-- A scanner refuses an integer only where one is written. -/
theorem Scanner.StandsIn.holdsOverlong {text : List Char} {s left : Scanner} {count : Nat}
    (h : s.StandsIn text) (hnext : s.next = (.overlong count, left)) :
    HoldsOverlong text count := by
  obtain ⟨before, htext, _⟩ := h
  have hgap := gap_append_afterGap false s.rest
  have hstep := Scanner.step_next s
  rw [hnext] at hstep
  generalize gap false s.rest = g, afterGap false s.rest = rest at hstep hgap
  cases hstep with
  | @overlong negative digits after hread hlong =>
    obtain ⟨hwell, hsplit⟩ := Lexeme.read?_sound hread
    refine ⟨hlong, before ++ g, negative, digits, after, ?_, hwell, rfl⟩
    rw [htext, ← hgap, ← hsplit, List.append_assoc, List.append_assoc]

theorem Feed.Yields.holdsOverlong {text : List Char} {s : Scanner} {ts : List Token}
    {ending : Option ReadError} {count : Nat} (hs : s.StandsIn text)
    (h : Feed.Yields (.scanner s) ts ending) (hending : ending = some (.overlong count)) :
    HoldsOverlong text count := by
  generalize hfeed : Feed.scanner s = feed at h
  induction h generalizing s with
  | finished | error => cases hending
  | overlong hnext =>
    subst hfeed
    cases hending
    rw [Feed.next, Prod.mk.injEq] at hnext
    exact hs.holdsOverlong (Prod.ext hnext.1 rfl)
  | token hnext _ ih =>
    subst hfeed
    rw [Feed.next, Prod.mk.injEq] at hnext
    obtain ⟨_, rfl⟩ := hnext
    exact ih hs.next hending rfl

theorem holdsOverlong_of_parse {source : String} {count : Nat}
    (h : Program.parse source = .error (.overlong count)) :
    HoldsOverlong source.toList count := by
  obtain ⟨ts, ending, hyields⟩ := (Feed.scanner (.ofSource source)).exists_yields
  have hholds : (Cursor.ofSource source).Holds ts ending := ⟨ts, hyields, rfl⟩
  obtain ⟨c', hrun⟩ := Parser.result_eq_error_iff.mp h
  obtain ⟨hending, _⟩ := viable_of_unreadable hholds hrun nofun nofun
  exact hyields.holdsOverlong (Scanner.standsIn_ofSource source) hending

/-! ## Faults of programs -/

/-- The kinds of failure that a program brings about by running. -/
def Diagnostic.Kind.ofPrograms : List Diagnostic.Kind :=
  [.name, .redefinition, .arity, .typing, .zeroDivision, .overflow, .recursion]

theorem Fault.kind_mem_ofPrograms {fault : Fault} (h : fault.isOfProgram = true) :
    fault.kind ∈ Diagnostic.Kind.ofPrograms := by
  cases fault with
  | operator f => cases f <;> exact List.mem_of_elem_eq_true rfl
  | scopes | missingExpression => cases h
  | _ => exact List.mem_of_elem_eq_true rfl

/-- A program that was read from a source text comes to a value or a fault of its own. -/
theorem isOfProgram_of_parse {source : String} {program : Program}
    (h : Program.parse source = .ok program) (maxCallDepth : Int) (prints : Array String)
    {fault : Fault}
    (hfault : (Run.interpret program).result { maxCallDepth, prints } = .error fault) :
    fault.isOfProgram = true := by
  have hclosed : Value.Closed fun _ => True :=
    ⟨fun _ => trivial, fun _ _ => trivial, fun _ _ => trivial⟩
  have hbuilt : program.BuiltFrom (fun _ => True) False :=
    Program.builtFrom_of_parse (fun _ _ => trivial) h
  have hrun := Run.upholds_interpret hclosed hbuilt { maxCallDepth, prints } ScopeStack.holds_nil
  rcases hrun.fault fault hfault with hown | ⟨hfalse, _⟩
  · exact hown
  · exact hfalse.elim

/-! ## Failures of source texts -/

/-- The failures that running a source text can come to: the text has a place that is no token, its
grammar is wrong or too deep, an integer in it is overlong, or its program fails. -/
inductive Failure.OfSource (source : String) : Failure → Prop
  | lexical (e : LexError) : OfSource source (.reading (.lexical e))
  | grammar (cause : ReadError.Cause) (position : Nat) :
    OfSource source (.reading (.grammar cause position))
  | nesting (position : Nat) : OfSource source (.reading (.nestedTooDeeply position))
  | overlong {digits : Nat} : HoldsOverlong source.toList digits →
    OfSource source (.reading (.overlong digits))
  | program {fault : Fault} : fault.kind ∈ Diagnostic.Kind.ofPrograms →
    OfSource source (.running fault)

/-- A text that is read is run as its program. -/
theorem Outcome.ofSource_of_ok {source : String} {program : Program}
    (h : Program.parse source = .ok program) (maxCallDepth : Int) (prints : Array String) :
    Outcome.ofSource maxCallDepth source prints =
      Outcome.ofProgram maxCallDepth program prints := by
  unfold Outcome.ofSource
  rw [h]

theorem Outcome.result_ofSource_of_error {source : String} {e : ReadError}
    (h : Program.parse source = .error e) (maxCallDepth : Int) (prints : Array String) :
    (Outcome.ofSource maxCallDepth source prints).result = .error (.reading e) := by
  unfold Outcome.ofSource
  rw [h]

theorem Failure.ofSource_of_parse {source : String} {e : ReadError}
    (h : Program.parse source = .error e) : Failure.OfSource source (.reading e) := by
  cases e with
  | lexical e => exact .lexical e
  | overlong digits => exact .overlong (holdsOverlong_of_parse h)
  | grammar cause position => exact .grammar cause position
  | nestedTooDeeply position => exact .nesting position

/-- None of them is a failure inside the interpreter. -/
theorem Failure.OfSource.kind_ne {source : String} {failure : Failure}
    (h : failure.OfSource source) :
    failure.diagnostic.kind ≠ .internal ∧ failure.diagnostic.kind ≠ .unevaluable := by
  cases h with
  | lexical | grammar | nesting | overlong => exact ⟨nofun, nofun⟩
  | @program fault hkind =>
    have hnone : ∀ kind ∈ Diagnostic.Kind.ofPrograms, kind ≠ .internal ∧ kind ≠ .unevaluable := by
      decide
    exact hnone fault.kind hkind

/-- Once a text is read and the host has made room, its program comes to a value or to a fault of
its own. -/
theorem Outcome.ofSource_of_read {source : String} {program : Program}
    (h : Program.parse source = .ok program) {maxCallDepth : Int}
    (htakes : Settings.HostLimit.Takes maxCallDepth) (prints : Array String) :
    (∃ value, (Outcome.ofSource maxCallDepth source prints).result = .ok value) ∨
    ∃ fault, (Outcome.ofSource maxCallDepth source prints).result = .error (.running fault) ∧
      fault.kind ∈ Diagnostic.Kind.ofPrograms := by
  rw [Outcome.ofSource_of_ok h, Outcome.ofProgram_of_takes htakes, Outcome.result_ofRun]
  cases hrun : (Run.interpret program).result { maxCallDepth, prints } with
  | ok value => exact Or.inl ⟨value, rfl⟩
  | error fault =>
    have hown := isOfProgram_of_parse h maxCallDepth prints hrun
    exact Or.inr ⟨fault, rfl, Fault.kind_mem_ofPrograms hown⟩

open Settings in
/-- **A source text fails only for its own reasons, if the host makes room for it.**  A text that
cannot be read fails so however many calls are allowed: it has a place that is no token, its grammar
is wrong or too deep, or an integer that is written in it is overlong.  Where the host takes the
limit, running any text comes to a value, or to such a failure, or to one of its program, and never
to one inside the interpreter; once the text is read, only its program can fail.  Where the host
does not take it, every program that is read is refused without being run. -/
theorem ofSource_fails_only_for_the_source (maxCallDepth : Int) (source : String)
    (prints : Array String) :
    (∀ e, Program.parse source = .error e →
      (Outcome.ofSource maxCallDepth source prints).result = .error (.reading e) ∧
      Failure.OfSource source (.reading e)) ∧
    (HostLimit.Takes maxCallDepth →
      ((∃ value, (Outcome.ofSource maxCallDepth source prints).result = .ok value) ∨
        ∃ failure, (Outcome.ofSource maxCallDepth source prints).result = .error failure ∧
          failure.OfSource source ∧
          failure.diagnostic.kind ≠ .internal ∧ failure.diagnostic.kind ≠ .unevaluable) ∧
      ∀ program, Program.parse source = .ok program →
        (∃ value, (Outcome.ofSource maxCallDepth source prints).result = .ok value) ∨
        ∃ fault, (Outcome.ofSource maxCallDepth source prints).result = .error (.running fault) ∧
          fault.kind ∈ Diagnostic.Kind.ofPrograms) ∧
    (¬HostLimit.Takes maxCallDepth → ∀ program, Program.parse source = .ok program →
      Outcome.ofSource maxCallDepth source prints = ⟨.error .hostLimit, prints, #[]⟩) := by
  refine ⟨fun e hparse => ?_, fun htakes => ⟨?_, fun program hparse => ?_⟩,
    fun hrefuses program hparse => ?_⟩
  · exact ⟨Outcome.result_ofSource_of_error hparse maxCallDepth prints,
      Failure.ofSource_of_parse hparse⟩
  · cases hparse : Program.parse source with
    | ok program =>
      refine (Outcome.ofSource_of_read hparse htakes prints).imp_right ?_
      rintro ⟨fault, hresult, hkind⟩
      have hof : (Failure.running fault).OfSource source := .program hkind
      exact ⟨_, hresult, hof, hof.kind_ne⟩
    | error e =>
      have hof := Failure.ofSource_of_parse hparse
      exact Or.inr ⟨.reading e, Outcome.result_ofSource_of_error hparse maxCallDepth prints, hof,
        hof.kind_ne⟩
  · exact Outcome.ofSource_of_read hparse htakes prints
  · rw [Outcome.ofSource_of_ok hparse, Outcome.ofProgram_of_not_takes hrefuses]

/-- A text whose program divides by zero inside a call inside a block. -/
def divideText : String :=
  "func f(n) \x7b 1 / n \x7d func main() \x7b x := 0; \x7b print(x); f(x) \x7d \x7d"

theorem divideText_fails_for_its_program :
    (∃ program, Program.parse divideText = .ok program) ∧
    (Outcome.ofSource 10 divideText #[]).result =
      .error (.running (.operator .divisionByZero)) ∧
    ((∃ value, (Outcome.ofSource 10 divideText #[]).result = .ok value) ∨
      ∃ fault, (Outcome.ofSource 10 divideText #[]).result = .error (.running fault) ∧
        fault.kind ∈ Diagnostic.Kind.ofPrograms) := by
  have hread : (Program.parse divideText).toOption.isSome = true := by decide +kernel
  obtain ⟨program, hprogram⟩ : ∃ program, Program.parse divideText = .ok program := by
    cases hparse : Program.parse divideText with
    | ok program => exact ⟨program, rfl⟩
    | error e =>
      rw [hparse] at hread
      cases hread
  exact ⟨⟨program, hprogram⟩, by decide +kernel,
    ((ofSource_fails_only_for_the_source 10 divideText #[]).2.1 (by decide)).2 program hprogram⟩

/-- A text whose program does nothing that could fail. -/
def smallText : String := "func main() \x7b 1 \x7d"

/-- With too high a limit the text is read and then fails for none of its own reasons, and in no way
that a report has a family for. -/
theorem smallText_is_refused_by_the_host :
    Program.parse smallText = .ok [⟨"main", [], [.lit (.int 1)]⟩] ∧
    (Outcome.ofSource 10 smallText #[]).result = .ok (.int 1) ∧
    (Outcome.ofSource 85899306 smallText #[]).result = .error .hostLimit ∧
    ¬Failure.OfSource smallText .hostLimit ∧
    Failure.hostLimit.diagnostic.kind.families = [] :=
  ⟨by decide +kernel, by decide +kernel, by decide +kernel, nofun, rfl⟩

end Scriptlet
