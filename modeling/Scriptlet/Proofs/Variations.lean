import Mathlib.Data.List.Duplicate
import Mathlib.Data.Set.Function
import Scriptlet.Proofs.Counterparts

/-!
# Variations of a program

Three ways to change a program without changing its runs.  Each is an instance of the parallel runs
in `Counterparts`, and what remains to be shown is that the changed program is a counterpart.

* **Functions that are never called.**  A set of names that holds `main`, and with a function also
  those it calls, is enough to run the program: all other functions can be left out.  The condition
  speaks of names in the text of the bodies, wherever they stand there, and not of the calls that a
  run makes.  A name that the program does not define may be left outside of the set, because it is
  unknown in both programs, and so may `print`, because no function of that name is ever looked up.
  Variables keep their names here.
* **The names of variables.**  Variables can be renamed as long as no two variables of the program
  get the same name.  The new names may be names of functions, or `print`: variables and functions
  are looked up in different places.  Here every function may be called.
* **The order of functions, and annotations.**  A function is looked up by its name, and if no name
  is defined twice, its place in the program makes no difference.  If some name is, the program is
  refused wherever the definitions stand, before anything of it is run.

None of this has to do with the room that the host makes for the calls: it makes it for a program
and its variation or for neither.
-/

namespace Scriptlet

/-- The function that the mention calls, if it is one. -/
def Mention.callee? : Mention → Option String
  | .var _ => none
  | .callee name => some name

/-- The variable that is mentioned, if it is one. -/
def Mention.var? : Mention → Option String
  | .var name => some name
  | .callee _ => none

/-- The names of the functions that a function calls, anywhere in its body. -/
def Function.callees (f : Function) : List String :=
  f.mentions.filterMap Mention.callee?

/-- The names of the variables of a program. -/
def Program.variables (P : Program) : List String :=
  P.flatMap fun f => f.mentions.filterMap Mention.var?

theorem Function.mem_callees {f : Function} {name : String} (h : .callee name ∈ f.mentions) :
    name ∈ f.callees :=
  List.mem_filterMap.mpr ⟨_, h, rfl⟩

theorem Program.mem_variables {P : Program} {f : Function} {x : String} (hf : f ∈ P)
    (h : .var x ∈ f.mentions) : x ∈ P.variables :=
  List.mem_flatMap.mpr ⟨f, hf, List.mem_filterMap.mpr ⟨_, h, rfl⟩⟩

/-- A function that is found is one of the program, and of that name. -/
theorem Program.of_function? {P : Program} {name : String} {f : Function}
    (h : P.function? name = some f) : f ∈ P ∧ f.name = name :=
  ⟨List.mem_of_find?_eq_some h, by simpa using List.find?_some h⟩

/-- Two runs with the same value or failure that print the same. -/
structure Outcome.SameShown (o o' : Outcome) : Prop where
  result : o.result = o'.result
  prints : o.prints = o'.prints

/-- Counterparts whose variables have the same names show the same. -/
theorem Program.Counterpart.sameShown {T : Correspondence} {P Q : Program} (h : P.Counterpart T Q)
    (hT : T.rename = id) (limit : Int) (prints : Array String) :
    (Outcome.ofProgram limit Q prints).SameShown (Outcome.ofProgram limit P prints) := by
  obtain ⟨hresult, hprints⟩ := h.outcome limit prints
  refine ⟨?_, hprints⟩
  rw [hresult, hT]
  cases (Outcome.ofProgram limit P prints).result with
  | ok value => rfl
  | error failure => exact congrArg Except.error failure.rename_id

/-! ## Functions that are never called -/

namespace Program

variable {P : Program} {S : Set String}

/-- The functions whose names are in a set. -/
def restrict (P : Program) (S : Set String) [DecidablePred (· ∈ S)] : Program :=
  P.filter fun f => f.name ∈ S

/-- With a function, the set has the functions of the program that it calls.  `print` is not one of
them, even if the program defines it. -/
def ClosedUnderCalls (P : Program) (S : Set String) : Prop :=
  ∀ f ∈ P, f.name ∈ S → ∀ name ∈ f.callees, name ≠ Run.printName →
    name ∈ P.map Function.name → name ∈ S

instance [DecidablePred (· ∈ S)] : Decidable (P.ClosedUnderCalls S) :=
  inferInstanceAs (Decidable (∀ f ∈ P, f.name ∈ S → ∀ name ∈ f.callees, name ≠ Run.printName →
    name ∈ P.map Function.name → name ∈ S))

theorem function?_restrict [DecidablePred (· ∈ S)] (P : Program) {name : String} (h : name ∈ S) :
    (P.restrict S).function? name = P.function? name := by
  rw [function?, restrict, List.find?_filter, function?]
  congr 1
  funext f
  by_cases hname : f.name = name
  · simp [hname, h]
  · simp [hname]

theorem function?_eq_none_of_notMem {name : String} (h : name ∉ P.map Function.name) :
    P.function? name = none := by
  rw [function?, List.find?_eq_none]
  intro f hf hname
  exact h (List.mem_map.mpr ⟨f, hf, by simpa using hname⟩)

theorem map_name_restrict_sublist [DecidablePred (· ∈ S)] (P : Program) :
    ((P.restrict S).map Function.name).Sublist (P.map Function.name) :=
  List.filter_sublist.map Function.name

/-- All variables keep their names, and what may be called is in the set, or `print`, or unknown. -/
def callsWithin (P : Program) (S : Set String) : Correspondence where
  rename := id
  knows
    | .var _ => True
    | .callee name => name ∈ S ∨ name = Run.printName ∨ name ∉ P.map Function.name
  rename_inj _ _ _ _ h := h

/-- Every function that is in the set is its own counterpart. -/
theorem ClosedUnderCalls.counterpart_self (h : P.ClosedUnderCalls S) {f : Function} (hf : f ∈ P)
    (hname : f.name ∈ S) : f.Counterpart (P.callsWithin S) f := by
  refine ⟨rfl, (Expr.renameEach_id f.body).symm, fun o ho => ?_⟩
  cases o with
  | var x => exact trivial
  | callee name =>
    show name ∈ S ∨ name = Run.printName ∨ name ∉ P.map Function.name
    by_cases hprint : name = Run.printName
    · exact Or.inr (Or.inl hprint)
    · by_cases hdefined : name ∈ P.map Function.name
      · exact Or.inl (h f hf hname name (Function.mem_callees ho) hprint hdefined)
      · exact Or.inr (Or.inr hdefined)

theorem ClosedUnderCalls.counterpart_restrict [DecidablePred (· ∈ S)] (h : P.ClosedUnderCalls S)
    (hdistinct : P.Distinct) (hmain : Run.mainName ∈ S) :
    P.Counterpart (P.callsWithin S) (P.restrict S) := by
  refine ⟨hdistinct, hdistinct.sublist (map_name_restrict_sublist P), Or.inl hmain, ?_⟩
  intro name hknown hprint
  by_cases hname : name ∈ S
  · rw [function?_restrict P hname]
    cases hfound : P.function? name with
    | none => exact .none
    | some f =>
      obtain ⟨hf, rfl⟩ := of_function? hfound
      exact .some (h.counterpart_self hf hname)
  · have hundefined := (hknown.resolve_left hname).resolve_left hprint
    have hundefined' : name ∉ (P.restrict S).map Function.name := fun hmem =>
      hundefined ((map_name_restrict_sublist P).mem hmem)
    rw [function?_eq_none_of_notMem hundefined, function?_eq_none_of_notMem hundefined']
    exact .none

/-- Leaving out functions that are not in the set changes nothing. -/
theorem ClosedUnderCalls.sameShown [DecidablePred (· ∈ S)] (h : P.ClosedUnderCalls S)
    (hdistinct : P.Distinct) (hmain : Run.mainName ∈ S) (limit : Int) (prints : Array String) :
    (Outcome.ofProgram limit (P.restrict S) prints).SameShown
      (Outcome.ofProgram limit P prints) :=
  (h.counterpart_restrict hdistinct hmain).sameShown rfl limit prints

/-- The names other than `print`. -/
def otherThanPrint : Set String :=
  { name | name ≠ Run.printName }

instance : DecidablePred (· ∈ otherThanPrint) := fun name =>
  inferInstanceAs (Decidable (name ≠ Run.printName))

theorem closedUnderCalls_otherThanPrint (P : Program) : P.ClosedUnderCalls otherThanPrint :=
  fun _ _ _ _ _ hprint _ => hprint

end Program

/-- **Functions that are never called do not matter.**  Let no function of a program be defined
twice.  A set of names that holds `main` and is closed under calls is enough: with the functions
that are named in it alone, the program comes to the same value or failure and prints the same,
however many calls are allowed.  In particular a function named `print` is never run: a program that
has another one, or none, and is the same otherwise comes to the same and prints the same. -/
theorem ofProgram_restrict_to_called {P : Program} (hdistinct : P.Distinct) (limit : Int)
    (prints : Array String) :
    (∀ (S : Set String) [DecidablePred (· ∈ S)], Run.mainName ∈ S → P.ClosedUnderCalls S →
      (Outcome.ofProgram limit (P.restrict S) prints).SameShown
        (Outcome.ofProgram limit P prints)) ∧
    ∀ Q : Program, Q.Distinct →
      Q.restrict Program.otherThanPrint = P.restrict Program.otherThanPrint →
      (Outcome.ofProgram limit Q prints).SameShown (Outcome.ofProgram limit P prints) := by
  refine ⟨fun S _ hmain hclosed => hclosed.sameShown hdistinct hmain limit prints, ?_⟩
  intro Q hQ hsame
  have hmain : Run.mainName ∈ Program.otherThanPrint := by
    show Run.mainName ≠ Run.printName
    decide
  have hfirst := Q.closedUnderCalls_otherThanPrint.sameShown hQ hmain limit prints
  have hsecond := P.closedUnderCalls_otherThanPrint.sameShown hdistinct hmain limit prints
  rw [hsame] at hfirst
  exact ⟨hfirst.result.symm.trans hsecond.result, hfirst.prints.symm.trans hsecond.prints⟩

/-- A program whose `main` calls `twice` and prints; `spare` is called by nothing but itself, and a
function named `print` is there in vain. -/
def sparingProgram : Program :=
  [⟨"print", [⟨"x", none⟩], [.call "spare" []]⟩,
   ⟨"main", [], [.call "print" [.call "twice" [.lit (.int 21)]], .call "gone" []]⟩,
   ⟨"spare", [], [.call "spare" []]⟩,
   ⟨"twice", [⟨"n", none⟩], [.binary .add (.name "n") (.name "n")]⟩]

theorem sparingProgram_runs_without_spare_functions :
    (Program.Distinct sparingProgram ∧ Program.ClosedUnderCalls sparingProgram {"main", "twice"}) ∧
    ((Outcome.ofProgram 9 sparingProgram #[]).result =
        .error (.running (.unknownFunction "gone")) ∧
      (Outcome.ofProgram 9 sparingProgram #[]).prints = #["42", "\n"]) ∧
    (Outcome.ofProgram 9 (Program.restrict sparingProgram {"main", "twice"}) #[]).SameShown
      (Outcome.ofProgram 9 sparingProgram #[]) ∧
    (Outcome.ofProgram 9 sparingProgram.tail #[]).SameShown
      (Outcome.ofProgram 9 sparingProgram #[]) := by
  have hdistinct : Program.Distinct sparingProgram := by decide
  have hclosed : Program.ClosedUnderCalls sparingProgram {"main", "twice"} := by decide
  refine ⟨⟨hdistinct, hclosed⟩, ⟨by decide +kernel, by decide +kernel⟩, ?_, ?_⟩
  · exact (ofProgram_restrict_to_called hdistinct 9 #[]).1 _ (Or.inl rfl) hclosed
  · exact (ofProgram_restrict_to_called hdistinct 9 #[]).2 _ (by decide) (by decide)

/-! ## The names of variables -/

/-- The function with other names for its variables. -/
def Function.rename (ρ : String → String) (f : Function) : Function :=
  { f with
    params := f.params.map fun p => { p with name := ρ p.name }
    body := Expr.renameEach ρ f.body }

namespace Program

variable {P : Program} {ρ : String → String}

/-- The program with other names for its variables.  Functions keep their names, and so do calls of
them. -/
def rename (ρ : String → String) (P : Program) : Program :=
  P.map (Function.rename ρ)

theorem map_name_rename (ρ : String → String) (P : Program) :
    (P.rename ρ).map Function.name = P.map Function.name := by
  rw [rename, List.map_map]
  rfl

theorem function?_rename (ρ : String → String) (P : Program) (name : String) :
    (P.rename ρ).function? name = (P.function? name).map (Function.rename ρ) := by
  rw [function?, rename, List.find?_map]
  rfl

/-- The variables of the program get other names, and every function may be called. -/
def renamed (P : Program) (h : Set.InjOn ρ { x | x ∈ P.variables }) : Correspondence where
  rename := ρ
  knows
    | .var x => x ∈ P.variables
    | .callee _ => True
  rename_inj _ _ hx hy := h hx hy

theorem counterpart_rename (h : Set.InjOn ρ { x | x ∈ P.variables }) (hdistinct : P.Distinct) :
    P.Counterpart (P.renamed h) (P.rename ρ) := by
  refine ⟨hdistinct, ?_, trivial, fun name _ _ => ?_⟩
  · rw [Distinct, map_name_rename]
    exact hdistinct
  · rw [function?_rename]
    cases hfound : P.function? name with
    | none => exact .none
    | some f =>
      refine .some ⟨?_, rfl, fun o ho => ?_⟩
      · show (f.params.map _).map Param.name = _
        rw [List.map_map]
        rfl
      · cases o with
        | var x => exact mem_variables (of_function? hfound).1 ho
        | callee callee => exact trivial

end Program

/-- The second text is the first, or it has the other name of a variable where the first has its
name. -/
inductive Reworded (ρ : String → String) : String → String → Prop
  | same (text : String) : Reworded ρ text text
  | renamed (start x stop : String) : Reworded ρ (start ++ x ++ stop) (start ++ ρ x ++ stop)

theorem Reworded.renamed_last (ρ : String → String) (start x : String) :
    Reworded ρ (start ++ x) (start ++ ρ x) := by
  have h : Reworded ρ (start ++ x ++ "") (start ++ ρ x ++ "") := .renamed start x ""
  rwa [String.append_empty, String.append_empty] at h

/-- A failure is reported as one of the same kind, with the other name of a variable in it. -/
theorem Failure.reworded (ρ : String → String) (failure : Failure) :
    (failure.rename ρ).diagnostic.kind = failure.diagnostic.kind ∧
      Reworded ρ failure.diagnostic.message (failure.rename ρ).diagnostic.message := by
  cases failure with
  | reading | hostLimit => exact ⟨rfl, .same _⟩
  | running fault =>
    cases fault with
    | undefinedVariable x => exact ⟨rfl, .renamed_last ρ "Undefined variable " x⟩
    | undeclaredVariable x => exact ⟨rfl, .renamed_last ρ "Assignment to undeclared variable " x⟩
    | scopes fault =>
      cases fault with
      | createEmpty x => exact ⟨rfl, .renamed "Cannot create " x ": no scope is active"⟩
      | _ => exact ⟨rfl, .same _⟩
    | _ => exact ⟨rfl, .same _⟩

/-- **The names of variables carry no meaning.**  Let variables be renamed so that no two variables
of a program get the same name, be it the name of a function or `print`.  However many calls are
allowed, the renamed program comes to the same value, or to the same failure with the other name of
a variable in it: a failure of the same kind, whose message is the same up to that name.  And it
prints the same. -/
theorem ofProgram_rename_variables (P : Program) {ρ : String → String}
    (h : Set.InjOn ρ { x | x ∈ P.variables }) (limit : Int) (prints : Array String) :
    ((∀ value, (Outcome.ofProgram limit P prints).result = .ok value →
        (Outcome.ofProgram limit (P.rename ρ) prints).result = .ok value) ∧
      ∀ failure, (Outcome.ofProgram limit P prints).result = .error failure →
        (Outcome.ofProgram limit (P.rename ρ) prints).result = .error (failure.rename ρ) ∧
        (failure.rename ρ).diagnostic.kind = failure.diagnostic.kind ∧
        Reworded ρ failure.diagnostic.message (failure.rename ρ).diagnostic.message) ∧
    (Outcome.ofProgram limit (P.rename ρ) prints).prints =
      (Outcome.ofProgram limit P prints).prints := by
  have hsame : (Outcome.ofProgram limit (P.rename ρ) prints).result =
        (Outcome.ofProgram limit P prints).result.mapError (Failure.rename ρ) ∧
      (Outcome.ofProgram limit (P.rename ρ) prints).prints =
        (Outcome.ofProgram limit P prints).prints := by
    by_cases hdistinct : P.Distinct
    · exact (P.counterpart_rename h hdistinct).outcome limit prints
    · -- neither program is run
      obtain ⟨name, hrepeated⟩ := Program.exists_repeated hdistinct
      have hrepeated' := hrepeated
      rw [← Program.map_name_rename ρ] at hrepeated'
      by_cases htakes : Settings.HostLimit.Takes limit
      · rw [Outcome.ofProgram_of_takes htakes, Outcome.ofProgram_of_takes htakes,
          Outcome.ofRun_of_error (Run.interpret_of_repeated hrepeated _),
          Outcome.ofRun_of_error (Run.interpret_of_repeated hrepeated' _)]
        exact ⟨rfl, rfl⟩
      · rw [Outcome.ofProgram_of_not_takes htakes, Outcome.ofProgram_of_not_takes htakes]
        exact ⟨rfl, rfl⟩
  refine ⟨⟨fun value hvalue => ?_, fun failure hfailure => ⟨?_, failure.reworded ρ⟩⟩, hsame.2⟩
  · rw [hsame.1, hvalue]
    rfl
  · rw [hsame.1, hfailure]
    rfl

/-- A program in which a variable of a block has the name of one outside, and which fails at an
assignment. -/
def shadowedProgram : Program :=
  [⟨"main", [], [.declare "x" (.lit (.int 1)),
     .block [.declare "x" (.lit (.int 2)), .assign "x" (.lit (.int 3))],
     .call "print" [.name "x"], .assign "y" (.name "x")]⟩]

/-- Takes `x` to `print`, and all else to `main`. -/
def toFunctionNames : String → String
  | "x" => "print"
  | _ => "main"

theorem shadowedProgram_runs_with_names_of_functions :
    Set.InjOn toFunctionNames { x | x ∈ Program.variables shadowedProgram } ∧
    (Outcome.ofProgram 5 shadowedProgram #[]).result =
      .error (.running (.undeclaredVariable "y")) ∧
    ((Outcome.ofProgram 5 (Program.rename toFunctionNames shadowedProgram) #[]).result =
        .error (.running (.undeclaredVariable "main")) ∧
      (Outcome.ofProgram 5 (Program.rename toFunctionNames shadowedProgram) #[]).prints =
        (Outcome.ofProgram 5 shadowedProgram #[]).prints) := by
  have hinj : Set.InjOn toFunctionNames { x | x ∈ Program.variables shadowedProgram } := by
    have hcheck : ∀ x ∈ Program.variables shadowedProgram,
        ∀ y ∈ Program.variables shadowedProgram, toFunctionNames x = toFunctionNames y → x = y := by
      decide
    exact fun x hx y hy => hcheck x hx y hy
  have hfails : (Outcome.ofProgram 5 shadowedProgram #[]).result =
      .error (.running (.undeclaredVariable "y")) := by decide +kernel
  have hrenamed := ofProgram_rename_variables shadowedProgram hinj 5 #[]
  exact ⟨hinj, hfails, (hrenamed.1.2 _ hfails).1, hrenamed.2⟩

/-! ## The order of functions, and annotations -/

/-- The function without the annotations of its parameters. -/
def Function.unannotated (f : Function) : Function :=
  { f with params := f.params.map fun p => { p with annotation := none } }

namespace Program

variable {P Q : Program}

/-- The programs have the same functions, in any order and with any annotations. -/
def Rearranged (P Q : Program) : Prop :=
  (P.map Function.unannotated).Perm (Q.map Function.unannotated)

instance : Decidable (P.Rearranged Q) :=
  inferInstanceAs (Decidable ((P.map Function.unannotated).Perm (Q.map Function.unannotated)))

theorem Rearranged.map_name (h : P.Rearranged Q) :
    (P.map Function.name).Perm (Q.map Function.name) := by
  have hnames : ∀ R : Program, (R.map Function.unannotated).map Function.name =
      R.map Function.name := by
    intro R
    rw [List.map_map]
    rfl
  rw [← hnames P, ← hnames Q]
  exact List.Perm.map Function.name h

theorem Rearranged.distinct_iff (h : P.Rearranged Q) : P.Distinct ↔ Q.Distinct :=
  h.map_name.nodup_iff

/-- A function of the one program has its like in the other. -/
theorem Rearranged.exists_mem (h : P.Rearranged Q) {f : Function} (hf : f ∈ P) :
    ∃ g ∈ Q, g.unannotated = f.unannotated :=
  List.mem_map.mp ((List.Perm.mem_iff h).mp (List.mem_map_of_mem hf))

/-- Where no name is defined twice, every function is found by its name. -/
theorem Distinct.function?_eq_some (h : P.Distinct) {f : Function} (hf : f ∈ P) :
    P.function? f.name = some f := by
  cases hfound : P.function? f.name with
  | none => exact absurd (beq_self_eq_true f.name) (List.find?_eq_none.mp hfound f hf)
  | some g =>
    obtain ⟨hg, hname⟩ := of_function? hfound
    rw [List.inj_on_of_nodup_map h hg hf hname]

/-- Nothing is renamed, and everything may be mentioned. -/
def unchanged : Correspondence where
  rename := id
  knows _ := True
  rename_inj _ _ _ _ h := h

/-- Functions that are equal without annotations are counterparts. -/
theorem counterpart_of_unannotated {f g : Function} (h : g.unannotated = f.unannotated) :
    f.Counterpart unchanged g := by
  have hnames : ∀ k : Function, k.unannotated.params.map Param.name = k.params.map Param.name := by
    intro k
    show (k.params.map _).map Param.name = _
    rw [List.map_map]
    rfl
  refine ⟨?_, ?_, fun _ _ => trivial⟩
  · rw [← hnames g, h, hnames f]
    rfl
  · have hbody : g.unannotated.body = f.unannotated.body := congrArg Function.body h
    show g.unannotated.body = _
    rw [hbody]
    exact (Expr.renameEach_id f.body).symm

theorem Rearranged.counterpart (h : P.Rearranged Q) (hdistinct : P.Distinct) :
    P.Counterpart unchanged Q := by
  have hdistinct' : Q.Distinct := h.distinct_iff.mp hdistinct
  refine ⟨hdistinct, hdistinct', trivial, fun name _ _ => ?_⟩
  by_cases hdefined : name ∈ P.map Function.name
  · obtain ⟨f, hf, rfl⟩ := List.mem_map.mp hdefined
    obtain ⟨g, hg, hgf⟩ := h.exists_mem hf
    have hname : g.unannotated.name = f.unannotated.name := congrArg Function.name hgf
    have hfound : Q.function? f.unannotated.name = some g :=
      hname ▸ hdistinct'.function?_eq_some hg
    have hfound' : Q.function? f.name = some g := hfound
    rw [hdistinct.function?_eq_some hf, hfound']
    exact .some (counterpart_of_unannotated hgf)
  · have hundefined : name ∉ Q.map Function.name := fun hmem =>
      hdefined (h.map_name.mem_iff.mpr hmem)
    rw [function?_eq_none_of_notMem hdefined, function?_eq_none_of_notMem hundefined]
    exact .none

end Program

/-- What is reported as repeated occurs twice, or has been seen before. -/
theorem duplicate_of_firstRepeated? {seen names : List String} {name : String}
    (h : firstRepeated? seen names = some name) :
    (name ∈ seen ∧ name ∈ names) ∨ names.Duplicate name := by
  induction names generalizing seen with
  | nil => cases h
  | cons first names ih =>
    rw [firstRepeated?] at h
    by_cases hseen : first ∈ seen
    · simp only [List.contains_iff_mem, hseen, if_true, Option.some.injEq] at h
      exact Or.inl (h ▸ ⟨hseen, List.mem_cons_self⟩)
    · simp only [List.contains_iff_mem, hseen, if_false] at h
      rcases ih h with ⟨hbefore, hmem⟩ | htwice
      · rcases List.mem_cons.mp hbefore with rfl | hbefore
        · exact Or.inr (.cons_mem hmem)
        · exact Or.inl ⟨hbefore, List.mem_cons_of_mem first hmem⟩
      · exact Or.inr (.cons_duplicate htwice)

/-- The outcome of a program that is refused because it defines a function twice.  Nothing is
printed behind `prints`. -/
structure Outcome.RefusedAsRepeated (P : Program) (prints : Array String) (o : Outcome) : Prop where
  result : ∃ name, (P.map Function.name).Duplicate name ∧
    o.result = .error (.running (.redefinedFunction name))
  prints : o.prints = prints

theorem Program.refusedAsRepeated {P : Program} (h : ¬P.Distinct) {limit : Int}
    (htakes : Settings.HostLimit.Takes limit) (prints : Array String) :
    (Outcome.ofProgram limit P prints).RefusedAsRepeated P prints := by
  obtain ⟨name, hrepeated⟩ := Program.exists_repeated h
  rw [Outcome.ofProgram_of_takes htakes,
    Outcome.ofRun_of_error (Run.interpret_of_repeated hrepeated _)]
  have htwice : (P.map Function.name).Duplicate name :=
    (duplicate_of_firstRepeated? hrepeated).resolve_left fun hseen => List.not_mem_nil hseen.1
  exact ⟨⟨name, htwice, rfl⟩, rfl⟩

/-- **The order of functions and the annotations carry no meaning.**  Let a program have the same
functions as another, in any order and with any annotations.  If no name is defined twice, the two
come to the same value or failure and print the same, however many calls are allowed.  If some name
is, both are refused for a function that they define twice, and nothing is printed, whatever their
`main` would do, as long as the host takes the limit.  Where it does not take it, both are refused
for that and not for their functions, and nothing is printed either. -/
theorem ofProgram_rearranged {P Q : Program} (h : P.Rearranged Q) (limit : Int)
    (prints : Array String) :
    (P.Distinct →
      (Outcome.ofProgram limit Q prints).SameShown (Outcome.ofProgram limit P prints)) ∧
    (¬P.Distinct → Settings.HostLimit.Takes limit →
      (Outcome.ofProgram limit P prints).RefusedAsRepeated P prints ∧
      (Outcome.ofProgram limit Q prints).RefusedAsRepeated Q prints) ∧
    (¬Settings.HostLimit.Takes limit →
      Outcome.ofProgram limit P prints = ⟨.error .hostLimit, prints, #[]⟩ ∧
      Outcome.ofProgram limit Q prints = ⟨.error .hostLimit, prints, #[]⟩) := by
  refine ⟨fun hdistinct => ?_, fun hrepeated htakes => ?_, fun hrefuses => ?_⟩
  · exact (h.counterpart hdistinct).sameShown rfl limit prints
  · have hrepeated' : ¬Q.Distinct := fun hdistinct => hrepeated (h.distinct_iff.mpr hdistinct)
    exact ⟨P.refusedAsRepeated hrepeated htakes prints,
      Q.refusedAsRepeated hrepeated' htakes prints⟩
  · exact ⟨Outcome.ofProgram_of_not_takes hrefuses P prints,
      Outcome.ofProgram_of_not_takes hrefuses Q prints⟩

/-- A program whose functions call each other and which fails after it has printed. -/
def countingProgram : Program :=
  [⟨"main", [], [.call "even" [.lit (.int 3)]]⟩,
   ⟨"even", [⟨"n", none⟩], [.call "print" [.name "n"],
     .ifElse (.binary .equals (.name "n") (.lit (.int 0))) [.lit (.bool true)]
       [.call "odd" [.binary .sub (.name "n") (.lit (.int 1))]]]⟩,
   ⟨"odd", [⟨"n", none⟩], [.call "even" [.binary .div (.name "n") (.lit (.int 0))]]⟩]

/-- The same program, its functions the other way round and one parameter annotated. -/
def countingBackwards : Program :=
  [⟨"odd", [⟨"n", some "int"⟩], [.call "even" [.binary .div (.name "n") (.lit (.int 0))]]⟩,
   ⟨"even", [⟨"n", none⟩], [.call "print" [.name "n"],
     .ifElse (.binary .equals (.name "n") (.lit (.int 0))) [.lit (.bool true)]
       [.call "odd" [.binary .sub (.name "n") (.lit (.int 1))]]]⟩,
   ⟨"main", [], [.call "even" [.lit (.int 3)]]⟩]

theorem countingProgram_runs_backwards :
    (Program.Rearranged countingProgram countingBackwards ∧ Program.Distinct countingProgram) ∧
    ((Outcome.ofProgram 9 countingProgram #[]).result =
        .error (.running (.operator .divisionByZero)) ∧
      (Outcome.ofProgram 9 countingProgram #[]).prints = #["3", "\n"]) ∧
    (Outcome.ofProgram 9 countingBackwards #[]).SameShown
      (Outcome.ofProgram 9 countingProgram #[]) ∧
    (Outcome.ofProgram 9 (countingBackwards ++ countingProgram) #[]).RefusedAsRepeated
      (countingBackwards ++ countingProgram) #[] := by
  have hrearranged : Program.Rearranged countingProgram countingBackwards := by decide
  have hdistinct : Program.Distinct countingProgram := by decide
  have htwice : Program.Rearranged (countingProgram ++ countingProgram)
      (countingBackwards ++ countingProgram) := by decide
  refine ⟨⟨hrearranged, hdistinct⟩, ⟨by decide +kernel, by decide +kernel⟩, ?_, ?_⟩
  · exact (ofProgram_rearranged hrearranged 9 #[]).1 hdistinct
  · exact ((ofProgram_rearranged htwice 9 #[]).2.1 (by decide) (by decide)).2

/-- A program that defines a function twice. -/
def repeatedProgram : Program :=
  [⟨"f", [], [.lit (.int 1)]⟩, ⟨"f", [], [.lit (.int 2)]⟩, ⟨"main", [], [.call "f" []]⟩]

/-- With too high a limit it is not for this that the program is refused. -/
theorem repeatedProgram_is_not_refused_as_repeated :
    ¬Program.Distinct repeatedProgram ∧
    (Outcome.ofProgram 1000 repeatedProgram #[]).result =
      .error (.running (.redefinedFunction "f")) ∧
    (Outcome.ofProgram 85899306 repeatedProgram #[]).result = .error .hostLimit ∧
    ¬(Outcome.ofProgram 85899306 repeatedProgram #[]).RefusedAsRepeated repeatedProgram #[] := by
  have hlimit : (Outcome.ofProgram 85899306 repeatedProgram #[]).result = .error .hostLimit := by
    decide +kernel
  refine ⟨by decide, by decide +kernel, hlimit, ?_⟩
  rintro ⟨⟨name, -, hresult⟩, -⟩
  rw [hlimit] at hresult
  cases hresult

end Scriptlet
