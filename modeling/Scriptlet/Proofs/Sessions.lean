import Scriptlet.Machine.Command
import Scriptlet.Proofs.CallLimit
import Scriptlet.Proofs.VisibleBindings

/-!
# A machine can be used again after any failure

A machine that loads programs, runs them and calls their functions, one after the other and with
whatever outcome, keeps nothing between the steps but the table of functions, the limit on the calls
and what it has printed and logged.  A scope that was left open, a call that was not counted down or
a table that was filled halfway would show up only in a later step, perhaps much later.

The machine between two steps is `Idle`: no scope, no open call, and the functions of the last
program that could be loaded.  One step keeps a machine idle (`Idle.after`), and so do many
(`idle_afterAll`).  What a step comes to depends on what `Idle` fixes and on nothing else
(`Command.sameOutcome`), so that a fresh machine with the same table can stand in for the used one.
-/

namespace Scriptlet

/-! ## Loading -/

theorem firstRepeated?_eq_none_iff {seen names : List String} :
    firstRepeated? seen names = none ↔ names.Nodup ∧ ∀ name ∈ names, name ∉ seen := by
  induction names generalizing seen with
  | nil => simp [firstRepeated?]
  | cons name names ih =>
    rw [firstRepeated?]
    by_cases hseen : name ∈ seen
    · simp [hseen]
    · simp only [List.contains_iff_mem, hseen, if_false, ih, List.nodup_cons, List.mem_cons, not_or,
        forall_eq_or_imp, not_false_eq_true, true_and]
      constructor
      · rintro ⟨hnodup, hnew⟩
        exact ⟨⟨fun hname => (hnew name hname).1 rfl, hnodup⟩, fun n hn => (hnew n hn).2⟩
      · rintro ⟨⟨hname, hnodup⟩, hnew⟩
        exact ⟨hnodup, fun n hn => ⟨fun heq => hname (heq ▸ hn), hnew n hn⟩⟩

/-- No function is defined twice. -/
def Program.Distinct (program : Program) : Prop :=
  (program.map Function.name).Nodup

instance (program : Program) : Decidable program.Distinct :=
  inferInstanceAs (Decidable (program.map Function.name).Nodup)

theorem Program.distinct_iff {program : Program} :
    program.Distinct ↔ firstRepeated? [] (program.map Function.name) = none := by
  simp [Program.Distinct, firstRepeated?_eq_none_iff]

theorem Program.exists_repeated {program : Program} (h : ¬program.Distinct) :
    ∃ name, firstRepeated? [] (program.map Function.name) = some name := by
  rw [Program.distinct_iff] at h
  exact Option.ne_none_iff_exists'.mp h

namespace Run

variable {program : Program}

theorem load_of_repeated {name : String}
    (h : firstRepeated? [] (program.map Function.name) = some name) (m : Machine) :
    load program m = .error (.redefinedFunction name) m := by
  rw [load, h]
  rfl

/-- What is logged when a program is loaded. -/
def loadLine (program : Program) : String :=
  s!"loaded {(program.map Function.name).length} function(s): " ++
    ", ".intercalate (program.map Function.name)

theorem load_of_distinct (h : firstRepeated? [] (program.map Function.name) = none) (m : Machine) :
    load program m = note (loadLine program) { m with functions := program } := by
  rw [load, h]
  rfl

/-! ## Steps that give something else -/

theorem map_of_ok {run : Run α} {m left : Machine} {a : α} (h : run m = .ok a left) (f : α → β) :
    (f <$> run) m = .ok (f a) left := by
  show EStateM.map f run m = _
  rw [EStateM.map, h]

theorem map_of_error {run : Run α} {m left : Machine} {fault : Fault}
    (h : run m = .error fault left) (f : α → β) : (f <$> run) m = .error fault left := by
  show EStateM.map f run m = _
  rw [EStateM.map, h]

theorem after_map (f : α → β) (run : Run α) (m : Machine) : (f <$> run).after m = run.after m := by
  cases hrun : run m with
  | ok a left => rw [after_of_ok hrun, after_of_ok (map_of_ok hrun f)]
  | error fault left => rw [after_of_error hrun, after_of_error (map_of_error hrun f)]

theorem result_map (f : α → β) (run : Run α) (m : Machine) :
    (f <$> run).result m = (run.result m).map f := by
  cases hrun : run m with
  | ok a left => rw [result_of_ok hrun, result_of_ok (map_of_ok hrun f)]; rfl
  | error fault left => rw [result_of_error hrun, result_of_error (map_of_error hrun f)]; rfl

/-! ## What a step depends on -/

theorem SameOutcome.map {p q : Run α} {m m' : Machine} (h : SameOutcome p q m m') (f : α → β) :
    SameOutcome (f <$> p) (f <$> q) m m' := by
  refine ⟨?_, ?_, ?_⟩
  · rw [result_map, result_map, h.result]
  · rw [after_map, after_map]
    exact h.prints
  · rw [after_map, after_map]
    exact h.log

theorem sameOutcome_load (program : Program) (m m' : Machine) :
    SameOutcome (load program) (load program) m m' := by
  cases hnames : firstRepeated? [] (program.map Function.name) with
  | some name => exact .of_error (load_of_repeated hnames m) (load_of_repeated hnames m')
  | none =>
    refine ⟨?_, ⟨#[], ?_⟩, ⟨#[loadLine program], ?_⟩⟩
    · rw [result, result, load_of_distinct hnames, load_of_distinct hnames]
      rfl
    · rw [after, after, load_of_distinct hnames, load_of_distinct hnames]
      exact ⟨Array.append_empty.symm, Array.append_empty.symm⟩
    · rw [after, after, load_of_distinct hnames, load_of_distinct hnames]
      exact ⟨rfl, rfl⟩

theorem sameOutcome_interpret (program : Program) {m m' : Machine} (h : m.SameCalls m') :
    SameOutcome (interpret program) (interpret program) m m' := by
  cases hnames : firstRepeated? [] (program.map Function.name) with
  | some name => exact .of_error (interpret_of_repeated hnames m) (interpret_of_repeated hnames m')
  | none =>
    have hloaded : (loaded program m).SameCalls (loaded program m') := { h with functions := rfl }
    have hcall := sameOutcome_call mainName [] hloaded
    obtain ⟨pieces, hprints, hprints'⟩ := hcall.prints
    obtain ⟨lines, hlog, hlog'⟩ := hcall.log
    refine ⟨?_, ⟨pieces, ?_⟩, ⟨#[loadLine program, "running " ++ mainName] ++ lines, ?_⟩⟩
    · rw [result, result, interpret_of_distinct hnames, interpret_of_distinct hnames]
      exact hcall.result
    · rw [after, after, interpret_of_distinct hnames, interpret_of_distinct hnames]
      exact ⟨hprints, hprints'⟩
    · rw [after, after, interpret_of_distinct hnames, interpret_of_distinct hnames,
        ← Array.append_assoc, ← Array.append_assoc]
      exact ⟨hlog, hlog'⟩

end Run

/-! ## Commands -/

namespace Command

/-- The command loads a program, runs one or calls a function. -/
def IsRun : Command → Prop
  | .load _ | .interpret _ | .call _ _ => True
  | _ => False

/-- The table of functions after a command: a program that defines no function twice replaces it. -/
def tableAfter (table : List Function) : Command → List Function
  | .load program | .interpret program => if program.Distinct then program else table
  | _ => table

/-- The functions of the last program that could be loaded. -/
def lastLoaded (commands : List Command) : List Function :=
  commands.foldl tableAfter []

variable {command : Command} {m m' : Machine}

/-- What a command comes to depends on the functions and the calls only. -/
theorem sameOutcome (hrun : command.IsRun) (h : m.SameCalls m') :
    Run.SameOutcome command.run command.run m m' := by
  cases command with
  | load program => exact (Run.sameOutcome_load program m m').map fun _ => none
  | interpret program => exact (Run.sameOutcome_interpret program h).map some
  | call name args => exact (Run.sameOutcome_call name args h).map some
  | _ => exact hrun.elim

end Command

/-- What a command shows is what its run comes to, with what is printed and logged since. -/
theorem Machine.report_eq (m : Machine) (command : Command) :
    m.report command =
      { result := command.run.result m
        prints := (command.run.after m).prints.toList.drop m.prints.size
        log := (command.run.after m).log.toList.drop m.log.size
        machine := command.run.after m } := by
  rw [Machine.report, Run.result, Run.after]
  cases command.run m <;> rfl

/-! ## Between two commands -/

/-- The machine between two commands: nothing is open, and the table of functions is known. -/
structure Machine.Idle (limit : Int) (table : List Function) (m : Machine) : Prop where
  scopes : m.scopes = []
  callDepth : m.callDepth = 0
  maxCallDepth : m.maxCallDepth = limit
  functions : m.functions = table

namespace Machine.Idle

variable {limit : Int} {table : List Function} {m m' : Machine}

theorem sameCalls (h : m.Idle limit table) (h' : m'.Idle limit table) : m.SameCalls m' :=
  ⟨h.functions.trans h'.functions.symm, h.callDepth.trans h'.callDepth.symm,
    h.maxCallDepth.trans h'.maxCallDepth.symm⟩

/-- A call leaves nothing open. -/
theorem after_call (h : m.Idle limit table) (name : String) (args : List Value) :
    ((Run.call name args).after m).Idle limit table := by
  have hframe := Run.keepsFrame_call name args m
  exact
    { scopes := (Run.scopes_after_call name args m).trans h.scopes
      callDepth := hframe.callDepth.trans h.callDepth
      maxCallDepth := hframe.maxCallDepth.trans h.maxCallDepth
      functions := hframe.functions.trans h.functions }

theorem after_load (h : m.Idle limit table) (program : Program) :
    ((Run.load program).after m).Idle limit (if program.Distinct then program else table) := by
  split
  · rename_i hdistinct
    rw [Run.after, Run.load_of_distinct (Program.distinct_iff.mp hdistinct)]
    exact { h with functions := rfl }
  · rename_i hrepeated
    obtain ⟨name, hname⟩ := Program.exists_repeated hrepeated
    rw [Run.after_of_error (Run.load_of_repeated hname m)]
    exact h

theorem after_interpret (h : m.Idle limit table) (program : Program) :
    ((Run.interpret program).after m).Idle limit (if program.Distinct then program else table) := by
  split
  · rename_i hdistinct
    have hloaded : (Run.loaded program m).Idle limit program := { h with functions := rfl }
    rw [Run.after, Run.interpret_of_distinct (Program.distinct_iff.mp hdistinct)]
    exact hloaded.after_call Run.mainName []
  · rename_i hrepeated
    obtain ⟨name, hname⟩ := Program.exists_repeated hrepeated
    rw [Run.after_of_error (Run.interpret_of_repeated hname m)]
    exact h

/-- A command leaves the machine idle, with the table that it is to have. -/
theorem after (h : m.Idle limit table) {command : Command} (hrun : command.IsRun) :
    (command.run.after m).Idle limit (command.tableAfter table) := by
  cases command with
  | load program =>
    have hmap : Command.run (.load program) = (fun _ => none) <$> Run.load program := rfl
    rw [hmap, Run.after_map]
    exact h.after_load program
  | interpret program =>
    rw [Command.run, Run.after_map]
    exact h.after_interpret program
  | call name args =>
    rw [Command.run, Run.after_map]
    exact h.after_call name args
  | _ => exact hrun.elim

end Machine.Idle

/-! ## Histories -/

/-- The machine after some commands, one after the other, whether they fail or not. -/
def Machine.afterAll : Machine → List Command → Machine
  | m, [] => m
  | m, command :: commands => (m.report command).machine.afterAll commands

/-- A machine with that table of functions on which nothing was done yet. -/
def Machine.fresh (limit : Int) (table : List Function) : Machine :=
  { functions := table, maxCallDepth := limit }

theorem Machine.idle_fresh (limit : Int) (table : List Function) :
    (Machine.fresh limit table).Idle limit table :=
  ⟨rfl, rfl, rfl, rfl⟩

/-- What each of the commands shows on a fresh machine of its own, with the functions that the
commands before it have loaded. -/
def Command.apart (limit : Int) : (table : List Function) → List Command → List Command.Report
  | _, [] => []
  | table, command :: commands =>
    (Machine.fresh limit table).report command ::
      Command.apart limit (command.tableAfter table) commands

theorem Machine.Idle.afterAll {limit : Int} {table : List Function} {m : Machine}
    (h : m.Idle limit table) {commands : List Command} (hruns : ∀ c ∈ commands, c.IsRun) :
    (m.afterAll commands).Idle limit (commands.foldl Command.tableAfter table) := by
  induction commands generalizing m table with
  | nil => exact h
  | cons command commands ih =>
    obtain ⟨hrun, hrest⟩ := List.forall_mem_cons.mp hruns
    refine ih ?_ hrest
    rw [m.report_eq]
    exact h.after hrun

/-- What a command prints and logs is what it adds. -/
theorem Machine.report_of_append {m : Machine} {command : Command} {pieces lines : Array String}
    (hprints : (command.run.after m).prints = m.prints ++ pieces)
    (hlog : (command.run.after m).log = m.log ++ lines) :
    (m.report command).prints = pieces.toList ∧ (m.report command).log = lines.toList := by
  rw [m.report_eq]
  simp only [hprints, hlog, Array.toList_append, ← Array.length_toList, List.drop_left, and_self]

section

variable {limit : Int} {table : List Function} {m m' : Machine} {command : Command}

/-- On two idle machines with the same table a command shows the same. -/
theorem Machine.Idle.same_report (h : m.Idle limit table) (h' : m'.Idle limit table)
    (hrun : command.IsRun) :
    (m.report command).result = (m'.report command).result ∧
    (m.report command).prints = (m'.report command).prints ∧
    (m.report command).log = (m'.report command).log := by
  have hsame := Command.sameOutcome hrun (h.sameCalls h')
  obtain ⟨pieces, hprints, hprints'⟩ := hsame.prints
  obtain ⟨lines, hlog, hlog'⟩ := hsame.log
  obtain ⟨hp, hl⟩ := Machine.report_of_append hprints hlog
  obtain ⟨hp', hl'⟩ := Machine.report_of_append hprints' hlog'
  refine ⟨?_, hp.trans hp'.symm, hl.trans hl'.symm⟩
  rw [m.report_eq, m'.report_eq]
  exact hsame.result

/-- A command prints behind what was printed before. -/
theorem Machine.output_report (m : Machine) (hrun : command.IsRun) :
    (m.report command).machine.output = m.output ++ String.join (m.report command).prints := by
  have hsame := Command.sameOutcome hrun (⟨rfl, rfl, rfl⟩ : m.SameCalls m)
  obtain ⟨pieces, hprints, _⟩ := hsame.prints
  obtain ⟨lines, hlog, _⟩ := hsame.log
  rw [(Machine.report_of_append hprints hlog).1, m.report_eq, Machine.output, Machine.output,
    hprints, Array.toList_append, String.join_append]

/-- All that is printed is what the commands print on machines of their own. -/
theorem Machine.Idle.output_afterAll (h : m.Idle limit table) {commands : List Command}
    (hruns : ∀ c ∈ commands, c.IsRun) :
    (m.afterAll commands).output =
      m.output ++ String.join ((Command.apart limit table commands).map (·.machine.output)) := by
  induction commands generalizing m table with
  | nil => simp [Machine.afterAll, Command.apart]
  | cons command commands ih =>
    obtain ⟨hrun, hrest⟩ := List.forall_mem_cons.mp hruns
    have hnext : (m.report command).machine.Idle limit (command.tableAfter table) := by
      rw [m.report_eq]
      exact h.after hrun
    have hfresh : ((Machine.fresh limit table).report command).machine.output =
        String.join (m.report command).prints := by
      rw [(Machine.fresh limit table).output_report hrun,
        (h.same_report (Machine.idle_fresh limit table) hrun).2.1]
      exact String.empty_append
    rw [Machine.afterAll, ih hnext hrest, m.output_report hrun, Command.apart, List.map_cons,
      String.join_cons, hfresh, String.append_assoc]

end

/-- A program can be loaded exactly if it defines no function twice. -/
theorem Machine.result_report_load_iff (m : Machine) (program : Program) :
    (m.report (.load program)).result = .ok none ↔ program.Distinct := by
  have hmap : Command.run (.load program) = (fun _ => none) <$> Run.load program := rfl
  rw [m.report_eq, Program.distinct_iff, hmap, Run.result_map]
  cases hnames : firstRepeated? [] (program.map Function.name) with
  | some name =>
    rw [Run.result_of_error (Run.load_of_repeated hnames m)]
    exact ⟨nofun, nofun⟩
  | none =>
    rw [Run.result, Run.load_of_distinct hnames]
    exact ⟨fun _ => rfl, fun _ => rfl⟩

/-- A program that defines a function twice is refused, and nothing changes. -/
theorem Machine.report_of_repeated {program : Program} (h : ¬program.Distinct) (m : Machine)
    {command : Command} (hcommand : command = .load program ∨ command = .interpret program) :
    ∃ name, m.report command = ⟨.error (.redefinedFunction name), [], [], m⟩ := by
  obtain ⟨name, hname⟩ := Program.exists_repeated h
  have hrun : command.run m = .error (.redefinedFunction name) m := by
    rcases hcommand with rfl | rfl
    · exact Run.map_of_error (Run.load_of_repeated hname m) fun _ => none
    · exact Run.map_of_error (Run.interpret_of_repeated hname m) some
  refine ⟨name, ?_⟩
  rw [m.report_eq, Run.result_of_error hrun, Run.after_of_error hrun]
  simp

/-- **A machine can be used again after any failure.**  Whatever commands a machine that started
empty has been given, to load programs, to run them or to call functions, and whatever came of them:
no scope and no call is open, and its functions are those of the last program that could be loaded.
The next command has the outcome, prints and logs what it does on a fresh machine with these
functions.  A program that defines a function twice is refused and changes nothing.  And all that
was printed is what the commands print apart from each other. -/
theorem machine_is_reusable (limit : Int) (commands : List Command)
    (hruns : ∀ c ∈ commands, c.IsRun) :
    let m := Machine.afterAll { maxCallDepth := limit } commands
    (m.scopes = [] ∧ m.callDepth = 0 ∧ m.functions = Command.lastLoaded commands) ∧
    (∀ command : Command, command.IsRun →
      let alone := (Machine.fresh limit (Command.lastLoaded commands)).report command
      (m.report command).result = alone.result ∧ (m.report command).prints = alone.prints ∧
        (m.report command).log = alone.log) ∧
    (∀ program : Program,
      ((m.report (.load program)).result = .ok none ↔ program.Distinct) ∧
      (¬program.Distinct → ∀ command : Command,
        command = .load program ∨ command = .interpret program →
        ∃ name, m.report command = ⟨.error (.redefinedFunction name), [], [], m⟩)) ∧
    m.output = String.join ((Command.apart limit [] commands).map (·.machine.output)) := by
  have hstart := Machine.idle_fresh limit []
  have hidle : (Machine.afterAll { maxCallDepth := limit } commands).Idle limit
      (Command.lastLoaded commands) := hstart.afterAll hruns
  refine ⟨⟨hidle.scopes, hidle.callDepth, hidle.functions⟩, fun command hrun => ?_,
    fun program => ⟨?_, fun hrepeated command hcommand => ?_⟩, ?_⟩
  · exact hidle.same_report (Machine.idle_fresh limit _) hrun
  · exact Machine.result_report_load_iff _ program
  · exact Machine.report_of_repeated hrepeated _ hcommand
  · exact (hstart.output_afterAll hruns).trans String.empty_append

/-- Commands most of which fail: after a program is loaded, another one is refused, a function is
called that does not exist, and one that prints and then divides by zero. -/
def faultyCommands : List Command :=
  [.load [⟨"f", [⟨"x", none⟩], [.call "print" [.name "x"], .binary .div (.name "x") (.name "x")]⟩],
   .interpret [⟨"f", [], []⟩, ⟨"f", [], []⟩],
   .call "g" [],
   .call "f" [.int 0]]

theorem faultyCommands_leave_the_machine_idle :
    (∀ c ∈ faultyCommands, c.IsRun) ∧
    (let m := Machine.afterAll { maxCallDepth := 2 } faultyCommands
     m.scopes = [] ∧ m.callDepth = 0 ∧ m.functions = Command.lastLoaded faultyCommands ∧
     m.output = "0\n" ∧
     (m.report (.call "f" [.int 7])).result = .ok (some (.int 1)) ∧
     (m.report (.call "f" [.int 7])).prints = ["7", "\n"] ∧
     ¬Program.Distinct [⟨"f", [], []⟩, ⟨"f", [], []⟩] ∧
     (∃ name, m.report (.load [⟨"f", [], []⟩, ⟨"f", [], []⟩]) =
       ⟨.error (.redefinedFunction name), [], [], m⟩)) := by
  have hruns : ∀ c ∈ faultyCommands, c.IsRun := by
    simp [faultyCommands, Command.IsRun]
  obtain ⟨⟨hscopes, hdepth, hfunctions⟩, hnext, hload, houtput⟩ :=
    machine_is_reusable 2 faultyCommands hruns
  obtain ⟨hresult, hprints, _⟩ := hnext (.call "f" [.int 7]) trivial
  have hrepeated : ¬Program.Distinct [⟨"f", [], []⟩, ⟨"f", [], []⟩] := by decide
  refine ⟨hruns, hscopes, hdepth, hfunctions, houtput.trans ?_, hresult.trans ?_, hprints.trans ?_,
    hrepeated, (hload _).2 hrepeated _ (Or.inl rfl)⟩
  · decide +kernel
  · decide +kernel
  · decide +kernel

end Scriptlet
