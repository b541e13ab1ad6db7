/-
# Runner.Streams -- what reaches the runner's standard output

The runner is started with a pipe for its standard output, and forks its children
with it.  Here are the calls on descriptors that the runner and its children make,
function by function, along the runs of a build: the log, `error.out`, the
child's three `freopen`s, and the one `printf` that is not under `DEBUG`.  A stream
that is opened anew and fails is closed, so the child has lost the pipe either way
before it becomes the user's program.  What that program does is open; it may find
the pipe by the name it has below `/proc`.

`MainCalls.received_eq`: what reaches the pipe is what the programs write where they
have opened it anew, and the line of the final `printf`.  Files opened only to be read
are left out.
-/
import RunServer.Theory.Descriptors
import RunServer.Runner.Directory
import RunServer.Runner.Outside

namespace RunServer.Runner

open RunServer.Theory
open RunServer.Theory.Loop
open RunServer.Theory.Descriptors

set_option autoImplicit false

inductive Sink where
  /-- What `cmd.Stdout` collects. -/
  | pipe
  | devNull
  | file (name : List UInt8)
  deriving DecidableEq, Repr

abbrev Calls := List (Call Sink)

/-- `exec.Command` sets the standard output only. -/
def startTable : Table Sink
  | 0 => some .devNull
  | 1 => some .pipe
  | 2 => some .devNull
  | _ => none

/-! ## The functions that write -/

/-- `fopen`, `fprintf`, `fclose`, at a descriptor that was free. -/
inductive WritesFile (name : List UInt8) : Calls → Prop
  | mk {fd : Nat} (free : 2 < fd) (text : List Char) :
      WritesFile name [.point fd (some (.file name)), .write fd text, .point fd none]

inductive WriteLog : Calls → Prop
  | logged (name : List UInt8) {calls : Calls} : WritesFile name calls → WriteLog calls
  | failed : WriteLog [.write 2 "openfile error!\n".toList]

/-- Some calls of `write_log`. -/
def WriteLogs (calls : Calls) : Prop := ∃ times : List Unit, InTurn (fun _ => WriteLog) times calls

inductive Freopen (fd : Nat) (name : List UInt8) : Calls → Prop
  | opened : Freopen fd name [.point fd (some (.file name))]
  | failed : Freopen fd name [.point fd none]

/-- `run_solution`, and what the user's program does when `execl` succeeds.  `chroot` and
its result change none of the descriptors. -/
inductive RunSolution (infile : List UInt8) (program : Calls) : Calls → Prop
  | mk {input output errors : Calls} :
      Freopen 0 infile input → Freopen 1 userOutName output → Freopen 2 errorOutName errors →
      RunSolution infile program (input ++ output ++ errors ++ program)

/-- A request of a pass; those to the kernel write nothing. -/
inductive RequestCalls : Request → Calls → Prop
  | signal (sig : Nat) {calls : Calls} :
      WritesFile errorOutName calls → RequestCalls (.printRuntimeerror (.signal sig)) calls
  | notAllowed (callid : UInt64) {logged calls : Calls} :
      WriteLog logged → WritesFile errorOutName calls →
      RequestCalls (.printRuntimeerror (.notAllowed callid)) (logged ++ calls)
  | kernel {r : Request} : (∀ err, r ≠ .printRuntimeerror err) → RequestCalls r []

/-- A pass of `watch_solution` that leaves `w`: reading `VmPeak` logs, for Java it is not
read. -/
inductive PassCalls (p : Parameters) (w : Watch) : Calls → Prop
  | mk {readings requests : Calls} :
      WriteLogs readings → (p.lang = langJava → readings = []) →
      InTurn RequestCalls w.requests requests → PassCalls p w (readings ++ requests)

/-! ## `main` -/

section Main

variable (b : Build) (p : Parameters)

/-- The parent's calls while it watches a test that starts in `s`. -/
def WatchCalls (s : Progress) (behind : Behind) (t : Test) (calls : Calls) : Prop :=
  InTurn (fun m : Built => PassCalls p m.watch) (visited (iterationBuilt b.recordCall p s.usedtime)
    ⟨startWatch s.topmemory (initSyscallsLimits b.recordCall p.lang), behind⟩ t.observations) calls

/-- A test: the child, unless `fork` fails, and the parent watching; with the calls of the
programs that are started. -/
inductive TestCalls (s : Progress) (behind : Behind) (e : Entry) : List Calls → Calls → Prop
  | forked {files : TestFiles} {program child watching : Calls} :
      prepareFiles e.dName = .fellOff files → RunSolution files.infile program child →
      WatchCalls b p s behind e.test watching →
      TestCalls s behind e [program] (.fork child :: watching)
  | notForked {watching : Calls} :
      WatchCalls b p s behind e.test watching → TestCalls s behind e [] watching

/-- The test loop, from `s` over these entries to `s'`. -/
inductive LoopCalls :
    Progress → Behind → List Entry → Progress → Behind → List Calls → Calls → Prop
  | nil {s : Progress} {behind : Behind} : LoopCalls s behind [] s behind [] []
  | stop {s : Progress} {behind : Behind} {e : Entry} {rest : List Entry} :
      s.judgeFlag ≠ .AC → LoopCalls s behind (e :: rest) s behind [] []
  | skip {s s' : Progress} {behind behind' : Behind} {e : Entry} {rest : List Entry}
      {programs : List Calls} {calls : Calls} :
      s.judgeFlag = .AC → isTest b e = false →
      LoopCalls s behind rest s' behind' programs calls →
      LoopCalls s behind (e :: rest) s' behind' programs calls
  | test {s s' s'' : Progress} {behind behind' behind'' : Behind} {e : Entry}
      {rest : List Entry} {programs programs' : List Calls} {calls later : Calls} :
      s.judgeFlag = .AC → isTest b e = true →
      runTestBuilt b p s behind e.test = .ok (s', behind') →
      TestCalls b p s behind e programs calls →
      LoopCalls s' behind' rest s'' behind'' programs' later →
      LoopCalls s behind (e :: rest) s'' behind'' (programs ++ programs') (calls ++ later)

end Main

/-- `init_parameters`; for Java it has the shell run `cp`. -/
def initCalls (p : Parameters) (cp : Calls) : Calls := if p.lang = langJava then [.fork cp] else []

/-- A run of the runner that reaches its final `printf`. -/
inductive MainCalls (b : Build) (argv : List (List UInt8)) (workDir : Parameters → WorkDir)
    (behind : Behind) (cp : Calls) : Report → List Calls → Calls → Prop
  | mk {p : Parameters} {entries : List Entry} {s : Progress} {behind' : Behind}
      {programs : List Calls} {logged loop logged' : Calls} :
      initParameters argv = .ok p → WriteLogs logged → workDir p = .opened entries →
      LoopCalls b p startProgress behind entries s behind' programs loop → WriteLogs logged' →
      MainCalls b argv workDir behind cp (report p s) programs
        (initCalls p cp ++ logged ++ loop ++ logged' ++ [.write 1 (report p s).print])

/-! ## Every run has such calls -/

theorem exists_requestCalls (r : Request) : ∃ calls, RequestCalls r calls := by
  cases r with
  | printRuntimeerror err =>
      have writes : WritesFile errorOutName _ := .mk (show 2 < 3 by decide) []
      cases err with
      | signal sig => exact ⟨_, .signal sig writes⟩
      | notAllowed callid => exact ⟨_, .notAllowed callid .failed writes⟩
  | _ => exact ⟨[], .kernel (by simp)⟩

theorem exists_passCalls (p : Parameters) (w : Watch) : ∃ calls, PassCalls p w calls := by
  obtain ⟨calls, made⟩ := exists_inTurn exists_requestCalls w.requests
  exact ⟨_, .mk ⟨[], .nil⟩ (fun _ => rfl) made⟩

theorem exists_runSolution (infile : List UInt8) (program : Calls) :
    ∃ calls, RunSolution infile program calls :=
  ⟨_, .mk .opened .opened .opened⟩

theorem prepared_of_isTest {b : Build} {e : Entry} (test : isTest b e = true) :
    ∃ files, prepareFiles e.dName = .fellOff files := by
  cases prepared : prepareFiles e.dName with
  | refused => simp [isTest, prepared, Prepared.value] at test
  | fellOff files => exact ⟨files, rfl⟩

/-- Every loop of `main` has calls, whatever the program does that its children become. -/
theorem exists_loopCalls {b : Build} {p : Parameters} {s s' : Progress}
    {behind behind' : Behind} {entries : List Entry}
    (loop : testLoopBuilt b p s behind entries = .ok (s', behind')) (program : Calls) :
    ∃ programs calls, (∀ c ∈ programs, c = program) ∧
      LoopCalls b p s behind entries s' behind' programs calls := by
  induction entries generalizing s behind with
  | nil =>
      cases loop
      exact ⟨[], [], by simp, .nil⟩
  | cons e rest ih =>
      simp only [testLoopBuilt] at loop
      split at loop
      · rename_i accepted
        split at loop
        · rename_i test
          split at loop
          · cases loop
          · rename_i next behind'' ran
            obtain ⟨programs, later, same, looped⟩ := ih loop
            obtain ⟨files, prepared⟩ := prepared_of_isTest test
            obtain ⟨child, solution⟩ := exists_runSolution files.infile program
            obtain ⟨watching, watched⟩ := exists_inTurn
              (fun m : Built => exists_passCalls p m.watch) _
            refine ⟨[program] ++ programs, _, ?_,
              .test accepted test ran (.forked prepared solution watched) looped⟩
            intro c member
            rcases List.mem_append.1 member with here | there
            · exact List.mem_singleton.1 here
            · exact same c there
        · rename_i noTest
          obtain ⟨programs, calls, same, looped⟩ := ih loop
          exact ⟨programs, calls, same, .skip accepted (by simpa using noTest) looped⟩
      · rename_i refused
        cases loop
        exact ⟨[], [], by simp, .stop refused⟩

/-- Every run of the runner that reaches its final `printf` has calls. -/
theorem exists_mainCalls {b : Build} {argv : List (List UInt8)}
    {workDir : Parameters → WorkDir} {behind : Behind} {p : Parameters} {entries : List Entry}
    {r : Report} (parameters : initParameters argv = .ok p)
    (opened : workDir p = .opened entries) (ran : runTestsBuilt b p behind entries = .ok r)
    (cp program : Calls) :
    ∃ programs calls, (∀ c ∈ programs, c = program) ∧
      MainCalls b argv workDir behind cp r programs calls := by
  unfold runTestsBuilt at ran
  split at ran
  · cases ran
  · rename_i s behind' loop
    cases ran
    obtain ⟨programs, calls, same, looped⟩ := exists_loopCalls loop program
    exact ⟨programs, _, same, .mk parameters ⟨[], .nil⟩ opened looped ⟨[], .nil⟩⟩

/-! ## What the programs write, and the last line -/

abbrev Silent (calls : Calls) : Prop := Quiet Sink.pipe 1 calls

theorem WritesFile.silent {name : List UInt8} {calls : Calls} (writes : WritesFile name calls) :
    Silent calls := by
  cases writes with
  | @mk fd free text =>
      have other : fd ≠ 1 := by omega
      exact (quiet_point other (by simp)).append
        ((quiet_write other).append (quiet_point other (by simp)))

theorem WriteLog.silent {calls : Calls} (logs : WriteLog calls) : Silent calls := by
  cases logs with
  | logged name writes => exact writes.silent
  | failed => exact quiet_write (by decide)

theorem WriteLogs.silent {calls : Calls} (logs : WriteLogs calls) : Silent calls := by
  obtain ⟨times, inTurn⟩ := logs
  exact inTurn.quiet fun _ _ => WriteLog.silent

theorem Freopen.absent {name : List UInt8} {calls : Calls} (opens : Freopen 1 name calls)
    {d : Table Sink} (only : Only Sink.pipe 1 d) :
    received Sink.pipe d calls = [] ∧ Absent Sink.pipe (after d calls) := by
  cases opens with
  | opened =>
      refine ⟨by simp [received], ?_⟩
      simpa [after] using only.absent (by simp)
  | failed =>
      refine ⟨by simp [received], ?_⟩
      simpa [after] using only.absent (by simp)

theorem Freopen.silent {fd : Nat} {name : List UInt8} {calls : Calls}
    (opens : Freopen fd name calls) (other : fd ≠ 1) : Silent calls := by
  cases opens with
  | opened => exact quiet_point other (by simp)
  | failed => exact quiet_point other (by simp)

/-- **The child has lost the pipe before it becomes the user's program.** -/
theorem RunSolution.received_eq {infile : List UInt8} {program calls : Calls}
    (runs : RunSolution infile program calls) {d : Table Sink} (only : Only Sink.pipe 1 d) :
    received Sink.pipe d calls = reopened Sink.pipe program := by
  cases runs with
  | @mk input output errors opensInput opensOutput opensErrors =>
      obtain ⟨nothing, still⟩ := opensInput.silent (by decide) d only
      obtain ⟨nothing', absent⟩ := opensOutput.absent still
      have later : received Sink.pipe (after (after d input) output) (errors ++ program) =
          reopened Sink.pipe program := by
        cases opensErrors with
        | opened =>
            simp only [List.cons_append, List.nil_append, received]
            exact received_of_absent (absent.update 2 (by simp)) program
        | failed =>
            simp only [List.cons_append, List.nil_append, received]
            exact received_of_absent (absent.update 2 (by simp)) program
      rw [List.append_assoc, received_append, received_append, after_append, nothing, nothing',
        later]
      rfl

theorem RequestCalls.silent {r : Request} {calls : Calls} (made : RequestCalls r calls) :
    Silent calls := by
  cases made with
  | signal sig writes => exact writes.silent
  | notAllowed callid logs writes => exact logs.silent.append writes.silent
  | kernel _ => exact quiet_nil

theorem PassCalls.silent {p : Parameters} {w : Watch} {calls : Calls}
    (made : PassCalls p w calls) : Silent calls := by
  cases made with
  | mk logs _ requests => exact logs.silent.append (requests.quiet fun _ _ => RequestCalls.silent)

section Programs

variable {b : Build} {p : Parameters}

/-- What these programs write to the pipe where they have opened it anew. -/
def reopenedBy (programs : List Calls) : List Char := programs.flatMap (reopened Sink.pipe)

theorem reopenedBy_eq_nil_iff {programs : List Calls} :
    reopenedBy programs = [] ↔ ∀ program ∈ programs, reopened Sink.pipe program = [] :=
  List.flatMap_eq_nil_iff

theorem WatchCalls.silent {s : Progress} {behind : Behind} {t : Test} {calls : Calls}
    (made : WatchCalls b p s behind t calls) : Silent calls :=
  InTurn.quiet made fun _ _ => PassCalls.silent

theorem TestCalls.puts {s : Progress} {behind : Behind} {e : Entry} {programs : List Calls}
    {calls : Calls} (made : TestCalls b p s behind e programs calls) :
    Puts Sink.pipe 1 (reopenedBy programs) calls := by
  cases made with
  | @forked files program child watching _ solution watched =>
      have child : Puts Sink.pipe 1 (reopened Sink.pipe program) [.fork child] :=
        puts_fork fun d only => solution.received_eq only
      simpa [reopenedBy] using child.append watched.silent
  | notForked watched => exact watched.silent

theorem LoopCalls.puts {s s' : Progress} {behind behind' : Behind} {entries : List Entry}
    {programs : List Calls} {calls : Calls}
    (made : LoopCalls b p s behind entries s' behind' programs calls) :
    Puts Sink.pipe 1 (reopenedBy programs) calls := by
  induction made with
  | nil => exact quiet_nil
  | stop _ => exact quiet_nil
  | skip _ _ _ ih => exact ih
  | test _ _ _ tested _ ih =>
      rw [reopenedBy, List.flatMap_append]
      exact tested.puts.append ih

/-- The loop of calls is the loop of `main`. -/
theorem LoopCalls.testLoop_eq {s s' : Progress} {behind behind' : Behind}
    {entries : List Entry} {programs : List Calls} {calls : Calls}
    (made : LoopCalls b p s behind entries s' behind' programs calls) :
    testLoopBuilt b p s behind entries = .ok (s', behind') := by
  induction made with
  | nil => rfl
  | stop refused => simp [testLoopBuilt, refused]
  | skip accepted noTest _ ih => simpa [testLoopBuilt, accepted, noTest] using ih
  | test accepted test ran _ _ ih => simpa [testLoopBuilt, accepted, test, ran] using ih

end Programs

/-- Exactly the descriptor 1 of the runner stands for the pipe. -/
theorem only_startTable : Only Sink.pipe 1 startTable := by
  intro fd
  match fd with
  | 0 => decide
  | 1 => decide
  | 2 => decide
  | fd + 3 => simp [startTable]

section Main

variable {b : Build} {argv : List (List UInt8)} {workDir : Parameters → WorkDir}
variable {behind : Behind} {cp calls : Calls} {r : Report} {programs : List Calls}

/-- **What reaches the pipe**: what the programs write where they have opened it anew, and
the line of the final `printf`.  `cp` writes nothing to its standard output. -/
theorem MainCalls.received_eq
    (copies : ∀ d, Only Sink.pipe 1 d → received Sink.pipe d cp = [])
    (made : MainCalls b argv workDir behind cp r programs calls) :
    received Sink.pipe startTable calls = reopenedBy programs ++ r.print := by
  cases made with
  | @mk p entries s behind' _ logged loop logged' _ logs _ looped logs' =>
      have init : Silent (initCalls p cp) := by
        unfold initCalls
        split
        · exact puts_fork copies
        · exact quiet_nil
      have all : Puts Sink.pipe 1 (reopenedBy programs ++ (report p s).print)
          (initCalls p cp ++ logged ++ loop ++ logged' ++ [.write 1 (report p s).print]) := by
        have before : Silent (initCalls p cp ++ logged) := init.append logs.silent
        have tested := (Puts.append before looped.puts).append logs'.silent
        simpa using tested.append (puts_write (report p s).print)
      exact (all startTable only_startTable).1

/-- The calls are those of a run of `main` that ends after its `printf`. -/
theorem MainCalls.ran (made : MainCalls b argv workDir behind cp r programs calls) :
    ∃ p entries, initParameters argv = .ok p ∧ workDir p = .opened entries ∧
      runTestsBuilt b p behind entries = .ok r := by
  cases made with
  | mk parameters _ opened looped _ =>
      exact ⟨_, _, parameters, opened, by simp [runTestsBuilt, looped.testLoop_eq]⟩

end Main

end RunServer.Runner
