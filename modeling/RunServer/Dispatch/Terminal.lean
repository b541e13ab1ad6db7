/-
# Dispatch.Terminal -- which judgings end with a terminal verdict

Two programs in two languages meet at one line of text.  The runner writes to a
buffered standard output, so what `GetStatus` reads is the whole line of the final
`printf`, or nothing: nothing when the runner leaves through an earlier `exit`, when
it is killed, and when it cannot be started.  `GetStatus` splits what it has read at
spaces and takes the second and third field without counting them, so it reads the
line back (`readStatus_print`) and panics on nothing (`readStatus_nil`).
-/
import RunServer.Dispatch.Alone
import RunServer.Runner.Usage

namespace RunServer.Dispatch

open RunServer.Theory

set_option autoImplicit false

/-! ## How the runner ends -/

inductive RunnerEnd where
  | exited (e : Runner.Exit)
  | killed
  | notStarted
  deriving DecidableEq, Repr

/-- What reaches the pipe: the buffer is written at `exit` only. -/
def RunnerEnd.stdout : RunnerEnd → List Char
  | .exited e => e.stdout
  | .killed => []
  | .notStarted => []

/-- An end the runner can come to on this command line. -/
inductive RunnerEnd.Possible (b : Runner.Build) (argv : List (List UInt8))
    (workDir : Runner.Parameters → Runner.WorkDir) : RunnerEnd → Prop where
  | exited {e : Runner.Exit} (ran : Runner.main b argv workDir = .ok e) :
      Possible b argv workDir (.exited e)
  | killed : Possible b argv workDir .killed
  | notStarted : Possible b argv workDir .notStarted

/-- It has reached the final `printf` and the `exit` after it. -/
def RunnerEnd.Finished (b : Runner.Build) (argv : List (List UInt8))
    (workDir : Runner.Parameters → Runner.WorkDir) (ending : RunnerEnd) : Prop :=
  ∃ p entries r, Runner.initParameters argv = .ok p ∧ workDir p = .opened entries ∧
    Runner.runTests b p entries = .ok r ∧ ending = .exited ⟨r.exitCode, r.print⟩

section Exits

variable {b : Runner.Build} {argv : List (List UInt8)}
variable {workDir : Runner.Parameters → Runner.WorkDir}

/-- **The runner's exits**: the final one, or one that has printed nothing. -/
theorem main_cases {e : Runner.Exit} (ran : Runner.main b argv workDir = .ok e) :
    RunnerEnd.Finished b argv workDir (.exited e) ∨ e.stdout = [] := by
  unfold Runner.main at ran
  split at ran
  · cases ran
    exact Or.inr rfl
  · cases ran
  · rename_i p accepted
    split at ran
    · cases ran
      exact Or.inr rfl
    · cases ran
      exact Or.inr rfl
    · rename_i entries opened
      split at ran
      · cases ran
      · rename_i r tested
        cases ran
        exact Or.inl ⟨p, entries, r, accepted, opened, tested, rfl⟩

theorem RunnerEnd.Finished.possible {ending : RunnerEnd} (finished : ending.Finished b argv workDir) :
    ending.Possible b argv workDir := by
  obtain ⟨p, entries, r, accepted, opened, tested, rfl⟩ := finished
  refine .exited ?_
  unfold Runner.main
  simp only [accepted, opened, tested]

theorem RunnerEnd.Possible.finished_or {ending : RunnerEnd}
    (possible : ending.Possible b argv workDir) :
    ending.Finished b argv workDir ∨ ending.stdout = [] := by
  cases possible with
  | exited ran => exact main_cases ran
  | killed => exact Or.inr rfl
  | notStarted => exact Or.inr rfl

end Exits

/-! ## Reading the line -/

theorem readStatus_nil (user : Solution) : (readStatus user []).2 = .panicked := by
  simp [readStatus]

/-- `"%d %d %d"` has its three fields. -/
theorem splitOn_line (v t m : Int) :
    ([' '].intercalate [decimal v, decimal t, decimal m]).splitOn ' ' =
      [decimal v, decimal t, decimal m] :=
  splitOn_decimals (by decide) (by decide) [v, t, m] (by simp)

theorem readStatus_line (user : Solution) (v t m : Int) :
    readStatus user ([' '].intercalate [decimal v, decimal t, decimal m]) =
      ((user.setResult (atoi (decimal v))).setResource (atoi (decimal t))
        (Int.tdiv (atoi (decimal m)) 1024) user.code.utf8ByteSize, .ok) := by
  unfold readStatus
  simp only [splitOn_line, List.headD_cons]
  rfl

theorem readStatus_print (user : Solution) (r : Runner.Report) :
    (readStatus user r.print).2 = .ok ∧
      (readStatus user r.print).1.judge = r.judgeFlag.code := by
  have code : atoi (decimal r.judgeFlag.code) = r.judgeFlag.code := by
    cases r.judgeFlag <;> exact atoi_decimal (by decide) (by decide)
  rw [Runner.Report.print, readStatus_line]
  exact ⟨rfl, code⟩

/-! ## Terminal verdicts -/

/-- The judging does not panic, and leaves a terminal verdict in the record. -/
def EndsTerminal (progs : Programs) (getSim : Int × Int) (info : Info) (w : Shared) : Prop :=
  (judge progs getSim info w).2.2 ≠ .panicked ∧
    ∃ j : Judge, j.Terminal ∧
      ((judge progs getSim info w).1.store.detail info.sid).map (fun sol => sol.val.judge) =
        some j.code

section Verdicts

variable {progs : Programs} {info : Info} {w : Shared} {sol : Model.Filed info.sid}
variable {limits : Int × Int} (getSim : Int × Int)

/-- The verdict in the record. -/
def verdict (progs : Programs) (getSim : Int × Int) (info : Info) (w : Shared) : Option Int :=
  ((judge progs getSim info w).1.store.detail info.sid).map fun sol => sol.val.judge

theorem Given.verdict_of_failed (given : Given progs info w sol limits)
    (failed : ((loaded info sol.val w.tree).compileState progs).failed = true) :
    (judge progs getSim info w).2.2 = .ok ∧
      verdict progs getSim info w = some Judge.CE.code := by
  obtain ⟨ended, stored⟩ := given.judge_of_failed getSim failed
  refine ⟨ended, ?_⟩
  rw [verdict, stored]
  rfl

/-- The judging panics over the missing fields. -/
theorem Given.verdict_of_silent (given : Given progs info w sol limits)
    (compiled : ((loaded info sol.val w.tree).compileState progs).failed = false)
    (silent : (loaded info sol.val w.tree).output progs limits = []) :
    (judge progs getSim info w).2.2 = .panicked ∧
      verdict progs getSim info w = some Judge.RJ.code := by
  obtain ⟨ended, stored⟩ := given.judge_of_compiled getSim compiled
  rw [silent, readStatus_nil] at ended
  rw [silent, readStatus_nil, if_pos rfl] at stored
  refine ⟨ended, ?_⟩
  rw [verdict, stored]
  rfl

theorem Given.verdict_of_print (given : Given progs info w sol limits)
    (compiled : ((loaded info sol.val w.tree).compileState progs).failed = false)
    {r : Runner.Report} (printed : (loaded info sol.val w.tree).output progs limits = r.print) :
    (judge progs getSim info w).2.2 = .ok ∧
      verdict progs getSim info w = some r.judgeFlag.code := by
  obtain ⟨ended, stored⟩ := given.judge_of_compiled getSim compiled
  obtain ⟨ok, code⟩ :=
    readStatus_print ((loaded info sol.val w.tree).user.setResult Judge.RJ.code) r
  rw [printed, ok] at ended
  rw [printed, ok, if_neg (by decide)] at stored
  refine ⟨ended, ?_⟩
  rw [verdict, stored]
  exact congrArg some code

end Verdicts

namespace Sample

/-- `runner 1 1 65536 ""`, with the limits of problem 1000. -/
def argv : List (List UInt8) := [[114], [49], [49], [54, 53, 53, 51, 54], []]

/-- One test, which is accepted. -/
def workDir (_ : Runner.Parameters) : Runner.WorkDir := .opened [Runner.Sample.entry [59, 231]]

def accepted : Runner.Report := ⟨.AC, 1, 122880⟩

def ending : RunnerEnd := .exited ⟨accepted.exitCode, accepted.print⟩

theorem finished : ending.Finished Runner.Sample.build argv workDir := by
  have tested : Runner.runTests Runner.Sample.build ⟨langC, 1, 512, [], by decide, by decide⟩
      [Runner.Sample.entry [59, 231]] = .ok accepted := by decide
  exact ⟨_, _, _, rfl, rfl, tested, rfl⟩

end Sample

end RunServer.Dispatch
