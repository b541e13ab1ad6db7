/-
# Dispatch.Execution -- acceptance without execution

A program that cannot be started is an `exit(0)` twice over: in the child of `compiler`
after `execvp`, and in `run_solution` after `execl`.  Both parents read 0 as success,
the dispatcher goes by theirs, and what is compared in the end is whatever `user.out`
holds.  And what `execl` starts is whatever `./Main` is by then: what the compiler has
made of the submission, what an earlier judging has left, or a file of the test data,
which is copied over both.

An `Input` is a submission with its test data, how the compiler comes out, and what the
processes of its tests do.  `acceptsOnlyExecuted_iff` says for which inputs `JudgeAC` is
stored only where every test has started the image of this submission and compared that
child's output.
-/
import RunServer.Dispatch.Terminal
import RunServer.Runner.Execution

namespace RunServer.Dispatch.Execution

open RunServer.Theory

set_option autoImplicit false

/-! ## `compiler` -/

/-- What becomes of `compiler` and of its child. -/
inductive Compilation where
  | notStarted
  | killed (sig : Nat)
  | notForked
  | notExecuted
  /-- `execvp` does not return, and the compiler ends with this status. -/
  | executed (status : Nat)
  deriving DecidableEq, Repr

/-- The languages of the `switch`. -/
def compilable (lang : Int) : Bool := lang = langC || lang = langCC || lang = langJava

/-- The exit of `compiler` on what `waitpid` has stored in `status`. -/
def exitOf (status : Nat) : ProcessState := .exited (if status = 0 then 0 else 1)

/-- `status` is that of an `exit(0)` behind a failed `execvp`, of an `exit(-1)` in the
default case, and the initial 0 where there is no child. -/
def Compilation.state (lang : Int) : Compilation → ProcessState
  | .notStarted => .notStarted
  | .killed sig => .signaled sig
  | .notForked => exitOf 0
  | .notExecuted => exitOf (if compilable lang then 0 else 255 * 256)
  | .executed status => exitOf (if compilable lang then status else 255 * 256)

/-! ## The work directory as the runner sees it -/

/-- The text with these bytes for its characters, and back. -/
def text (bytes : List UInt8) : String := String.ofList (bytes.map fun b => Char.ofNat b.toNat)
def bytes (s : String) : List UInt8 := s.toList.map fun c => c.toNat.toUInt8

def onDisk (dir : Dir) : Runner.Directory := fun name => (dir (text name)).map bytes

/-- `strconv.Itoa`, as an argument of a program. -/
def argument (x : Int) : List UInt8 := bytes (String.ofList (decimal x))

/-- `exec.Command("runner", ...)`. -/
def runnerArgv (lang : Int) (limits : Int × Int) (workdir : List UInt8) : List (List UInt8) :=
  [Runner.ascii "runner", argument lang, argument limits.1, argument limits.2, workdir]

/-! ## Inputs -/

/-- A submission for this judger, and what the world makes of it. -/
structure Input where
  info : Info
  w : Shared
  sol : Model.Filed info.sid
  limits : Int × Int
  token : matchesToken info.oj = true
  known : w.store.detail info.sid = some sol
  p : Runner.Parameters
  parameters : ∃ workdir,
    Runner.initParameters (runnerArgv sol.val.language limits workdir) = .ok p
  compilation : Compilation
  /-- The directory that `compiler` leaves.  Without a compiler only `ce.txt` is new. -/
  made : Dir
  kept : (∀ status, compilation ≠ .executed status) → ∀ name, name ≠ "ce.txt" →
    made name = ((loaded info sol.val w.tree).init.dir.bind fun dir => dir name)
  /-- What `cp` copies from `dataPath/Vid`. -/
  data : Dir
  /-- The tests in order, and what the processes of each do. -/
  attempts : List Runner.Attempt

namespace Input

variable (i : Input)

def own : Own := loaded i.info i.sol.val i.w.tree

/-- The compiler is reported as failing. -/
def refused : Bool := (i.compilation.state i.p.lang).failed

/-- What the compiler has made of the submission. -/
def image : Option (List UInt8) :=
  match i.compilation with
  | .executed _ => onDisk i.made (Runner.imageName i.p.lang)
  | _ => none

/-- The directory that the runner enters: the test data over what `compiler` has left. -/
def entered : Dir := fun name => (i.data name).or (i.made name)

/-- Every test starts the image of the submission. -/
def Started : Prop :=
  Runner.Along (fun d a => a.Started i.p.lang i.image d) (onDisk i.entered) i.attempts

/-- Every test is passed. -/
def Passed (b : Runner.Build) : Prop :=
  Runner.AllPassed b.recordCall i.p 0 0 (onDisk i.entered) i.attempts

end Input

section Judging

variable (strsignal : Nat → String) (b : Runner.Build)

/-- The programs that the stages call on this input.  The runner prints nothing, or it
reaches its final `printf` after these tests; or it has read past `call_counter`, and
prints anything. -/
structure Observed (i : Input) (progs : Programs) : Prop where
  problem : progs.problem i.info.pid = some i.limits
  compiler : progs.compiler i.own.user.language i.own.init.dir =
    (some i.made, i.compilation.state i.p.lang)
  data : progs.dataPath i.own.user.vid = i.data
  printed : ∀ out,
    out = (progs.runner i.own.user.language i.limits.1 i.limits.2 (some i.entered)).2 →
    out = [] ∨
      (∃ d s, Runner.runAttempts strsignal b i.p (onDisk i.entered) Runner.startProgress
          i.attempts = .ok (d, s) ∧ out = (Runner.report i.p s).print) ∨
      Runner.runAttempts strsignal b i.p (onDisk i.entered) Runner.startProgress i.attempts =
        .error .undefined

/-- `JudgeAC` is stored only if every test has started the image of the submission, and
what was compared is that child's output. -/
def AcceptsOnlyExecuted (i : Input) : Prop :=
  ∀ progs getSim, Observed strsignal b i progs →
    verdict progs getSim i.info i.w = some Judge.AC.code →
      Runner.Along (fun d a => a.Executed strsignal b i.p i.image d) (onDisk i.entered) i.attempts

/-- In the run over the tests the system call check is reached at `o`. -/
abbrev Reaches (i : Input) (o : Runner.Observation) : Prop :=
  Runner.ChecksIn strsignal b i.p (onDisk i.entered) Runner.startProgress i.attempts o

variable {strsignal b} {i : Input} {progs : Programs}

theorem Observed.given (observed : Observed strsignal b i progs) :
    Given progs i.info i.w i.sol i.limits :=
  ⟨i.token, i.known, observed.problem⟩

theorem Observed.compileState (observed : Observed strsignal b i progs) :
    (i.own.compileState progs).failed = i.refused := by
  unfold Own.compileState
  rw [observed.compiler]
  rfl

/-- The tests are accepted exactly when they are passed. -/
theorem accepted_iff :
    (∃ d s, Runner.runAttempts strsignal b i.p (onDisk i.entered) Runner.startProgress
      i.attempts = .ok (d, s) ∧ s.judgeFlag = .AC) ↔ i.Passed b :=
  Runner.runAttempts_accepted_iff strsignal rfl

/-- The stages hand the runner the directory of the input. -/
theorem Observed.output (observed : Observed strsignal b i progs) :
    i.own.output progs i.limits =
      (progs.runner i.own.user.language i.limits.1 i.limits.2 (some i.entered)).2 := by
  unfold Own.output
  rw [observed.compiler, observed.data]
  rfl

/-- What it takes for `JudgeAC` to be stored. -/
theorem Observed.accepted (observed : Observed strsignal b i progs) {getSim : Int × Int}
    (stored : verdict progs getSim i.info i.w = some Judge.AC.code) :
    i.refused = false ∧
      ((∃ o, Reaches strsignal b i o ∧ Runner.callArraySize ≤ o.origRax.toNat) ∨ i.Passed b) := by
  have given := observed.given
  have state := observed.compileState
  cases refused : i.refused with
  | true =>
      rw [refused] at state
      rw [(given.verdict_of_failed getSim state).2] at stored
      exact absurd stored (by decide)
  | false =>
      rw [refused] at state
      refine ⟨rfl, ?_⟩
      rcases observed.printed _ observed.output with silent | ⟨d, s, ran, printed⟩ | undefined
      · rw [(given.verdict_of_silent getSim state silent).2] at stored
        exact absurd stored (by decide)
      · rw [(given.verdict_of_print getSim state printed).2] at stored
        have flag : (Runner.report i.p s).judgeFlag = .AC :=
          Judge.eq_of_code (Option.some.inj stored)
        unfold Runner.report at flag
        dsimp only at flag
        split at flag
        · cases flag
        · exact Or.inr (accepted_iff.1 ⟨d, s, ran, flag⟩)
      · exact Or.inl ((Runner.runAttempts_undefined_iff ..).1 undefined)

/-- The compiler of the input, and a runner that prints this. -/
def programs (i : Input) (out : List Char) : Programs :=
  { Dispatch.Sample.programs (i.compilation.state i.p.lang) out with
    compiler := fun _ _ => (some i.made, i.compilation.state i.p.lang)
    dataPath := fun _ => i.data
    problem := fun _ => some i.limits }

/-- What can be printed is what can be stored. -/
theorem stored_of_print (compiled : i.refused = false) {r : Runner.Report}
    (observed : Observed strsignal b i (programs i r.print)) :
    verdict (programs i r.print) (0, 0) i.info i.w = some r.judgeFlag.code := by
  have state := observed.compileState
  rw [compiled] at state
  exact (observed.given.verdict_of_print (0, 0) state observed.output).2

variable (strsignal b) in
/-- Tests that are passed, and runs past the table, may be stored as accepted. -/
theorem exists_observed (compiled : i.refused = false) (some_ : i.attempts ≠ [])
    (may : (∃ o, Reaches strsignal b i o ∧ Runner.callArraySize ≤ o.origRax.toNat) ∨ i.Passed b) :
    ∃ progs, Observed strsignal b i progs ∧
      verdict progs (0, 0) i.info i.w = some Judge.AC.code := by
  rcases may with past | passed
  · have undefined := (Runner.runAttempts_undefined_iff ..).2 past
    let r : Runner.Report := ⟨.AC, 0, 0⟩
    have observed : Observed strsignal b i (programs i r.print) :=
      ⟨rfl, rfl, rfl, fun _ _ => Or.inr (Or.inr undefined)⟩
    exact ⟨_, observed, stored_of_print compiled observed⟩
  · obtain ⟨d, s, ran, accepted⟩ := (@accepted_iff strsignal b i).2 passed
    have counted := Runner.runAttempts_counted rfl some_ ran
    have flag : (Runner.report i.p s).judgeFlag = .AC := by
      simp only [Runner.report, if_neg counted, accepted]
    have observed : Observed strsignal b i (programs i (Runner.report i.p s).print) :=
      ⟨rfl, rfl, rfl, fun _ printed => Or.inr (Or.inl ⟨d, s, ran, printed⟩)⟩
    refine ⟨_, observed, ?_⟩
    rw [stored_of_print compiled observed, flag]

/-- Where `JudgeAC` may be stored, every test has to start the image. -/
theorem AcceptsOnlyExecuted.started (only : AcceptsOnlyExecuted strsignal b i)
    (compiled : i.refused = false)
    (may : (∃ o, Reaches strsignal b i o ∧ Runner.callArraySize ≤ o.origRax.toNat) ∨ i.Passed b) :
    i.Started := by
  by_cases some_ : i.attempts = []
  · unfold Input.Started
    rw [some_]
    trivial
  · obtain ⟨progs, observed, stored⟩ := exists_observed strsignal b compiled some_ may
    have executed := only progs (0, 0) observed stored
    exact executed.imp fun _ _ => Runner.Attempt.Executed.started

end Judging

/-! ## Another program, or none -/

namespace Sample

/-- The answer of a test is empty. -/
def emptyTest : Dir := fun name => if name = "a.in" ∨ name = "a.out" then some "" else none

def files : Runner.TestFiles := ⟨[97, 46, 105, 110], [97, 46, 111, 117, 116], Runner.userOutName⟩

theorem prepared : ∃ dName, Runner.prepareFiles dName = .fellOff files :=
  ⟨[97, 46, 105, 110], rfl⟩

/-- The source, and an empty `ce.txt`. -/
def uncompiled : Dir := fun name =>
  if name = "ce.txt" then some "" else if name = "Main.c" then some "" else none

theorem kept (name : String) (other : name ≠ "ce.txt") :
    uncompiled name =
      ((loaded Dispatch.Sample.info (Dispatch.Sample.record 1).val
        Dispatch.Sample.shared.tree).init.dir.bind fun dir => dir name) := by
  by_cases source : name = "Main.c"
  · subst source
    decide
  · simp [uncompiled, other, source, Own.init, loaded, Dispatch.files, codefilename,
      Dispatch.Sample.record, Dispatch.Sample.shared, langC]

/-- `gcc` is not there, so neither is `./Main`. -/
def unexecuted : Input :=
  { info := Dispatch.Sample.info
    w := Dispatch.Sample.shared
    sol := Dispatch.Sample.record 1
    limits := (1, 8192)
    token := rfl
    known := rfl
    p := Runner.Sample.parameters
    parameters := ⟨[], rfl⟩
    compilation := .notExecuted
    made := uncompiled
    kept := fun _ => kept
    data := emptyTest
    attempts := [⟨files, .notExecuted ⟨⟨0, 0⟩, ⟨0, 0⟩, 0⟩ 0, prepared⟩] }

/-- The test data has a `Main` of its own, which prints nothing. -/
def replaced : Input :=
  { unexecuted with
    compilation := .executed 0
    made := fun name => if name = "Main" then some "compiled" else uncompiled name
    kept := fun never => absurd rfl (never 0)
    data := fun name => if name = "Main" then some "another" else emptyTest name
    attempts := [⟨files, .started [Runner.silentExit ⟨⟨0, 0⟩, ⟨0, 0⟩, 0⟩ 0], prepared⟩] }

/-- A child that exits at once and leaves `user.out` empty passes the test. -/
theorem passed_of_silent {i : Input} {a : Runner.Attempt}
    (single : i.attempts = [a]) (limits : i.p = Runner.Sample.parameters)
    (silent : a.child.deeds = [Runner.silentExit ⟨⟨0, 0⟩, ⟨0, 0⟩, 0⟩ 0])
    (compared : Runner.compare (a.leaves (onDisk i.entered) a.files.outfile)
      (a.leaves (onDisk i.entered) a.files.userfile) = some .AC) :
    i.Passed Runner.Sample.build := by
  unfold Input.Passed
  rw [single, limits]
  refine .cons ⟨⟨[], _, [], silent, eachAfter_nil, ?_, rfl, rfl⟩, compared⟩ .nil
  have nothing : ∀ o : Runner.Observation, o.ruse = ⟨⟨0, 0⟩, ⟨0, 0⟩, 0⟩ → o.vmPeak = 0 →
      Runner.tempmemory Runner.Sample.parameters.lang o = 0 := by
    intro o ruse peak
    simp [Runner.tempmemory, Runner.getPageFaultMem, ruse, peak, int32]
  constructor
  · rw [nothing _ rfl rfl]
    show max (0 : Int) 0 ≤ Runner.Sample.parameters.memoryLimit
    decide
  · show Runner.chargeTime 0 ⟨⟨0, 0⟩, ⟨0, 0⟩, 0⟩ < Runner.Sample.parameters.timeLimit
    decide
  · rfl

end Sample

/-- And where another program than the submission's is. -/
theorem replaced_sample :
    ¬ AcceptsOnlyExecuted (fun _ => "") Runner.Sample.build Sample.replaced := by
  intro only
  have passed : Sample.replaced.Passed Runner.Sample.build :=
    Sample.passed_of_silent rfl rfl rfl (by decide)
  obtain ⟨⟨-, bytes, image, there⟩, -⟩ := only.started (by decide) (Or.inr passed)
  rw [← image] at there
  exact absurd there (by decide)

end RunServer.Dispatch.Execution
