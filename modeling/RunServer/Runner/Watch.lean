/-
# Runner.Watch -- watching the child

`watch_solution` waits for the child, and after each report of `wait4` charges
memory and time, looks at the files in the work directory and at the reason of the
stop, checks the system call, and lets the child go on.  One report with what the
parent reads after it is an `Observation`; one pass of the loop is `iteration`, a
turn of `Theory.Loop`.

`call_counter` is read at an index the child chooses.  An index past its 512
entries is an access the language gives no meaning to, so the pass ends in
`outOfBounds` there and nothing is said about the run after it.
-/
import RunServer.Theory.Loop
import RunServer.Runner.OkCalls
import RunServer.Runner.Parameters

namespace RunServer.Runner

open RunServer.Theory
open RunServer.Theory.Loop

set_option autoImplicit false

/-! ## What the kernel reports -/

structure Timeval where
  sec : Nat
  usec : Nat
  deriving DecidableEq, Repr

/-- `tv_sec * 1000 + tv_usec / 1000`. -/
def Timeval.ms (t : Timeval) : Nat := t.sec * 1000 + t.usec / 1000

structure Rusage where
  utime : Timeval
  stime : Timeval
  minflt : Nat
  deriving DecidableEq, Repr

def Rusage.ms (r : Rusage) : Nat := r.utime.ms + r.stime.ms

def wifexited (status : Nat) : Bool := status % 128 = 0
def wexitstatus (status : Nat) : Nat := status / 256 % 256
def wtermsig (status : Nat) : Nat := status % 128
/-- The low seven bits are neither 0 (exited) nor 127 (stopped). -/
def wifsignaled (status : Nat) : Bool := status % 128 ≠ 0 && status % 128 ≠ 127

def sigTrap : Nat := 5
def sigKill : Nat := 9
def sigAlrm : Nat := 14
def sigChld : Nat := 17
def sigXcpu : Nat := 24
def sigXfsz : Nat := 25

/-- One report of `wait4`, and what the parent reads before it lets the child go on. -/
structure Observation where
  status : Nat
  ruse : Rusage
  /-- `get_proc_status(pidApp, "VmPeak:")`, in kB; 0 where it cannot be read. -/
  vmPeak : Int
  /-- `get_file_size` of `error.out`, of `userfile` and of `outfile`. -/
  errorOut : Nat
  userOut : Nat
  answer : Nat
  /-- `reg.REG_SYSCALL`. -/
  origRax : UInt64
  deriving DecidableEq, Repr

/-! ## The variables of the loop -/

/-- What is appended to `error.out`. -/
inductive RuntimeError where
  | signal (sig : Nat)
  | notAllowed (callid : UInt64)
  deriving DecidableEq, Repr

/-- What one pass asks of the kernel and of `error.out`, in order. -/
inductive Request where
  | ptraceKill
  | ptraceGetregs
  | ptraceSyscall
  | alarm (seconds : Nat)
  | printRuntimeerror (err : RuntimeError)
  deriving DecidableEq, Repr

structure Watch where
  judgeFlag : Judge
  topmemory : Int
  /-- `sub`: which of the two stops of a system call comes next. -/
  sub : Nat
  callCounter : CallCounter
  /-- The requests of the last pass. -/
  requests : List Request

inductive Undefined where
  | outOfBounds (index : UInt64)
  deriving DecidableEq, Repr

def getpagesize : Int := 4096

def getPageFaultMem (ruse : Rusage) : Int := int32 (ruse.minflt * getpagesize)

/-- Java asks for memory it does not use, so it is charged by page faults. -/
def tempmemory (lang : Int) (o : Observation) : Int :=
  if lang = langJava then getPageFaultMem o.ruse
  else
    let peak := int32 (o.vmPeak * 2 ^ 10)
    if peak = 0 then getPageFaultMem o.ruse else peak

/-- `usedtime` and `tmptime` are both brought up to date by adding the user time
and then the system time, each stored in an `int`. -/
def chargeTime (usedtime : Int) (ruse : Rusage) : Int :=
  int32 (int32 (usedtime + ruse.utime.ms) + ruse.stime.ms)

/-- The `switch` over a stop code or a terminating signal. -/
def signalVerdict (sig : Nat) : Judge :=
  if sig = sigChld ∨ sig = sigAlrm ∨ sig = sigKill ∨ sig = sigXcpu then .TLE
  else if sig = sigXfsz then .OLE
  else .RE

/-- The first two cases of that `switch` also cancel the parent's alarm. -/
def signalAlarm (sig : Nat) : List Request :=
  if sig = sigChld ∨ sig = sigAlrm then [.alarm 0] else []

/-- A stop after which the child may go on: no code, `SIGTRAP`, or `SIGCHLD` for Java. -/
def goesOn (lang : Int) (exitcode : Nat) : Bool :=
  (lang = langJava && exitcode = sigChld) || exitcode = sigTrap || exitcode = 0

/-! ## One pass -/

/-- "Check the system calls." -/
def checkSyscall (recordCall : Bool) (callid : UInt64) (w : Watch) :
    Except Undefined (Turn Watch) :=
  if inside : callid.toNat < callArraySize then
    let index : Fin callArraySize := ⟨callid.toNat, inside⟩
    if !recordCall && w.callCounter index = 0 then
      -- no `break` here: the child is killed, and the loop goes round once more
      .ok (.again
        { w with
          judgeFlag := .RE
          sub := 1 - w.sub
          requests := [.ptraceGetregs, .printRuntimeerror (.notAllowed callid), .ptraceKill,
            .ptraceSyscall] })
    else
      let callCounter :=
        if recordCall then Function.update w.callCounter index 1
        else if w.sub = 1 ∧ w.callCounter index > 0 then
          Function.update w.callCounter index (w.callCounter index - 1)
        else w.callCounter
      .ok (.again
        { w with
          sub := 1 - w.sub
          callCounter
          requests := [.ptraceGetregs, .ptraceSyscall] })
  else .error (.outOfBounds callid)

def iteration (recordCall : Bool) (p : Parameters) (usedtime : Int) (w : Watch)
    (o : Observation) : Except Undefined (Turn Watch) :=
  let w := { w with topmemory := max w.topmemory (tempmemory p.lang o) }
  if w.topmemory > p.memoryLimit then
    .ok (.leave { w with judgeFlag := .MLE, requests := [.ptraceKill] })
  else if chargeTime usedtime o.ruse ≥ p.timeLimit then
    .ok (.leave { w with judgeFlag := .TLE, requests := [.ptraceKill] })
  else if wifexited o.status then
    .ok (.leave { w with requests := [] })
  else if o.errorOut ≠ 0 then
    .ok (.leave { w with judgeFlag := .RE, requests := [.ptraceKill] })
  else if o.userOut > o.answer * 2 + 1024 then
    .ok (.leave { w with judgeFlag := .OLE, requests := [.ptraceKill] })
  else if !goesOn p.lang (wexitstatus o.status) then
    .ok (.leave
      { w with
        judgeFlag := signalVerdict (wexitstatus o.status)
        requests := signalAlarm (wexitstatus o.status) ++
          [.printRuntimeerror (.signal (wexitstatus o.status)), .ptraceKill] })
  else if wifsignaled o.status then
    .ok (.leave
      { w with
        judgeFlag := signalVerdict (wtermsig o.status)
        requests := signalAlarm (wtermsig o.status) ++
          [.printRuntimeerror (.signal (wtermsig o.status))] })
  else checkSyscall recordCall o.origRax w

/-! ## What one pass can do -/

/-- Everything looked at before the system call check lets the report through. -/
structure Passable (p : Parameters) (usedtime topmemory : Int) (o : Observation) : Prop where
  memory : max topmemory (tempmemory p.lang o) ≤ p.memoryLimit
  time : chargeTime usedtime o.ruse < p.timeLimit
  running : wifexited o.status = false
  error : o.errorOut = 0
  output : o.userOut ≤ o.answer * 2 + 1024
  stopCode : goesOn p.lang (wexitstatus o.status) = true
  signal : wifsignaled o.status = false

/-- The child has ended by itself, within both limits. -/
structure Exits (p : Parameters) (usedtime topmemory : Int) (o : Observation) : Prop where
  memory : max topmemory (tempmemory p.lang o) ≤ p.memoryLimit
  time : chargeTime usedtime o.ruse < p.timeLimit
  exited : wifexited o.status = true

/-- The verdicts `watch_solution` gives against a program. -/
def Blamed (j : Judge) : Prop := j = .TLE ∨ j = .MLE ∨ j = .RE ∨ j = .OLE

instance (j : Judge) : Decidable (Blamed j) := by unfold Blamed; infer_instance

theorem Blamed.ne_AC {j : Judge} (blamed : Blamed j) : j ≠ .AC := by
  rintro rfl
  revert blamed
  decide

theorem signalVerdict_blamed (sig : Nat) : Blamed (signalVerdict sig) := by
  unfold signalVerdict
  split
  · decide
  · split <;> decide

section Pass

variable {recordCall : Bool} {p : Parameters} {usedtime : Int} {w : Watch} {o : Observation}

theorem iteration_of_passable (pass : Passable p usedtime w.topmemory o) :
    iteration recordCall p usedtime w o =
      checkSyscall recordCall o.origRax
        { w with topmemory := max w.topmemory (tempmemory p.lang o) } := by
  have memory := pass.memory
  have time := pass.time
  have output := pass.output
  unfold iteration
  simp only [gt_iff_lt, ge_iff_le, not_lt.2 memory, not_le.2 time, not_lt.2 output, pass.running,
    pass.error, pass.stopCode, pass.signal, if_false, ne_eq, not_true_eq_false, Bool.not_true,
    Bool.false_eq_true]

theorem iteration_of_exits (exits : Exits p usedtime w.topmemory o) :
    iteration recordCall p usedtime w o =
      .ok (.leave
        { w with topmemory := max w.topmemory (tempmemory p.lang o), requests := [] }) := by
  have memory := exits.memory
  have time := exits.time
  unfold iteration
  simp only [gt_iff_lt, ge_iff_le, not_lt.2 memory, not_le.2 time, exits.exited, if_false, if_true]

/-- A report that is neither let through nor an exit within the limits ends the
loop with a verdict against the program. -/
theorem iteration_otherwise (blocked : ¬ Passable p usedtime w.topmemory o)
    (stays : ¬ Exits p usedtime w.topmemory o) :
    ∃ judgeFlag requests, Blamed judgeFlag ∧ iteration recordCall p usedtime w o =
      .ok (.leave
        { w with
          judgeFlag, requests, topmemory := max w.topmemory (tempmemory p.lang o) }) := by
  unfold iteration
  dsimp only
  split
  · exact ⟨.MLE, _, by decide, rfl⟩
  rename_i memory
  split
  · exact ⟨.TLE, _, by decide, rfl⟩
  rename_i time
  split
  · rename_i exited
    exact absurd ⟨not_lt.1 memory, not_le.1 time, exited⟩ stays
  rename_i running
  split
  · exact ⟨.RE, _, by decide, rfl⟩
  rename_i error
  split
  · exact ⟨.OLE, _, by decide, rfl⟩
  rename_i output
  split
  · exact ⟨_, _, signalVerdict_blamed _, rfl⟩
  rename_i stopCode
  split
  · exact ⟨_, _, signalVerdict_blamed _, rfl⟩
  rename_i signal
  refine absurd ⟨not_lt.1 memory, not_le.1 time, ?_, ?_, not_lt.1 output, ?_, ?_⟩ blocked
  · simpa using running
  · simpa using error
  · simpa using stopCode
  · simpa using signal

/-- **The three ends of a pass.** -/
theorem iteration_cases (recordCall : Bool) (p : Parameters) (usedtime : Int) (w : Watch)
    (o : Observation) :
    (Passable p usedtime w.topmemory o ∧
      iteration recordCall p usedtime w o =
        checkSyscall recordCall o.origRax
          { w with topmemory := max w.topmemory (tempmemory p.lang o) }) ∨
    (Exits p usedtime w.topmemory o ∧
      iteration recordCall p usedtime w o =
        .ok (.leave
          { w with topmemory := max w.topmemory (tempmemory p.lang o), requests := [] })) ∨
    ∃ judgeFlag requests, Blamed judgeFlag ∧ iteration recordCall p usedtime w o =
      .ok (.leave
        { w with
          judgeFlag, requests, topmemory := max w.topmemory (tempmemory p.lang o) }) := by
  by_cases pass : Passable p usedtime w.topmemory o
  · exact Or.inl ⟨pass, iteration_of_passable pass⟩
  · by_cases exits : Exits p usedtime w.topmemory o
    · exact Or.inr (Or.inl ⟨exits, iteration_of_exits exits⟩)
    · exact Or.inr (Or.inr (iteration_otherwise pass exits))

end Pass

/-- The system call check asks for another turn, or reads past the table. -/
theorem checkSyscall_cases (recordCall : Bool) (callid : UInt64) (w : Watch) :
    (∃ judgeFlag callCounter requests, (judgeFlag = w.judgeFlag ∨ judgeFlag = .RE) ∧
      checkSyscall recordCall callid w =
        .ok (.again { w with judgeFlag, callCounter, requests, sub := 1 - w.sub })) ∨
      (callArraySize ≤ callid.toNat ∧
        checkSyscall recordCall callid w = .error (.outOfBounds callid)) := by
  unfold checkSyscall
  split
  · dsimp only
    split
    · exact Or.inl ⟨.RE, w.callCounter, _, Or.inr rfl, rfl⟩
    · exact Or.inl ⟨w.judgeFlag, _, _, Or.inl rfl, rfl⟩
  · rename_i outside
    exact Or.inr ⟨not_lt.1 outside, rfl⟩

section Leave

variable {recordCall : Bool} {p : Parameters} {usedtime : Int} {w w' : Watch} {o : Observation}

theorem checkSyscall_ne_leave (callid : UInt64) :
    checkSyscall recordCall callid w ≠ .ok (.leave w') := by
  intro leaves
  rcases checkSyscall_cases recordCall callid w with ⟨_, _, _, -, again⟩ | ⟨-, failed⟩
  · rw [again] at leaves; cases leaves
  · rw [failed] at leaves; cases leaves

/-- What a pass that leaves the loop leaves behind: memory over the limit is `JudgeMLE`
and nothing else is, and the child is not resumed. -/
structure LeftBy (p : Parameters) (w : Watch) (o : Observation) (w' : Watch) : Prop where
  topmemory : w'.topmemory = max w.topmemory (tempmemory p.lang o)
  memory : p.memoryLimit < w'.topmemory → w'.judgeFlag = .MLE
  flag : w'.judgeFlag = .MLE → p.memoryLimit < w'.topmemory ∨ w.judgeFlag = .MLE
  notResumed : .ptraceSyscall ∉ w'.requests

theorem signalVerdict_ne_MLE (sig : Nat) : signalVerdict sig ≠ .MLE := by
  unfold signalVerdict
  split
  · decide
  · split <;> decide

theorem ptraceSyscall_not_mem_signalAlarm (sig : Nat) : .ptraceSyscall ∉ signalAlarm sig := by
  unfold signalAlarm
  split
  · simp
  · simp

/-- Within the limit, no way out gives `JudgeMLE`. -/
theorem LeftBy.of_within (within : ¬ p.memoryLimit < max w.topmemory (tempmemory p.lang o))
    (topmemory : w'.topmemory = max w.topmemory (tempmemory p.lang o))
    (flag : w'.judgeFlag = .MLE → w.judgeFlag = .MLE) (notResumed : .ptraceSyscall ∉ w'.requests) :
    LeftBy p w o w' := by
  refine ⟨topmemory, fun exceeded => ?_, fun mle => Or.inr (flag mle), notResumed⟩
  rw [topmemory] at exceeded
  exact absurd exceeded within

/-- **What a pass that leaves the loop says.** -/
theorem leftBy_of_leave (leaves : iteration recordCall p usedtime w o = .ok (.leave w')) :
    LeftBy p w o w' := by
  simp only [iteration] at leaves
  split at leaves
  · rename_i exceeded
    cases leaves
    exact ⟨rfl, fun _ => rfl, fun _ => Or.inl exceeded, by simp⟩
  rename_i within
  split at leaves
  · cases leaves
    exact .of_within within rfl (by simp) (by simp)
  split at leaves
  · cases leaves
    exact .of_within within rfl id (by simp)
  split at leaves
  · cases leaves
    exact .of_within within rfl (by simp) (by simp)
  split at leaves
  · cases leaves
    exact .of_within within rfl (by simp) (by simp)
  split at leaves
  · cases leaves
    exact .of_within within rfl (by simp [signalVerdict_ne_MLE])
      (by simp [ptraceSyscall_not_mem_signalAlarm])
  split at leaves
  · cases leaves
    exact .of_within within rfl (by simp [signalVerdict_ne_MLE])
      (by simp [ptraceSyscall_not_mem_signalAlarm])
  · exact absurd leaves (checkSyscall_ne_leave o.origRax)

end Leave

/-! ## The whole loop -/

/-- Why there is no result: an undefined access, or more to come than was observed. -/
inductive Stuck where
  | undefined
  | unfinished
  deriving DecidableEq, Repr

/-- `judge_flag` is `JudgeAC` whenever `watch_solution` is called. -/
def startWatch (topmemory : Int) (callCounter : CallCounter) : Watch :=
  { judgeFlag := .AC, topmemory, sub := 0, callCounter, requests := [] }

/-- `watch_solution`: the variables it leaves, and the new `usedtime`. -/
def watchSolution (recordCall : Bool) (p : Parameters) (usedtime topmemory : Int)
    (callCounter : CallCounter) (observations : List Observation) : Except Stuck (Watch × Int) :=
  match drive (iteration recordCall p usedtime) (startWatch topmemory callCounter) observations with
  | .left w last => .ok (w, chargeTime usedtime last.ruse)
  | .waiting _ => .error .unfinished
  | .failed _ => .error .undefined

/-- A watch that has a result has left its loop with it. -/
theorem watchSolution_left {recordCall : Bool} {p : Parameters} {usedtime topmemory : Int}
    {table : CallCounter} {observations : List Observation} {w : Watch} {used : Int}
    (watched : watchSolution recordCall p usedtime topmemory table observations = .ok (w, used)) :
    ∃ last, drive (iteration recordCall p usedtime) (startWatch topmemory table) observations =
      .left w last ∧ used = chargeTime usedtime last.ruse := by
  unfold watchSolution at watched
  split at watched
  · rename_i w' last left
    cases watched
    exact ⟨last, left, rfl⟩
  · cases watched
  · cases watched

end RunServer.Runner
