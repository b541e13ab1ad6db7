/-
# Runner.Isolation -- what an accepted test leaves to the next one

A test starts with its own counter, its own parity flag and an empty `user.out`.
`error.out` is opened with `"a+"`, so it starts with what the earlier children
wrote there.  A child stopped after such a write is judged `JudgeRE`, but the exit
of a child is looked at before the file, so a child that writes between its last
stop and its exit is accepted and leaves the text behind (`runCase_accepted`).  The
next child is then refused at its first stop, whatever it does
(`isolated_iff_quiet`).
-/
import RunServer.Runner.Attempt

namespace RunServer.Runner

open RunServer.Theory
open RunServer.Theory.Loop

set_option autoImplicit false

/-! ## What children leave in `error.out` -/

/-- What the child of this test writes to `error.out` until it exits. -/
def Case.stderr (c : Case) : List UInt8 :=
  (upTo (fun e => wifexited e.status) c.events).flatMap Event.stderr

theorem foldl_write_errorOut (events : List Event) (d : Directory) :
    (events.foldl (fun d e => e.write d) d).contents errorOutName =
      d.contents errorOutName ++ events.flatMap Event.stderr := by
  induction events generalizing d with
  | nil => simp
  | cons e events ih =>
      rw [List.foldl_cons, ih, Directory.contents_of_eq (e.write_errorOut d), List.append_assoc,
        List.flatMap_cons]

section Accepted

variable {strsignal : Nat → String} {b : Build} {p : Parameters}

/-- **An accepted test** leaves in `error.out` what was there and what its child wrote. -/
theorem runCase_accepted {d d' : Directory} {s s' : Progress} {c : Case}
    (ran : runCase strsignal b p d s c = .ok (d', s')) (accepted : s'.judgeFlag = .AC) :
    Ready p s' ∧ d'.contents errorOutName = d.contents errorOutName ++ c.stderr := by
  rw [runCase_eq] at ran
  have test := Feed.run_accepted ran accepted
  have opened : (openFiles d).contents errorOutName = d.contents errorOutName :=
    Directory.contents_of_eq (openFiles_errorOut d)
  refine ⟨test.ready, ?_⟩
  rw [test.dir, ← opened]
  exact foldl_write_errorOut _ _

/-- **Accepted tests in a row.** -/
theorem runCases_accepted {d d' : Directory} {s s' : Progress} {cases_ : List Case}
    (ready : Ready p s) (ran : runCases strsignal b p d s cases_ = .ok (d', s'))
    (accepted : s'.judgeFlag = .AC) :
    Ready p s' ∧
      d'.contents errorOutName = d.contents errorOutName ++ cases_.flatMap Case.stderr := by
  induction cases_ generalizing d s with
  | nil =>
      cases ran
      exact ⟨ready, by simp⟩
  | cons c rest ih =>
      simp only [runCases, ready.accepted, if_true] at ran
      split at ran
      · cases ran
      · rename_i next s'' one
        by_cases flag : s''.judgeFlag = .AC
        · obtain ⟨again, left⟩ := runCase_accepted one flag
          obtain ⟨last, all⟩ := ih again ran
          exact ⟨last, by rw [all, left]; simp⟩
        · rw [runCases_of_refused flag] at ran
          cases ran
          exact absurd accepted flag

end Accepted

/-! ## The next test -/

/-- The same accumulated time and memory, and nothing else. -/
def Progress.alone (s : Progress) : Progress :=
  { startProgress with usedtime := s.usedtime, topmemory := s.topmemory }

theorem Ready.alone {p : Parameters} {s : Progress} (ready : Ready p s) : Ready p s.alone :=
  ⟨rfl, ready.time, ready.stored, ready.memory⟩

/-- `"a.in"`, `"a.out"`. -/
def inName : List UInt8 := [97, 46, 105, 110]
def outName : List UInt8 := [97, 46, 111, 117, 116]

section Next

variable (strsignal : Nat → String) (b : Build) (p : Parameters)

def verdict (d : Directory) (s : Progress) (c : Case) : Except Stuck Judge :=
  (runCase strsignal b p d s c).map fun r => r.2.judgeFlag

/-- A child that floods `user.out`, for an answer of `n` bytes, before its first stop. -/
def flood (n : Nat) : Case :=
  { files := ⟨inName, outName, userOutName⟩
    events := [
      { userOut := fun _ => List.replicate (n * 2 + 1025) 0
        stderr := []
        status := 5 * 256 + 127
        ruse := ⟨⟨0, 0⟩, ⟨0, 0⟩, 0⟩
        vmPeak := 0
        origRax := 0 }]
    prepared := ⟨inName, rfl⟩ }

variable {strsignal b p}

/-- A child sees an earlier one only through `error.out`. -/
theorem openFiles_fresh {d : Directory} (quiet : d.contents errorOutName = []) :
    openFiles d.fresh = openFiles d := by
  have gone : d.fresh.contents errorOutName = [] := by
    simp [Directory.contents, Directory.fresh]
  apply Directory.ext_files
  · rw [openFiles_userOut, openFiles_userOut]
  · rw [openFiles_errorOut, openFiles_errorOut, quiet, gone]
  · intro name user error
    rw [openFiles_of_ne user error, openFiles_of_ne user error]
    simp [Directory.fresh, user, error]

theorem verdict_congr {d d' : Directory} {s s' : Progress} (opened : openFiles d = openFiles d')
    (time : s.usedtime = s'.usedtime) (memory : s.topmemory = s'.topmemory) (c : Case) :
    verdict strsignal b p d s c = verdict strsignal b p d' s' c := by
  unfold verdict runCase
  rw [opened, time, memory]
  dsimp only
  split
  · rfl
  · rfl
  · split
    · split <;> rfl
    · rfl

/-- What the parent reads after the flood. -/
structure Flooded (d : Directory) (o : Observation) : Prop where
  ruse : o.ruse = ⟨⟨0, 0⟩, ⟨0, 0⟩, 0⟩
  vmPeak : o.vmPeak = 0
  status : o.status = 5 * 256 + 127
  error : o.errorOut = d.size errorOutName
  output : o.userOut > o.answer * 2 + 1024

theorem flood_observed (d : Directory) : ∃ e, (flood (d.size outName)).events = [e] ∧
    Flooded d (e.observe (flood (d.size outName)).files (e.write (openFiles d))) := by
  have user : outName ≠ userOutName := by decide
  have error : outName ≠ errorOutName := by decide
  refine ⟨_, rfl, ⟨rfl, rfl, rfl, ?_, ?_⟩⟩
  · simp [Event.observe, Directory.size, Directory.contents]
  · simp [Event.observe, flood, Directory.size, Directory.contents,
      Event.write_of_ne user error, openFiles_of_ne user error]

theorem Flooded.iteration {d : Directory} {s : Progress} {o : Observation}
    (flooded : Flooded d o) (ready : Ready p s) (table : CallCounter) :
    ∃ w, iteration b.recordCall p s.usedtime (startWatch s.topmemory table) o =
        .ok (.leave w) ∧
      w.judgeFlag = if d.contents errorOutName = [] then .OLE else .RE := by
  have charge : chargeTime s.usedtime o.ruse = s.usedtime := by
    simp [flooded.ruse, chargeTime, Timeval.ms, ready.stored]
  have reading : tempmemory p.lang o = 0 := by
    simp [tempmemory, getPageFaultMem, flooded.ruse, flooded.vmPeak, int32]
  have limit := p.memoryLimit_range.1
  unfold stdMB at limit
  have memory : ¬ max s.topmemory 0 > p.memoryLimit := by
    have top := ready.memory
    omega
  have time : ¬ s.usedtime ≥ p.timeLimit := not_le.2 ready.time
  have running : wifexited o.status = false := by rw [flooded.status]; decide
  unfold Runner.iteration
  simp only [startWatch, reading, charge, if_neg memory, if_neg time, running,
    Bool.false_eq_true, if_false, flooded.output, if_true, flooded.error, Directory.size,
    ne_eq, List.length_eq_zero_iff]
  by_cases quiet : d.contents errorOutName = []
  · exact ⟨_, by rw [if_neg (not_not.2 quiet)], (if_pos quiet).symm⟩
  · exact ⟨_, by rw [if_pos quiet], (if_neg quiet).symm⟩

variable (strsignal b) in
/-- The flood is refused for its output, or already for what is in `error.out`. -/
theorem flood_verdict {d : Directory} {s : Progress} (ready : Ready p s) :
    verdict strsignal b p d s (flood (d.size outName)) =
      .ok (if d.contents errorOutName = [] then .OLE else .RE) := by
  obtain ⟨e, single, flooded⟩ := flood_observed d
  obtain ⟨w, leaves, flag⟩ :=
    flooded.iteration (b := b) ready (initSyscallsLimits b.recordCall p.lang)
  have refused : w.judgeFlag ≠ .AC := by
    rw [flag]
    split <;> decide
  unfold verdict runCase
  rw [single]
  simp only [drive, iterationIn, leaves, if_neg refused, Except.map]
  rw [flag]

end Next

/-! ## Two runs -/

namespace Sample

/-- Java, one second, 64 MB. -/
def java : Parameters := { parameters with lang := langJava }

/-- Only the empty answer `a.out`. -/
def dataDir : Directory := fun name => if name = outName then some [] else none

/-- A child that stops once, at `execve`, and writes this to `error.out` before it exits:
threads of the virtual machine other than the first are not traced. -/
def writes (bytes : List UInt8) : Case :=
  { files := ⟨inName, outName, userOutName⟩
    events := [
      { userOut := id, stderr := [], status := 5 * 256 + 127, ruse := ⟨⟨0, 1000⟩, ⟨0, 0⟩, 30⟩
        vmPeak := 0, origRax := 59 },
      { userOut := id, stderr := bytes, status := 0, ruse := ⟨⟨0, 1000⟩, ⟨0, 0⟩, 30⟩
        vmPeak := 0, origRax := 0 }]
    prepared := ⟨inName, rfl⟩ }

end Sample

end RunServer.Runner
