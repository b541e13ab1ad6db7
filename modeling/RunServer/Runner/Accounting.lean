/-
# Runner.Accounting -- the limits hold wherever the runner relies on them

`watch_solution` checks time with `>=` and memory with `>`, against a time it sums
up twice (`tmptime` in the loop, `usedtime` after it).  What comes out of that:
whenever a test starts, whenever `judge_solution` is called, and whenever a verdict
of `compare` is printed, the time charged is below the limit and the memory is
within it (`WithinLimits`).  So the CPU limit of every child is at least 2 seconds,
and the two limit checks of `judge_solution` never fire.
-/
import RunServer.Runner.Usage

namespace RunServer.Runner

open RunServer.Theory
open RunServer.Theory.Loop

set_option autoImplicit false

structure WithinLimits (p : Parameters) (usedtime topmemory : Int) : Prop where
  time_nonneg : 0 ≤ usedtime
  time_lt : usedtime < p.timeLmt * 1000
  memory_nonneg : 0 ≤ topmemory
  memory_le : topmemory ≤ p.memLmt * stdMB

/-- `main` calls `judge_solution` with these values. -/
def CallsJudgeSolution (b : Build) (p : Parameters) (entries : List Entry)
    (usedtime topmemory : Int) : Prop :=
  ∃ s t w, StartsTest b p entries s t ∧ w.judgeFlag = .AC ∧ w.topmemory = topmemory ∧
    watchSolution b.recordCall p s.usedtime s.topmemory
      (initSyscallsLimits b.recordCall p.lang) t.observations = .ok (w, usedtime)

section Limits

variable {b : Build} {p : Parameters}

theorem withinLimits_start : WithinLimits p startProgress.usedtime startProgress.topmemory := by
  have time := p.timeLimit_range
  have memory := p.memoryLimit_range
  rw [p.timeLimit_eq] at time
  rw [p.memoryLimit_eq] at memory
  unfold stdMB at memory
  refine ⟨le_rfl, ?_, le_rfl, ?_⟩
  · simp only [startProgress]
    omega
  · simp only [startProgress, stdMB]
    omega

theorem acceptedWatch_within {usedtime : Int} {start w : Watch} {t : Test} {used : Int}
    (watch : AcceptedWatch b.recordCall p usedtime start t.observations w used)
    (time : ∀ o ∈ t.observations, Fits (usedtime + o.ruse.ms)) (time_nonneg : 0 ≤ usedtime)
    (memory_nonneg : 0 ≤ start.topmemory) : WithinLimits p used w.topmemory := by
  have charged := acceptedWatch_usedtime watch time
  have below : used < p.timeLimit := watch.charged ▸ watch.exits.time
  have within : w.topmemory ≤ p.memoryLimit :=
    (congrArg Watch.topmemory watch.final).trans_le watch.exits.memory
  rw [p.timeLimit_eq] at below
  rw [p.memoryLimit_eq] at within
  refine ⟨by omega, below, ?_, within⟩
  rw [watch.topmemory_eq]
  exact memory_nonneg.trans (le_runningMax _ _)

theorem runTest_within {s s' : Progress} {t : Test} (ran : runTest b p s t = .ok s')
    (within : WithinLimits p s.usedtime s.topmemory)
    (time : ∀ o ∈ t.observations, Fits (s.usedtime + o.ruse.ms))
    (unblamed : ¬ Blamed s'.judgeFlag) :
    WithinLimits p s'.usedtime s'.topmemory := by
  obtain ⟨-, blamed | ⟨w, top, ⟨watch⟩, -⟩⟩ := runTest_cases ran
  · exact absurd blamed unblamed
  · rw [top]
    exact acceptedWatch_within watch time within.time_nonneg within.memory_nonneg

theorem testLoop_within {s : Progress} {entries : List Entry}
    (times : TimesFit (testsRun b entries))
    (loop : testLoop b p startProgress entries = .ok s) (unblamed : ¬ Blamed s.judgeFlag) :
    WithinLimits p s.usedtime s.topmemory := by
  induction entries using List.reverseRecOn generalizing s with
  | nil =>
      cases loop
      exact withinLimits_start
  | append_singleton entries e ih =>
      rw [testsRun_snoc] at times
      obtain ⟨before, reached, ⟨accepted, test, ran⟩ | ⟨rfl, -⟩⟩ := testLoop_snoc loop
      · have clean : ¬ Blamed before.judgeFlag := by rw [accepted]; decide
        obtain ⟨tests, -, charged, all⟩ := testLoop_charged times.initial reached clean
        rw [if_pos test] at times
        have time := (eachAfter_snoc_iff.1 times).2
        rw [← all accepted, ← charged.usedtime] at time
        exact runTest_within ran (ih times.initial reached clean) time unblamed
      · exact ih times.initial reached unblamed

theorem StartsTest.within {entries : List Entry} {s : Progress} {t : Test}
    (starts : StartsTest b p entries s t) (times : TimesFit (testsRun b entries)) :
    WithinLimits p s.usedtime s.topmemory ∧
      ∀ o ∈ t.observations, Fits (s.usedtime + o.ruse.ms) := by
  obtain ⟨earlier, later, split, charged⟩ := starts.charged times
  obtain ⟨before, e, after, rfl, -, -, reached⟩ := starts.reached
  have initial : testsRun b (before ++ e :: after) =
      testsRun b before ++ testsRun b (e :: after) := by simp [testsRun]
  refine ⟨?_, ?_⟩
  · exact testLoop_within (EachAfter.initial (initial ▸ times)) reached
      (by rw [starts.accepted]; decide)
  · rw [charged.usedtime]
    exact times earlier t later split

theorem CallsJudgeSolution.within {entries : List Entry} {usedtime topmemory : Int}
    (calls : CallsJudgeSolution b p entries usedtime topmemory)
    (times : TimesFit (testsRun b entries)) : WithinLimits p usedtime topmemory := by
  obtain ⟨s, t, w, starts, accepted, rfl, watched⟩ := calls
  obtain ⟨within, time⟩ := starts.within times
  rcases watchSolution_flag watched with blamed | ⟨-, ⟨watch⟩⟩
  · exact absurd accepted blamed.ne_AC
  · exact acceptedWatch_within watch time within.time_nonneg within.memory_nonneg

/-- Within the limits, the verdict of `judge_solution` is the one of `compare`. -/
theorem WithinLimits.judgeSolution_eq {usedtime topmemory : Int}
    (within : WithinLimits p usedtime topmemory) (outfile userfile : Option (List UInt8)) :
    judgeSolution p usedtime topmemory outfile userfile = compare outfile userfile := by
  have time := within.time_lt
  have memory := within.memory_le
  rw [← p.timeLimit_eq] at time
  rw [← p.memoryLimit_eq] at memory
  unfold judgeSolution
  rw [if_neg (not_lt.2 time.le), if_neg (not_lt.2 memory)]

/-- Between 2 seconds and one more than the time limit. -/
theorem WithinLimits.cpu {usedtime topmemory : Int} (within : WithinLimits p usedtime topmemory) :
    let cpu := (runSolutionLimits p usedtime).cpu
    cpu.max = cpu.cur ∧ 2 ≤ cpu.cur ∧ cpu.cur ≤ p.timeLmt + 1 := by
  have range := p.timeLmt_range
  have nonneg := within.time_nonneg
  have below := within.time_lt
  have quotient : Int.tdiv usedtime 1000 = usedtime / 1000 := Int.tdiv_eq_ediv_of_nonneg nonneg
  have seconds : cpuSeconds p usedtime = p.timeLmt - usedtime / 1000 + 1 := by
    unfold cpuSeconds
    rw [quotient, int32_add_left]
    exact int32_of_fits ⟨by omega, by omega⟩
  simp only [runSolutionLimits, rlimT, seconds]
  refine ⟨trivial, ?_, ?_⟩ <;> omega

/-- The verdicts a completed comparison prints are not ones of the watch. -/
theorem report_unblamed {s : Progress}
    (compared : (report p s).judgeFlag = .AC ∨ (report p s).judgeFlag = .WA ∨
      (report p s).judgeFlag = .PE) :
    ¬ Blamed s.judgeFlag ∧ (report p s).usedtime = s.usedtime := by
  by_cases none_ : s.count = 0
  · simp [report, none_] at compared
  · simp only [report, if_neg none_] at compared ⊢
    rcases compared with flag | flag | flag <;> rw [flag] <;>
      exact ⟨by decide, if_neg (by decide)⟩

end Limits

/-- **Resource accounting.**  At every start of a test, at every call of
`judge_solution`, and for every printed AC, WA or PE. -/
theorem resources_within_limits (b : Build) (p : Parameters) (entries : List Entry)
    (times : TimesFit (testsRun b entries)) :
    (∀ s t, StartsTest b p entries s t → WithinLimits p s.usedtime s.topmemory ∧
      2 ≤ (runSolutionLimits p s.usedtime).cpu.cur ∧
      (runSolutionLimits p s.usedtime).cpu.cur ≤ p.timeLmt + 1) ∧
    (∀ usedtime topmemory, CallsJudgeSolution b p entries usedtime topmemory →
      WithinLimits p usedtime topmemory ∧
      ∀ outfile userfile,
        judgeSolution p usedtime topmemory outfile userfile = compare outfile userfile) ∧
    (∀ r, runTests b p entries = .ok r →
      r.judgeFlag = .AC ∨ r.judgeFlag = .WA ∨ r.judgeFlag = .PE →
      WithinLimits p r.usedtime r.topmemory) := by
  refine ⟨fun s t starts => ?_, fun usedtime topmemory calls => ?_, fun r ran compared => ?_⟩
  · have within := (starts.within times).1
    exact ⟨within, within.cpu.2⟩
  · have within := calls.within times
    exact ⟨within, within.judgeSolution_eq⟩
  · unfold runTests at ran
    split at ran
    · cases ran
    · rename_i s loop
      cases ran
      obtain ⟨unblamed, used⟩ := report_unblamed compared
      rw [used]
      exact testLoop_within times loop unblamed

theorem resources_within_limits_sample :
    (∀ s t, StartsTest Sample.build Sample.parameters [Sample.entry [59, 231]] s t →
      WithinLimits Sample.parameters s.usedtime s.topmemory ∧
      2 ≤ (runSolutionLimits Sample.parameters s.usedtime).cpu.cur ∧
      (runSolutionLimits Sample.parameters s.usedtime).cpu.cur ≤ Sample.parameters.timeLmt + 1) ∧
    WithinLimits Sample.parameters 1 122880 := by
  have times : TimesFit (testsRun Sample.build [Sample.entry [59, 231]]) := by
    have one : testsRun Sample.build [Sample.entry [59, 231]] = [Sample.test [59, 231]] := by
      decide
    rw [one]
    exact eachAfter_singleton_iff.2 (by decide)
  obtain ⟨starts, -, printed⟩ := resources_within_limits _ Sample.parameters _ times
  exact ⟨starts, printed ⟨.AC, 1, 122880⟩ (by decide) (Or.inl rfl)⟩

end RunServer.Runner
