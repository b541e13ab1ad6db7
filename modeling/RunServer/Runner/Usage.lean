/-
# Runner.Usage -- what the accepted part of a run has used

While the verdict stays `JudgeAC`, the time `main` has charged is the sum over the
tests of what each child had used when it exited, and the memory is the maximum of
every reading taken until then.  `Test.time` and `Test.readings` say this of the
observations alone; `FitsInt` is the assumption that these numbers fit in an `int`,
and under it the narrowing stores of the source change nothing.

A child's observations end at its exit (`lifetime`): `watch_solution` looks at no
report after that one.
-/
import Mathlib.Data.List.Induction
import RunServer.Theory.History
import RunServer.Runner.Main

namespace RunServer.Runner

open RunServer.Theory
open RunServer.Theory.Loop

set_option autoImplicit false

/-! ## Readings -/

/-- The memory a report stands for, in bytes. -/
def Observation.memory (lang : Int) (o : Observation) : Int :=
  if lang = langJava then o.ruse.minflt * getpagesize
  else if o.vmPeak * 2 ^ 10 = 0 then o.ruse.minflt * getpagesize
  else o.vmPeak * 2 ^ 10

theorem tempmemory_eq {lang : Int} {o : Observation} (fits : Fits (o.memory lang)) :
    tempmemory lang o = o.memory lang := by
  unfold tempmemory getPageFaultMem
  unfold Observation.memory at fits ⊢
  split
  · rename_i java
    rw [if_pos java] at fits
    exact int32_of_fits fits
  · rename_i native
    rw [if_neg native] at fits
    split at fits
    · rename_i absent
      rw [absent, if_pos (int32_of_fits (by decide)), if_pos rfl]
      exact int32_of_fits fits
    · rename_i present
      rw [int32_of_fits fits, if_neg present, if_neg present]

theorem chargeTime_eq {usedtime : Int} {ruse : Rusage} (fits : Fits (usedtime + ruse.ms)) :
    chargeTime usedtime ruse = usedtime + ruse.ms := by
  unfold chargeTime
  rw [int32_add_left, add_assoc]
  exact int32_of_fits (by simpa [Rusage.ms] using fits)

/-! ## A child's life -/

/-- The reports up to the exit of the child. -/
def lifetime (observations : List Observation) : List Observation :=
  upTo (fun o => wifexited o.status) observations

namespace Test

/-- Milliseconds used at the child's exit. -/
def time (t : Test) : Nat :=
  match (lifetime t.observations).getLast? with
  | some last => last.ruse.ms
  | none => 0

def readings (lang : Int) (t : Test) : List Int :=
  (lifetime t.observations).map (Observation.memory lang)

end Test

def spent (tests : List Test) : Nat := (tests.map Test.time).sum

def readingsOf (lang : Int) (tests : List Test) : List Int := tests.flatMap (Test.readings lang)

@[simp] theorem spent_nil : spent [] = 0 := rfl

@[simp] theorem spent_snoc (tests : List Test) (t : Test) :
    spent (tests ++ [t]) = spent tests + t.time := by simp [spent]

@[simp] theorem readingsOf_snoc (lang : Int) (tests : List Test) (t : Test) :
    readingsOf lang (tests ++ [t]) = readingsOf lang tests ++ t.readings lang := by
  simp [readingsOf]

/-- The time charged at any report fits in an `int`. -/
def TimesFit (tests : List Test) : Prop :=
  EachAfter (fun earlier t => ∀ o ∈ t.observations, Fits (spent earlier + o.ruse.ms : Int)) tests

/-- Every memory reading fits in an `int`. -/
def MemoryFits (lang : Int) (tests : List Test) : Prop :=
  ∀ t ∈ tests, ∀ o ∈ t.observations, Fits (o.memory lang)

structure FitsInt (lang : Int) (tests : List Test) : Prop where
  memory : MemoryFits lang tests
  time : TimesFit tests

theorem MemoryFits.initial {lang : Int} {tests more : List Test}
    (fits : MemoryFits lang (tests ++ more)) : MemoryFits lang tests :=
  fun t member => fits t (List.mem_append_left _ member)

/-! ## What an accepted watch has read -/

section Accepted

variable {recordCall : Bool} {p : Parameters} {usedtime : Int}

/-- A pass that asks for another turn has let its report through. -/
theorem passable_of_again {w w' : Watch} {o : Observation}
    (turn : iteration recordCall p usedtime w o = .ok (.again w')) :
    Passable p usedtime w.topmemory o ∧
      checkSyscall recordCall o.origRax
        { w with topmemory := max w.topmemory (tempmemory p.lang o) } = .ok (.again w') := by
  rcases iteration_cases recordCall p usedtime w o with
    ⟨pass, checks⟩ | ⟨-, exits⟩ | ⟨_, _, -, leaves⟩
  · exact ⟨pass, checks ▸ turn⟩
  · rw [exits] at turn; cases turn
  · rw [leaves] at turn; cases turn

/-- A pass that fails has let its report through to a number past the table. -/
theorem outside_of_error {w : Watch} {o : Observation} {e : Undefined}
    (failed : iteration recordCall p usedtime w o = .error e) :
    Passable p usedtime w.topmemory o ∧ callArraySize ≤ o.origRax.toNat := by
  rcases iteration_cases recordCall p usedtime w o with
    ⟨pass, checks⟩ | ⟨-, exits⟩ | ⟨_, _, -, leaves⟩
  · rcases checkSyscall_cases recordCall o.origRax
        { w with topmemory := max w.topmemory (tempmemory p.lang o) } with
      ⟨_, _, _, -, again⟩ | ⟨outside, -⟩
    · rw [checks, again] at failed; cases failed
    · exact ⟨pass, outside⟩
  · rw [exits] at failed; cases failed
  · rw [leaves] at failed; cases failed

theorem error_of_outside {w : Watch} {o : Observation} (pass : Passable p usedtime w.topmemory o)
    (past : callArraySize ≤ o.origRax.toNat) :
    iteration recordCall p usedtime w o = .error (.outOfBounds o.origRax) := by
  rw [iteration_of_passable pass]
  simp [checkSyscall, not_lt.2 past]

/-- What another turn leaves of the variables the limits are checked against. -/
theorem again_variables {w w' : Watch} {o : Observation}
    (turn : iteration recordCall p usedtime w o = .ok (.again w')) :
    w'.topmemory = max w.topmemory (tempmemory p.lang o) ∧ w'.sub = 1 - w.sub ∧
      (w'.judgeFlag = w.judgeFlag ∨ w'.judgeFlag = .RE) := by
  obtain ⟨-, checks⟩ := passable_of_again turn
  rcases checkSyscall_cases recordCall o.origRax
      { w with topmemory := max w.topmemory (tempmemory p.lang o) } with
    ⟨judgeFlag, callCounter, requests, flag, again⟩ | ⟨-, failed⟩
  · rw [again] at checks
    cases checks
    exact ⟨rfl, rfl, flag⟩
  · rw [failed] at checks; cases checks

theorem passes_running {w w' : Watch} {pre : List Observation}
    (run : Passes (iteration recordCall p usedtime) w pre w') :
    ∀ o ∈ pre, wifexited o.status = false := by
  induction run with
  | nil => simp
  | cons turn _ ih =>
      intro o member
      rcases List.mem_cons.1 member with rfl | later
      · exact (passable_of_again turn).1.running
      · exact ih o later

theorem passes_topmemory {w w' : Watch} {pre : List Observation}
    (run : Passes (iteration recordCall p usedtime) w pre w') :
    w'.topmemory = runningMax w.topmemory (pre.map (tempmemory p.lang)) := by
  induction run with
  | nil => rfl
  | cons turn _ ih =>
      rw [ih, (again_variables turn).1]
      rfl

theorem passes_judgeFlag {w w' : Watch} {pre : List Observation}
    (run : Passes (iteration recordCall p usedtime) w pre w') :
    w'.judgeFlag = w.judgeFlag ∨ w'.judgeFlag = .RE := by
  induction run with
  | nil => exact Or.inl rfl
  | cons turn _ ih =>
      rcases ih with same | flagged
      · rcases (again_variables turn).2.2 with same' | flagged'
        · exact Or.inl (same.trans same')
        · exact Or.inr (same.trans flagged')
      · exact Or.inr flagged

/-- A pass that leaves the loop: an exit within the limits, or a verdict. -/
theorem exits_of_leave {w w' : Watch} {o : Observation}
    (leaves : iteration recordCall p usedtime w o = .ok (.leave w')) :
    Exits p usedtime w.topmemory o ∧
        w' = { w with topmemory := max w.topmemory (tempmemory p.lang o), requests := [] } ∨
      Blamed w'.judgeFlag := by
  rcases iteration_cases recordCall p usedtime w o with
    ⟨-, checks⟩ | ⟨exits, ends⟩ | ⟨judgeFlag, requests, blamed, ends⟩
  · rcases checkSyscall_cases recordCall o.origRax
        { w with topmemory := max w.topmemory (tempmemory p.lang o) } with
      ⟨_, _, _, -, again⟩ | ⟨-, failed⟩
    · rw [checks, again] at leaves; cases leaves
    · rw [checks, failed] at leaves; cases leaves
  · rw [ends] at leaves
    cases leaves
    exact Or.inl ⟨exits, rfl⟩
  · rw [ends] at leaves
    cases leaves
    exact Or.inr blamed

/-- A flag that has been set against the program is never taken back. -/
theorem drive_flagged {w w' : Watch} {last : Observation} {observations : List Observation}
    (flagged : w.judgeFlag = .RE)
    (left : drive (iteration recordCall p usedtime) w observations = .left w' last) :
    Blamed w'.judgeFlag := by
  obtain ⟨pre, post, before, -, run, leaves⟩ := drive_left_iff.1 left
  have still : before.judgeFlag = .RE := by
    rcases passes_judgeFlag run with same | again
    · exact same.trans flagged
    · exact again
  rcases exits_of_leave leaves with ⟨-, rfl⟩ | blamed
  · exact still ▸ by decide
  · exact blamed

/-- How `watch_solution` ends with `JudgeAC`: the child exits within the limits
after passes that never touched the flag. -/
structure AcceptedWatch (recordCall : Bool) (p : Parameters) (usedtime : Int) (start : Watch)
    (observations : List Observation) (w : Watch) (used : Int) where
  pre : List Observation
  last : Observation
  post : List Observation
  before : Watch
  split : observations = pre ++ last :: post
  run : Passes (iteration recordCall p usedtime) start pre before
  accepted : before.judgeFlag = .AC
  exits : Exits p usedtime before.topmemory last
  final : w = { before with
    topmemory := max before.topmemory (tempmemory p.lang last), requests := [] }
  charged : used = chargeTime usedtime last.ruse

theorem watchSolution_flag {topmemory : Int} {table : CallCounter}
    {observations : List Observation} {w : Watch} {used : Int}
    (watched : watchSolution recordCall p usedtime topmemory table observations = .ok (w, used)) :
    Blamed w.judgeFlag ∨ w.judgeFlag = .AC ∧
      Nonempty (AcceptedWatch recordCall p usedtime (startWatch topmemory table) observations w
        used) := by
  obtain ⟨last, left, rfl⟩ := watchSolution_left watched
  obtain ⟨pre, post, before, split, run, leaves⟩ := drive_left_iff.1 left
  rcases exits_of_leave leaves with ⟨exits, rfl⟩ | blamed
  · rcases passes_judgeFlag run with same | flagged
    · exact Or.inr ⟨same, ⟨⟨pre, last, post, before, split, run, same, exits, rfl, rfl⟩⟩⟩
    · exact Or.inl (by rw [flagged]; decide)
  · exact Or.inl blamed

theorem AcceptedWatch.lifetime_eq {start w : Watch} {observations : List Observation} {used : Int}
    (a : AcceptedWatch recordCall p usedtime start observations w used) :
    lifetime observations = a.pre ++ [a.last] :=
  (congrArg lifetime a.split).trans (upTo_append (passes_running a.run) a.exits.exited)

theorem AcceptedWatch.mem {start w : Watch} {observations : List Observation} {used : Int}
    (a : AcceptedWatch recordCall p usedtime start observations w used) {o : Observation}
    (member : o ∈ a.pre ++ [a.last]) : o ∈ observations :=
  (upTo_initial _ observations).subset (a.lifetime_eq ▸ member)

theorem AcceptedWatch.topmemory_eq {start w : Watch} {observations : List Observation}
    {used : Int} (a : AcceptedWatch recordCall p usedtime start observations w used) :
    w.topmemory = runningMax start.topmemory ((a.pre ++ [a.last]).map (tempmemory p.lang)) := by
  have top : w.topmemory = max a.before.topmemory (tempmemory p.lang a.last) :=
    congrArg Watch.topmemory a.final
  rw [top, passes_topmemory a.run]
  simp

end Accepted

/-! ## What an accepted test leaves -/

section Charged

variable {b : Build} {p : Parameters}

/-- How a test ends: with a verdict of the watch, or with one of `judge_solution`. -/
theorem runTest_cases {s s' : Progress} {t : Test} (ran : runTest b p s t = .ok s') :
    s'.count = s.count + 1 ∧
      (Blamed s'.judgeFlag ∨
        ∃ w, s'.topmemory = w.topmemory ∧
          Nonempty (AcceptedWatch b.recordCall p s.usedtime
            (startWatch s.topmemory (initSyscallsLimits b.recordCall p.lang)) t.observations w
            s'.usedtime) ∧
          judgeSolution p s'.usedtime s'.topmemory t.answer t.output = some s'.judgeFlag) := by
  unfold runTest at ran
  split at ran
  · cases ran
  · rename_i w used watched
    have flag := watchSolution_flag watched
    dsimp only at ran
    split at ran
    · rename_i accepted
      split at ran
      · cases ran
      · rename_i judgeFlag judged
        cases ran
        rcases flag with blamed | ⟨-, watch⟩
        · exact absurd accepted blamed.ne_AC
        · exact ⟨rfl, Or.inr ⟨w, rfl, watch, judged⟩⟩
    · rename_i refused
      cases ran
      rcases flag with blamed | ⟨accepted, -⟩
      · exact ⟨rfl, Or.inl blamed⟩
      · exact absurd accepted refused

/-- **One accepted watch charges the test's time and readings.** -/
theorem acceptedWatch_usedtime {usedtime : Int} {start w : Watch} {t : Test} {used : Int}
    (watch : AcceptedWatch b.recordCall p usedtime start t.observations w used)
    (time : ∀ o ∈ t.observations, Fits (usedtime + o.ruse.ms)) : used = usedtime + t.time := by
  rw [watch.charged, chargeTime_eq (time _ (watch.mem (o := watch.last) (by simp)))]
  simp [Test.time, watch.lifetime_eq]

theorem acceptedWatch_topmemory {usedtime : Int} {start w : Watch} {t : Test} {used : Int}
    (watch : AcceptedWatch b.recordCall p usedtime start t.observations w used)
    (memory : ∀ o ∈ t.observations, Fits (o.memory p.lang)) :
    w.topmemory = runningMax start.topmemory (t.readings p.lang) := by
  have same : ∀ o ∈ watch.pre ++ [watch.last], tempmemory p.lang o = o.memory p.lang :=
    fun o member => tempmemory_eq (memory o (watch.mem member))
  rw [watch.topmemory_eq, List.map_congr_left same, Test.readings, watch.lifetime_eq]

/-- The tests of a directory: the names longer than 3 bytes that end in `.in`. -/
def Entry.isIn (e : Entry) : Bool := 3 < e.dName.length && dotIn.isSuffixOf e.dName

def testsOf (entries : List Entry) : List Test := (entries.filter Entry.isIn).map Entry.test

/-- With a value other than 0 for the missing `return`, `main` tests exactly these. -/
theorem isTest_eq_isIn (accepts : b.fallOff ≠ 0) (e : Entry) : isTest b e = e.isIn := by
  have suffix : dotIn.isSuffixOf e.dName = true ↔ e.dName.drop (e.dName.length - 3) = dotIn := by
    rw [List.isSuffixOf_iff_suffix, List.suffix_iff_eq_drop]
    exact eq_comm
  unfold isTest prepareFiles Entry.isIn
  dsimp only
  split
  · rename_i refused
    rcases refused with short | differs
    · simp [Prepared.value, not_lt.2 short]
    · have absent : dotIn.isSuffixOf e.dName = false := by
        rw [← Bool.not_eq_true, suffix]
        exact differs
      simp [Prepared.value, absent]
  · rename_i taken
    rw [not_or, not_not, ← suffix] at taken
    simp [Prepared.value, accepts, taken.2, not_le.1 taken.1]

/-- `s` is what `main` has charged for these tests. -/
structure ChargedFor (p : Parameters) (tests : List Test) (s : Progress) : Prop where
  usedtime : s.usedtime = spent tests
  topmemory : MemoryFits p.lang tests → s.topmemory = runningMax 0 (readingsOf p.lang tests)
  count : s.count = tests.length

theorem chargedFor_start : ChargedFor p [] startProgress :=
  ⟨rfl, fun _ => rfl, rfl⟩

theorem runTest_charged {tests : List Test} {s s' : Progress} {t : Test}
    (times : TimesFit (tests ++ [t])) (charged : ChargedFor p tests s)
    (ran : runTest b p s t = .ok s') (unblamed : ¬ Blamed s'.judgeFlag) :
    ChargedFor p (tests ++ [t]) s' := by
  obtain ⟨count, blamed | ⟨w, top, ⟨watch⟩, -⟩⟩ := runTest_cases ran
  · exact absurd blamed unblamed
  refine ⟨?_, fun memory => ?_, ?_⟩
  · have time := (eachAfter_snoc_iff.1 times).2
    rw [← charged.usedtime] at time
    rw [acceptedWatch_usedtime watch time, charged.usedtime]
    simp
  · rw [top, acceptedWatch_topmemory watch (memory t (by simp)), readingsOf_snoc,
      runningMax_append, ← charged.topmemory memory.initial]
    rfl
  · rw [count, charged.count]
    simp

/-- The tests `main` runs, for any value in place of the missing `return`. -/
def testsRun (b : Build) (entries : List Entry) : List Test :=
  (entries.filter (isTest b)).map Entry.test

theorem testsRun_eq_testsOf (accepts : b.fallOff ≠ 0) (entries : List Entry) :
    testsRun b entries = testsOf entries := by
  unfold testsRun testsOf
  rw [funext (isTest_eq_isIn accepts)]

theorem testsRun_snoc (entries : List Entry) (e : Entry) :
    testsRun b (entries ++ [e]) =
      testsRun b entries ++ if isTest b e then [e.test] else [] := by
  by_cases test : isTest b e <;> simp [testsRun, test]

/-- One more entry at the end of a loop. -/
theorem testLoop_snoc {s : Progress} {entries : List Entry} {e : Entry}
    (loop : testLoop b p startProgress (entries ++ [e]) = .ok s) :
    ∃ before, testLoop b p startProgress entries = .ok before ∧
      ((before.judgeFlag = .AC ∧ isTest b e = true ∧ runTest b p before e.test = .ok s) ∨
        s = before ∧ (before.judgeFlag = .AC → isTest b e = false)) := by
  rw [testLoop_append] at loop
  split at loop
  · cases loop
  · rename_i before reached
    refine ⟨before, reached, ?_⟩
    simp only [testLoop] at loop
    split at loop
    · rename_i accepted
      split at loop
      · rename_i test
        split at loop
        · cases loop
        · rename_i ran
          cases loop
          exact Or.inl ⟨accepted, test, ran⟩
      · rename_i noTest
        cases loop
        exact Or.inr ⟨rfl, fun _ => by simpa using noTest⟩
    · rename_i refused
      cases loop
      exact Or.inr ⟨rfl, fun accepted => absurd accepted refused⟩

/-- One child is started for each test. -/
theorem testLoop_count {s : Progress} {entries : List Entry}
    (loop : testLoop b p startProgress entries = .ok s) (accepted : s.judgeFlag = .AC) :
    s.count = (testsRun b entries).length := by
  induction entries using List.reverseRecOn generalizing s with
  | nil =>
      cases loop
      rfl
  | append_singleton entries e ih =>
      rw [testsRun_snoc]
      obtain ⟨before, reached, ⟨started, test, ran⟩ | ⟨rfl, noTest⟩⟩ := testLoop_snoc loop
      · rw [if_pos test, (runTest_cases ran).1, ih reached started]
        simp
      · simpa [noTest accepted] using ih reached accepted

/-- **What the loop has charged**: all its tests while the verdict is `JudgeAC`, and
those up to the refused one when `compare` refused it. -/
theorem testLoop_charged {s : Progress} {entries : List Entry}
    (times : TimesFit (testsRun b entries))
    (loop : testLoop b p startProgress entries = .ok s) (unblamed : ¬ Blamed s.judgeFlag) :
    ∃ tests, tests <+: testsRun b entries ∧ ChargedFor p tests s ∧
      (s.judgeFlag = .AC → tests = testsRun b entries) := by
  induction entries using List.reverseRecOn generalizing s with
  | nil =>
      cases loop
      exact ⟨[], by simp, chargedFor_start, fun _ => rfl⟩
  | append_singleton entries e ih =>
      rw [testsRun_snoc] at times ⊢
      obtain ⟨before, reached, ⟨accepted, test, ran⟩ | ⟨rfl, noTest⟩⟩ := testLoop_snoc loop
      · rw [if_pos test] at times ⊢
        obtain ⟨tests, -, charged, all⟩ := ih times.initial reached (by rw [accepted]; decide)
        rw [all accepted] at charged
        exact ⟨_, List.prefix_rfl, runTest_charged times charged ran unblamed, fun _ => rfl⟩
      · obtain ⟨tests, initial, charged, all⟩ := ih times.initial reached unblamed
        refine ⟨tests, initial.trans (List.prefix_append _ _), charged, fun accepted => ?_⟩
        simpa [noTest accepted] using all accepted

/-- What is charged when a test starts. -/
theorem StartsTest.charged {entries : List Entry} {s : Progress} {t : Test}
    (starts : StartsTest b p entries s t) (times : TimesFit (testsRun b entries)) :
    ∃ earlier later, testsRun b entries = earlier ++ t :: later ∧ ChargedFor p earlier s := by
  obtain ⟨before, e, after, rfl, test, rfl, reached⟩ := starts.reached
  have split : testsRun b (before ++ e :: after) =
      testsRun b before ++ e.test :: testsRun b after := by simp [testsRun, test]
  rw [split] at times
  obtain ⟨tests, -, charged, all⟩ :=
    testLoop_charged times.initial reached (by rw [starts.accepted]; decide)
  exact ⟨_, _, split, all starts.accepted ▸ charged⟩

end Charged

/-! ## The verdicts -/

section Verdicts

variable {b : Build} {p : Parameters}

theorem Blamed.terminal {j : Judge} (blamed : Blamed j) : j.Terminal := by
  rcases blamed with rfl | rfl | rfl | rfl <;> decide

theorem Checked.terminal {j : Judge} (checked : Checked j) : j.Terminal := by
  rcases checked with rfl | rfl | rfl | rfl <;> decide

theorem judgeSolution_terminal {usedtime topmemory : Int} {outfile userfile : Option (List UInt8)}
    {j : Judge} (judged : judgeSolution p usedtime topmemory outfile userfile = some j) :
    j.Terminal := by
  unfold judgeSolution at judged
  split at judged
  · cases judged
    decide
  · split at judged
    · cases judged
      decide
    · exact (compare_checked judged).terminal

/-- **The runner prints a terminal verdict**, whatever its tests do. -/
theorem runTests_terminal {entries : List Entry} {r : Report}
    (ran : runTests b p entries = .ok r) : r.judgeFlag.Terminal := by
  unfold runTests at ran
  split at ran
  · cases ran
  · rename_i s loop
    cases ran
    have terminal : s.judgeFlag.Terminal := by
      refine testLoop_invariant (I := fun s => s.judgeFlag.Terminal) (by decide) loop ?_
      intro s t s' _ _ tested
      rcases (runTest_cases tested).2 with blamed | ⟨w, -, -, judged⟩
      · exact blamed.terminal
      · exact judgeSolution_terminal judged
    unfold report
    dsimp only
    split
    · decide
    · exact terminal

end Verdicts

end RunServer.Runner
