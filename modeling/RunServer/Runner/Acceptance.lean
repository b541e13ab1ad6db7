/-
# Runner.Acceptance -- which runs are accepted

A report is `Clean` when nothing the watch looks at speaks against the program:
the memory and the time so far, the two output files, the stop code, and the
budget of the system call.  `CleanRun` is a child that makes clean stops and then
exits within the limits.  The flag is handed by reference through the nested
loops, and one of its writes does not leave the watch; that it ends as `JudgeAC`
for clean runs only, and for all of them, is proved one report at a time
(`allowed_iff_clean`), then along the stops of a child (`passes_accepted_iff`),
for one test (`runTest_accepted_iff`), and along the directory
(`testLoop_accepted_iff`).

A run that reads past the table may print anything (`MayPrint`), so the runner
accepts the clean runs and no others as long as every number it checks is inside
(`acceptsClean_iff_inside`).
-/
import RunServer.Runner.Accounting
import RunServer.Runner.Outside

namespace RunServer.Runner

open RunServer.Theory
open RunServer.Theory.Loop

set_option autoImplicit false

/-! ## Clean runs -/

/-- A report the child goes on after with nothing against it, `stops` being the
earlier ones of its test, with `used` milliseconds charged to earlier tests and
`peak` bytes the most they took. -/
structure Clean (p : Parameters) (used peak : Int) (stops : List Observation)
    (o : Observation) : Prop where
  memory : runningMax peak ((stops ++ [o]).map (Observation.memory p.lang)) ≤ p.memLmt * stdMB
  time : used + o.ruse.ms < p.timeLmt * 1000
  running : wifexited o.status = false
  error : o.errorOut = 0
  output : o.userOut ≤ 2 * o.answer + 1024
  stopCode : wexitstatus o.status = 0 ∨ wexitstatus o.status = sigTrap ∨
    p.lang = langJava ∧ wexitstatus o.status = sigChld
  signal : wifsignaled o.status = false
  call : ∃ number : Fin callArraySize, number.val = o.origRax.toNat ∧
    remainingCalls p.lang stops number ≠ 0

/-- The last report: an exit within both limits. -/
structure CleanExit (p : Parameters) (used peak : Int) (stops : List Observation)
    (o : Observation) : Prop where
  memory : runningMax peak ((stops ++ [o]).map (Observation.memory p.lang)) ≤ p.memLmt * stdMB
  time : used + o.ruse.ms < p.timeLmt * 1000
  exited : wifexited o.status = true

/-- Clean stops, then a clean exit. -/
def CleanRun (p : Parameters) (used peak : Int) (observations : List Observation) : Prop :=
  ∃ stops last, lifetime observations = stops ++ [last] ∧
    EachAfter (Clean p used peak) stops ∧ CleanExit p used peak stops last

/-- The test is passed, after the given earlier ones. -/
structure AcceptedAfter (p : Parameters) (earlier : List Test) (t : Test) : Prop where
  clean : CleanRun p (spent earlier) (runningMax 0 (readingsOf p.lang earlier)) t.observations
  answer : compare t.answer t.output = some .AC

theorem goesOn_iff {lang : Int} {exitcode : Nat} :
    goesOn lang exitcode = true ↔
      exitcode = 0 ∨ exitcode = sigTrap ∨ lang = langJava ∧ exitcode = sigChld := by
  simp only [goesOn, Bool.or_eq_true, Bool.and_eq_true, decide_eq_true_eq]
  tauto

/-! ## One report -/

section Watched

variable {p : Parameters} {usedtime topmemory : Int}

/-- The peak a pass compares with the limit. -/
theorem max_tempmemory {stops : List Observation} {o : Observation}
    (memory : ∀ x ∈ stops ++ [o], Fits (x.memory p.lang)) :
    max (runningMax topmemory (stops.map (tempmemory p.lang))) (tempmemory p.lang o) =
      runningMax topmemory ((stops ++ [o]).map (Observation.memory p.lang)) := by
  have same : ∀ x ∈ stops ++ [o], tempmemory p.lang x = x.memory p.lang :=
    fun x member => tempmemory_eq (memory x member)
  rw [← List.map_congr_left same]
  simp

theorem passes_peak {stops : List Observation} {w : Watch} {o : Observation}
    (run : Passes (iteration false p usedtime)
      (startWatch topmemory (initSyscallsLimits false p.lang)) stops w)
    (memory : ∀ x ∈ stops ++ [o], Fits (x.memory p.lang)) :
    max w.topmemory (tempmemory p.lang o) =
      runningMax topmemory ((stops ++ [o]).map (Observation.memory p.lang)) := by
  rw [← max_tempmemory memory, passes_topmemory run]
  rfl

/-- **One report** is allowed exactly when it is clean. -/
theorem allowed_iff_clean {stops : List Observation} {o : Observation}
    (memory : ∀ x ∈ stops ++ [o], Fits (x.memory p.lang)) (time : Fits (usedtime + o.ruse.ms)) :
    Allowed false p usedtime topmemory stops o ↔ Clean p usedtime topmemory stops o := by
  have peak := @max_tempmemory p topmemory stops o memory
  have charge := chargeTime_eq time
  constructor
  · rintro ⟨pass, number, same, left⟩
    refine
      { memory := ?_
        time := ?_
        running := pass.running
        error := pass.error
        output := Nat.mul_comm o.answer 2 ▸ pass.output
        stopCode := goesOn_iff.1 pass.stopCode
        signal := pass.signal
        call := ⟨number, same, left.resolve_left (by decide)⟩ }
    · rw [← peak, ← p.memoryLimit_eq]
      exact pass.memory
    · rw [← charge, ← p.timeLimit_eq]
      exact pass.time
  · intro clean
    obtain ⟨number, same, left⟩ := clean.call
    refine ⟨?_, number, same, Or.inr left⟩
    exact
      { memory := by rw [peak, p.memoryLimit_eq]; exact clean.memory
        time := by rw [charge, p.timeLimit_eq]; exact clean.time
        running := clean.running
        error := clean.error
        output := Nat.mul_comm o.answer 2 ▸ clean.output
        stopCode := goesOn_iff.2 clean.stopCode
        signal := clean.signal }

/-! ## The stops of a child -/

/-- **The stops of a child.** -/
theorem passes_accepted_iff {stops : List Observation}
    (memory : ∀ o ∈ stops, Fits (o.memory p.lang))
    (time : ∀ o ∈ stops, Fits (usedtime + o.ruse.ms)) :
    (∃ w, Passes (iteration false p usedtime)
        (startWatch topmemory (initSyscallsLimits false p.lang)) stops w ∧ w.judgeFlag = .AC) ↔
      EachAfter (Clean p usedtime topmemory) stops := by
  rw [passes_allowed_iff]
  have each : ∀ before o after, stops = before ++ o :: after →
      (Allowed false p usedtime topmemory before o ↔ Clean p usedtime topmemory before o) := by
    intro before o after split
    refine allowed_iff_clean (fun x member => memory x ?_) (time o ?_)
    · rw [split]
      simp only [List.mem_append, List.mem_cons, List.not_mem_nil, or_false] at member ⊢
      tauto
    · rw [split]
      simp
  constructor
  · intro allowed before o after split
    exact (each before o after split).1 (allowed before o after split)
  · intro clean before o after split
    exact (each before o after split).2 (clean before o after split)

/-- **A whole watch.** -/
theorem watch_accepted_iff {observations : List Observation}
    (memory : ∀ o ∈ observations, Fits (o.memory p.lang))
    (time : ∀ o ∈ observations, Fits (usedtime + o.ruse.ms)) :
    (∃ w used, watchSolution false p usedtime topmemory (initSyscallsLimits false p.lang)
        observations = .ok (w, used) ∧ w.judgeFlag = .AC) ↔
      CleanRun p usedtime topmemory observations := by
  constructor
  · rintro ⟨w, used, watched, flag⟩
    rcases watchSolution_flag watched with blamed | ⟨-, ⟨a⟩⟩
    · exact absurd flag blamed.ne_AC
    have earlier : ∀ o ∈ a.pre, o ∈ observations := fun o member => a.mem (by simp [member])
    have peak := passes_peak a.run fun o member => memory o (a.mem member)
    have charge := chargeTime_eq (time _ (a.mem (o := a.last) (by simp)))
    refine ⟨a.pre, a.last, a.lifetime_eq, ?_, ?_, ?_, a.exits.exited⟩
    · refine (passes_accepted_iff ?_ ?_).1 ⟨a.before, a.run, a.accepted⟩
      · exact fun o member => memory o (earlier o member)
      · exact fun o member => time o (earlier o member)
    · rw [← peak, ← p.memoryLimit_eq]
      exact a.exits.memory
    · rw [← charge, ← p.timeLimit_eq]
      exact a.exits.time
  · rintro ⟨stops, last, life, clean, exit⟩
    obtain ⟨post, split⟩ := upTo_split life exit.exited
    have member : ∀ o ∈ stops ++ [last], o ∈ observations := fun o inside =>
      (upTo_initial _ observations).subset (life ▸ inside)
    have earlier : ∀ o ∈ stops, o ∈ observations := fun o inside =>
      member o (List.mem_append_left _ inside)
    obtain ⟨w, run, accepted⟩ := (passes_accepted_iff (fun o inside => memory o (earlier o inside))
      (fun o inside => time o (earlier o inside))).2 clean
    have peak := passes_peak run fun o inside => memory o (member o inside)
    have charge := chargeTime_eq (time last (member last (by simp)))
    have exits : Exits p usedtime w.topmemory last :=
      { memory := by rw [peak, p.memoryLimit_eq]; exact exit.memory
        time := by rw [charge, p.timeLimit_eq]; exact exit.time
        exited := exit.exited }
    have left := drive_left_iff.2 ⟨stops, post, w, split, run, iteration_of_exits exits⟩
    let final : Watch :=
      { w with topmemory := max w.topmemory (tempmemory p.lang last), requests := [] }
    refine ⟨final, chargeTime usedtime last.ruse, ?_, accepted⟩
    rw [watchSolution, left]

end Watched

/-! ## The test loop -/

section Tests

variable {fallOff : Int} {p : Parameters}

/-- A test is passed when the watch and then `judge_solution` leave `JudgeAC`. -/
theorem runTest_accepts {b : Build} {s : Progress} {t : Test} :
    (∃ s', runTest b p s t = .ok s' ∧ s'.judgeFlag = .AC) ↔
      ∃ w used, watchSolution b.recordCall p s.usedtime s.topmemory
          (initSyscallsLimits b.recordCall p.lang) t.observations = .ok (w, used) ∧
        w.judgeFlag = .AC ∧
        judgeSolution p used w.topmemory t.answer t.output = some .AC := by
  unfold runTest
  constructor
  · rintro ⟨s', ran, flag⟩
    split at ran
    · cases ran
    · rename_i w used watched
      dsimp only at ran
      split at ran
      · rename_i accepted
        split at ran
        · cases ran
        · rename_i judged
          cases ran
          cases flag
          exact ⟨w, used, watched, accepted, judged⟩
      · rename_i refused
        cases ran
        exact absurd flag refused
  · rintro ⟨w, used, watched, accepted, judged⟩
    simp only [watched, accepted, judged, if_true]
    exact ⟨_, rfl, rfl⟩

variable (fallOff) in
/-- **One test.** -/
theorem runTest_accepted_iff {tests : List Test} {s : Progress} {t : Test}
    (charged : ChargedFor p tests s) (fits : FitsInt p.lang (tests ++ [t])) :
    (∃ s', runTest ⟨false, fallOff⟩ p s t = .ok s' ∧ s'.judgeFlag = .AC) ↔
      AcceptedAfter p tests t := by
  have memory : ∀ o ∈ t.observations, Fits (o.memory p.lang) := fits.memory t (by simp)
  have time := (eachAfter_snoc_iff.1 fits.time).2
  have peak := charged.topmemory fits.memory.initial
  have nonneg : 0 ≤ s.usedtime := charged.usedtime ▸ Int.natCast_nonneg _
  have peak_nonneg : 0 ≤ s.topmemory := peak ▸ le_runningMax _ _
  rw [← charged.usedtime] at time
  have watches : (∃ w used, watchSolution false p s.usedtime s.topmemory
        (initSyscallsLimits false p.lang) t.observations = .ok (w, used) ∧ w.judgeFlag = .AC) ↔
      CleanRun p s.usedtime s.topmemory t.observations := watch_accepted_iff memory time
  have compares : ∀ w used, watchSolution false p s.usedtime s.topmemory
      (initSyscallsLimits false p.lang) t.observations = .ok (w, used) → w.judgeFlag = .AC →
      judgeSolution p used w.topmemory t.answer t.output = compare t.answer t.output := by
    intro w used watched accepted
    rcases watchSolution_flag watched with blamed | ⟨-, ⟨watch⟩⟩
    · exact absurd accepted blamed.ne_AC
    · exact (acceptedWatch_within (b := ⟨false, fallOff⟩) watch time nonneg
        peak_nonneg).judgeSolution_eq _ _
  rw [runTest_accepts]
  constructor
  · rintro ⟨w, used, watched, accepted, judged⟩
    refine ⟨?_, compares w used watched accepted ▸ judged⟩
    rw [← charged.usedtime, ← peak]
    exact watches.1 ⟨w, used, watched, accepted⟩
  · rintro ⟨clean, answer⟩
    rw [← charged.usedtime, ← peak] at clean
    obtain ⟨w, used, watched, accepted⟩ := watches.2 clean
    exact ⟨w, used, watched, accepted, (compares w used watched accepted).trans answer⟩

theorem FitsInt.initial {lang : Int} {tests more : List Test}
    (fits : FitsInt lang (tests ++ more)) : FitsInt lang tests :=
  ⟨fits.memory.initial, EachAfter.initial fits.time⟩

/-- **The whole loop.** -/
theorem testLoop_accepted_iff {entries : List Entry}
    (fits : FitsInt p.lang (testsRun ⟨false, fallOff⟩ entries)) :
    (∃ s, testLoop ⟨false, fallOff⟩ p startProgress entries = .ok s ∧ s.judgeFlag = .AC) ↔
      EachAfter (AcceptedAfter p) (testsRun ⟨false, fallOff⟩ entries) := by
  induction entries using List.reverseRecOn with
  | nil => simpa [testsRun] using ⟨startProgress, rfl, rfl⟩
  | append_singleton entries e ih =>
      rw [testsRun_snoc] at fits ⊢
      have earlier := ih fits.initial
      by_cases test : isTest ⟨false, fallOff⟩ e
      · rw [if_pos test] at fits ⊢
        rw [eachAfter_snoc_iff, ← earlier]
        have charged : ∀ s, testLoop ⟨false, fallOff⟩ p startProgress entries = .ok s →
            s.judgeFlag = .AC → ChargedFor p (testsRun ⟨false, fallOff⟩ entries) s := by
          intro s loop accepted
          obtain ⟨tests, -, charged, all⟩ :=
            testLoop_charged fits.initial.time loop (by rw [accepted]; decide)
          exact all accepted ▸ charged
        constructor
        · rintro ⟨s', loop, flag⟩
          obtain ⟨s, reached, ⟨accepted, -, ran⟩ | ⟨rfl, skipped⟩⟩ := testLoop_snoc loop
          · exact ⟨⟨s, reached, accepted⟩,
              (runTest_accepted_iff fallOff (charged s reached accepted) fits).1 ⟨s', ran, flag⟩⟩
          · rw [skipped flag] at test
            cases test
        · rintro ⟨⟨s, reached, accepted⟩, passed⟩
          obtain ⟨s', ran, flag⟩ :=
            (runTest_accepted_iff fallOff (charged s reached accepted) fits).2 passed
          refine ⟨s', ?_, flag⟩
          rw [testLoop_append, reached]
          simp [testLoop, accepted, test, ran]
      · rw [if_neg test, List.append_nil, ← earlier]
        constructor
        · rintro ⟨s', loop, flag⟩
          obtain ⟨s, reached, ⟨-, taken, -⟩ | ⟨rfl, -⟩⟩ := testLoop_snoc loop
          · exact absurd taken test
          · exact ⟨s', reached, flag⟩
        · rintro ⟨s, reached, accepted⟩
          refine ⟨s, ?_, accepted⟩
          rw [testLoop_append, reached]
          simp [testLoop, accepted, test]

/-! ## The printed verdict -/

/-- The runner's line says this verdict. -/
def Prints (b : Build) (p : Parameters) (entries : List Entry) (j : Judge) : Prop :=
  ∃ r, runTests b p entries = .ok r ∧ r.judgeFlag = j

theorem prints_accepted_iff {entries : List Entry}
    (fits : FitsInt p.lang (testsRun ⟨false, fallOff⟩ entries)) :
    Prints ⟨false, fallOff⟩ p entries .AC ↔
      testsRun ⟨false, fallOff⟩ entries ≠ [] ∧
        EachAfter (AcceptedAfter p) (testsRun ⟨false, fallOff⟩ entries) := by
  rw [← testLoop_accepted_iff fits]
  unfold Prints runTests
  constructor
  · rintro ⟨r, ran, flag⟩
    split at ran
    · cases ran
    · rename_i s loop
      cases ran
      by_cases none_ : s.count = 0
      · simp [report, none_] at flag
      · have accepted : s.judgeFlag = .AC := by simpa [report, none_] using flag
        refine ⟨?_, s, loop, accepted⟩
        rintro empty
        exact none_ (by rw [testLoop_count loop accepted, empty]; rfl)
  · rintro ⟨some_, s, loop, accepted⟩
    have counted := testLoop_count loop accepted
    have positive : s.count ≠ 0 := by
      rw [counted]
      exact fun zero => some_ (List.length_eq_zero_iff.1 zero)
    refine ⟨report p s, by rw [loop], ?_⟩
    simp [report, positive, accepted]

end Tests

/-! ## Soundness and completeness of acceptance -/

/-- The runner's line may come to say this verdict: past a read outside `call_counter` it
may come to say any. -/
def MayPrint (b : Build) (p : Parameters) (entries : List Entry) (j : Judge) : Prop :=
  Prints b p entries j ∨ runTests b p entries = .error .undefined

/-- Whatever a build makes of the memory behind the table is among that. -/
theorem mayPrint_of_built {b : Build} {p : Parameters} {entries : List Entry} {behind : Behind}
    {r : Report} (ran : runTestsBuilt b p behind entries = .ok r) :
    MayPrint b p entries r.judgeFlag := by
  by_cases defined : runTests b p entries = .error .undefined
  · exact Or.inr defined
  · rw [runTestsBuilt_eq behind defined] at ran
    exact Or.inl ⟨r, ran, rfl⟩

/-- There is a test, and every test is a clean run with an accepted answer, charged after
the tests before it. -/
def AllClean (p : Parameters) (entries : List Entry) : Prop :=
  testsOf entries ≠ [] ∧ EachAfter (AcceptedAfter p) (testsOf entries)

/-- What may be printed is `JudgeAC` for clean tests and for no others, and for clean
tests it is printed. -/
structure AcceptsClean (b : Build) (p : Parameters) (entries : List Entry) : Prop where
  verdict : ∀ j, MayPrint b p entries j → (j = .AC ↔ AllClean p entries)
  printed : AllClean p entries → Prints b p entries .AC

theorem Prints.unique {b : Build} {p : Parameters} {entries : List Entry} {j j' : Judge}
    (prints : Prints b p entries j) (prints' : Prints b p entries j') : j = j' := by
  obtain ⟨r, ran, rfl⟩ := prints
  obtain ⟨r', ran', rfl⟩ := prints'
  rw [ran] at ran'
  cases ran'
  rfl

/-- **The runner accepts the clean runs and no others, exactly when every number it
checks is inside the table.** -/
theorem acceptsClean_iff_inside (fallOff : Int) (accepts : fallOff ≠ 0) (p : Parameters)
    (entries : List Entry) (fits : FitsInt p.lang (testsOf entries)) :
    AcceptsClean ⟨false, fallOff⟩ p entries ↔
      ∀ usedtime stops w o, Checks ⟨false, fallOff⟩ p entries usedtime stops w o →
        o.origRax.toNat < callArraySize := by
  have clean : Prints ⟨false, fallOff⟩ p entries .AC ↔ AllClean p entries := by
    have same := testsRun_eq_testsOf (b := ⟨false, fallOff⟩) accepts entries
    rw [AllClean, ← same]
    exact prints_accepted_iff (same.symm ▸ fits)
  have undefined := runTests_undefined_iff ⟨false, fallOff⟩ p entries
  constructor
  · intro right usedtime stops w o visit
    by_contra past
    -- any verdict may be printed, a good one and a bad one among them
    have any : ∀ j, MayPrint ⟨false, fallOff⟩ p entries j := fun j =>
      Or.inr (undefined.2 ⟨usedtime, stops, w, o, visit, not_lt.1 past⟩)
    have good := (right.verdict .AC (any .AC)).1 rfl
    have bad := (right.verdict .RE (any .RE)).2 good
    cases bad
  · intro inside
    have defined : runTests ⟨false, fallOff⟩ p entries ≠ .error .undefined := by
      intro failed
      obtain ⟨usedtime, stops, w, o, visit, past⟩ := undefined.1 failed
      exact absurd (inside usedtime stops w o visit) (not_lt.2 past)
    refine ⟨fun j may => ?_, clean.2⟩
    have prints := may.resolve_right defined
    constructor
    · rintro rfl
      exact clean.1 prints
    · intro all
      exact prints.unique (clean.2 all)

theorem acceptsClean_iff_inside_sample :
    AcceptsClean Sample.build Sample.parameters [Sample.entry [59, 231]] := by
  have one : testsOf [Sample.entry [59, 231]] = [Sample.test [59, 231]] := by decide
  have fits : FitsInt Sample.parameters.lang (testsOf [Sample.entry [59, 231]]) := by
    rw [one]
    exact ⟨by unfold MemoryFits; decide, eachAfter_singleton_iff.2 (by decide)⟩
  refine (acceptsClean_iff_inside 8 (by decide) _ _ fits).2 fun usedtime stops w o visit => ?_
  by_contra past
  have failed := runTests_of_visit visit (not_lt.1 past)
  exact absurd failed (by decide)

/-- A C program whose first stop is at system call 512: where the memory behind the table
is not 0 it is accepted, and its run is not clean. -/
theorem unclean_accepted_sample :
    (∃ r, runTestsBuilt Sample.build Sample.parameters (fun _ => some 1) [Sample.entry [512]] =
      .ok r ∧ r.judgeFlag = .AC) ∧
    ¬ AcceptsClean Sample.build Sample.parameters [Sample.entry [512]] := by
  have printed : runTestsBuilt Sample.build Sample.parameters (fun _ => some 1)
      [Sample.entry [512]] = .ok ⟨.AC, 1, 122880⟩ := by decide
  refine ⟨⟨_, printed, rfl⟩, fun right => ?_⟩
  obtain ⟨-, all⟩ := (right.verdict _ (mayPrint_of_built printed)).1 rfl
  have one : testsOf [Sample.entry [512]] = [Sample.test [512]] := by decide
  rw [one] at all
  obtain ⟨stops, last, life, clean, -⟩ := (eachAfter_singleton_iff.1 all).clean
  have shape : stops ++ [last] = [Sample.stop 512] ++ [Sample.exit] := life.symm.trans (by decide)
  obtain ⟨rfl, -⟩ := List.append_inj' shape rfl
  obtain ⟨number, same, -⟩ := (eachAfter_singleton_iff.1 clean).call
  have past : (512 : UInt64).toNat = 512 := by decide
  have inside : number.val < 512 := number.isLt
  have here : number.val = (512 : UInt64).toNat := same
  omega

end RunServer.Runner
