/-
# Runner.Measure -- is the memory measure exact?

`topmemory` should be the maximum, over every report the run has read, of the bytes
the child has used: its page faults for Java, `VmPeak` for the others
(`exactMemory`).  What is compared is an `int`, so for Java the page faults are taken
modulo 2^32; and where `VmPeak` reads 0 page faults are charged for C and C++ too.

`Looks` is a report the run comes to, with every report it has read before, in this
test and in the earlier ones; a run comes to none behind a checked stop at a number past
the table, since nothing is defined there (`Runner.Outside`).  `measured_iff` says for
which runs the measure is exact at every report.
-/
import RunServer.Runner.Finality
import RunServer.Runner.Limits
import RunServer.Runner.Memory

namespace RunServer.Runner

open RunServer.Theory
open RunServer.Theory.Loop

set_option autoImplicit false

/-! ## The reports of a run -/

/-- Bytes used, without narrowing and without a fallback. -/
def exactMemory (lang : Int) (o : Observation) : Int :=
  if lang = langJava then o.ruse.minflt * getpagesize else o.vmPeak * 1024

/-- What has been read when the tests of `entries` have been accepted. -/
def readBefore (b : Build) (entries : List Entry) : List Observation :=
  (testsRun b entries).flatMap fun t => lifetime t.observations

/-- A run over `entries` comes to the report `o`, in state `w` of a test it started in `s`,
after the reports `read`. -/
structure Looks (b : Build) (p : Parameters) (entries : List Entry) (s : Progress)
    (read : List Observation) (w : Watch) (o : Observation) : Prop where
  accepted : s.judgeFlag = .AC
  reached : ∃ before e after pre post, entries = before ++ e :: after ∧ isTest b e = true ∧
    testLoop b p startProgress before = .ok s ∧ e.test.observations = pre ++ o :: post ∧
    Passes (iteration b.recordCall p s.usedtime)
      (startWatch s.topmemory (initSyscallsLimits b.recordCall p.lang)) pre w ∧
    read = readBefore b before ++ pre

section Reports

variable {b : Build} {p : Parameters} {entries : List Entry} {s : Progress}
variable {read : List Observation} {w : Watch} {o : Observation}

theorem Looks.starts (looks : Looks b p entries s read w o) :
    ∃ t, StartsTest b p entries s t ∧ Comes b p s t.observations w o := by
  obtain ⟨before, e, after, pre, post, split, test, reached, observed, run, -⟩ := looks.reached
  exact ⟨e.test, ⟨looks.accepted, before, e, after, split, test, rfl, reached⟩,
    pre, post, observed, run⟩

theorem Looks.topmemory_le (looks : Looks b p entries s read w o) :
    w.topmemory ≤ p.memoryLimit := by
  obtain ⟨t, starts, pre, post, -, run⟩ := looks.starts
  exact passes_within run starts.memory_le

theorem Looks.more (looks : Looks b p entries s read w o) (later : List Entry) :
    Looks b p (entries ++ later) s read w o := by
  obtain ⟨before, e, after, pre, post, rfl, rest⟩ := looks.reached
  exact ⟨looks.accepted, before, e, after ++ later, pre, post, by simp, rest⟩

theorem readBefore_snoc (entries : List Entry) (e : Entry) :
    readBefore b (entries ++ [e]) =
      readBefore b entries ++ if isTest b e then lifetime e.test.observations else [] := by
  unfold readBefore
  rw [testsRun_snoc]
  split <;> simp

/-- **One more entry that leaves the run accepted**: no test, or one watched to its exit. -/
theorem testLoop_snoc_accepted {e : Entry}
    (loop : testLoop b p startProgress (entries ++ [e]) = .ok s) (accepted : s.judgeFlag = .AC) :
    ∃ before, testLoop b p startProgress entries = .ok before ∧ before.judgeFlag = .AC ∧
      (isTest b e = false ∧ s = before ∨
        isTest b e = true ∧ ∃ w, s.topmemory = w.topmemory ∧
          Nonempty (AcceptedWatch b.recordCall p before.usedtime
            (startWatch before.topmemory (initSyscallsLimits b.recordCall p.lang))
            e.test.observations w s.usedtime)) := by
  obtain ⟨before, reached, ⟨started, test, ran⟩ | ⟨rfl, noTest⟩⟩ := testLoop_snoc loop
  · refine ⟨before, reached, started, Or.inr ⟨test, ?_⟩⟩
    obtain ⟨-, blamed | ⟨w, top, watch, -⟩⟩ := runTest_cases ran
    · exact absurd accepted blamed.ne_AC
    · exact ⟨w, top, watch⟩
  · exact ⟨s, reached, accepted, Or.inl ⟨noTest accepted, rfl⟩⟩

/-- The memory charged is the maximum of what was read. -/
theorem testLoop_topmemory (loop : testLoop b p startProgress entries = .ok s)
    (accepted : s.judgeFlag = .AC) :
    s.topmemory = runningMax 0 ((readBefore b entries).map (tempmemory p.lang)) := by
  induction entries using List.reverseRecOn generalizing s with
  | nil =>
      cases loop
      rfl
  | append_singleton entries e ih =>
      rw [readBefore_snoc]
      obtain ⟨before, reached, started, ⟨noTest, rfl⟩ | ⟨test, w, top, ⟨watch⟩⟩⟩ :=
        testLoop_snoc_accepted loop accepted
      · simpa [noTest] using ih reached started
      · rw [if_pos test, watch.lifetime_eq, List.map_append, runningMax_append,
          ← ih reached started, top, watch.topmemory_eq]
        rfl

theorem Looks.topmemory_eq (looks : Looks b p entries s read w o) :
    w.topmemory = runningMax 0 (read.map (tempmemory p.lang)) := by
  obtain ⟨before, e, after, pre, post, -, -, reached, -, run, rfl⟩ := looks.reached
  rw [passes_topmemory run, List.map_append, runningMax_append,
    ← testLoop_topmemory reached looks.accepted]
  rfl

/-- Every report on the way of a watch is looked at. -/
theorem eachLooked_of_passes {before after : List Entry} {e : Entry} {pre post : List Observation}
    (accepted : s.judgeFlag = .AC) (test : isTest b e = true)
    (reached : testLoop b p startProgress before = .ok s)
    (observed : e.test.observations = pre ++ post)
    (run : Passes (iteration b.recordCall p s.usedtime)
      (startWatch s.topmemory (initSyscallsLimits b.recordCall p.lang)) pre w) :
    EachAfter (fun earlier o => ∃ s w,
      Looks b p (before ++ e :: after) s (readBefore b before ++ earlier) w o) pre := by
  rintro earlier o rest rfl
  obtain ⟨w', first, -⟩ := run.split
  exact ⟨s, w', accepted, before, e, after, earlier, rest ++ post, rfl, test, reached,
    by simpa using observed, first, rfl⟩

theorem eachLooked_of_accepted {before : List Entry}
    (loop : testLoop b p startProgress before = .ok s) (accepted : s.judgeFlag = .AC) :
    EachAfter (fun earlier o => ∃ s w, Looks b p before s earlier w o) (readBefore b before) := by
  induction before using List.reverseRecOn generalizing s with
  | nil => simp [readBefore, testsRun]
  | append_singleton before e ih =>
      rw [readBefore_snoc]
      obtain ⟨start, reached, started, ends⟩ := testLoop_snoc_accepted loop accepted
      have earlier : EachAfter (fun read o => ∃ s w, Looks b p (before ++ [e]) s read w o)
          (readBefore b before) := by
        refine (ih reached started).mono ?_
        rintro read o ⟨s, w, looks⟩
        exact ⟨s, w, looks.more [e]⟩
      obtain ⟨noTest, rfl⟩ | ⟨test, w, -, ⟨watch⟩⟩ := ends
      · simpa [noTest] using earlier
      · rw [if_pos test, watch.lifetime_eq, eachAfter_append_iff, eachAfter_snoc_iff]
        refine ⟨earlier, ?_, start, watch.before, started, before, e, [], watch.pre, watch.post,
          rfl, test, reached, watch.split, watch.run, rfl⟩
        exact eachLooked_of_passes started test reached watch.split watch.run

/-- **Every report read was looked at in its turn.** -/
theorem Looks.each (looks : Looks b p entries s read w o) :
    EachAfter (fun earlier o => ∃ s w, Looks b p entries s earlier w o) read := by
  obtain ⟨before, e, after, pre, post, rfl, test, reached, observed, run, rfl⟩ := looks.reached
  rw [eachAfter_append_iff]
  refine ⟨?_, eachLooked_of_passes looks.accepted test reached observed run⟩
  refine (eachLooked_of_accepted reached looks.accepted).mono ?_
  rintro read o ⟨s, w, looked⟩
  exact ⟨s, w, looked.more (e :: after)⟩

end Reports

/-! ## The measure -/

/-- At the report `o` the memory charged is the exact maximum, and more than the limit ends
the run. -/
structure Measured (b : Build) (p : Parameters) (entries : List Entry) (s : Progress)
    (read : List Observation) (w : Watch) (o : Observation) : Prop where
  maximum : max w.topmemory (tempmemory p.lang o) =
    runningMax 0 ((read ++ [o]).map (exactMemory p.lang))
  limit : p.memLmt * stdMB < exactMemory p.lang o →
    ∃ w' r, iteration b.recordCall p s.usedtime w o = .ok (.leave w') ∧ w'.judgeFlag = .MLE ∧
      runTests b p entries = .ok r ∧ r.judgeFlag = .MLE

/-- What `int` keeps of the measure: for Java all of it, for the others no more of the page
faults at a `VmPeak` of 0 than the maximum so far. -/
structure Kept (p : Parameters) (read : List Observation) (o : Observation) : Prop where
  java : p.lang = langJava → o.ruse.minflt * getpagesize < 2 ^ 31
  native : p.lang ≠ langJava → o.vmPeak = 0 →
    getPageFaultMem o.ruse ≤ runningMax 0 (read.map (exactMemory p.lang))

/-- The kernel keeps the address space within `RLIMIT_AS`. -/
def WithinLimitAs (p : Parameters) (s : Progress) (o : Observation) : Prop :=
  ∀ as, (runSolutionLimits p s.usedtime).as = some as →
    0 ≤ o.vmPeak ∧ o.vmPeak * 1024 ≤ as.cur

section Measure

variable {b : Build} {p : Parameters} {entries : List Entry} {s : Progress}
variable {read : List Observation} {w : Watch} {o : Observation}

/-- One and a half times the largest memory limit is less than 2^31. -/
theorem WithinLimitAs.range (within : WithinLimitAs p s o) (native : p.lang ≠ langJava) :
    0 ≤ o.vmPeak ∧ o.vmPeak < 2 ^ 21 := by
  have memLmt := p.memLmt_range
  have bound := within _ (if_neg native)
  rw [installedCur_eq] at bound
  unfold stdMB at bound
  omega

theorem exactMemory_native (native : p.lang ≠ langJava) :
    exactMemory p.lang o = o.vmPeak * 1024 := if_neg native

/-- A report whose measure is kept adds to the maximum what it should. -/
theorem Kept.max_eq (kept : Kept p read o) (within : WithinLimitAs p s o) :
    max (runningMax 0 (read.map (exactMemory p.lang))) (tempmemory p.lang o) =
      max (runningMax 0 (read.map (exactMemory p.lang))) (exactMemory p.lang o) := by
  by_cases java : p.lang = langJava
  · have faults := kept.java java
    unfold tempmemory exactMemory getPageFaultMem
    unfold getpagesize at faults ⊢
    rw [if_pos java, if_pos java, int32_of_fits ⟨by omega, by omega⟩]
  · have peak := tempmemory_of_peak java (within.range java)
    rw [exactMemory_native java, peak]
    split
    · rename_i absent
      have nonneg := le_runningMax 0 (read.map (exactMemory p.lang))
      rw [absent, zero_mul, max_eq_left nonneg, max_eq_left (kept.native java absent)]
    · rfl

theorem Looks.topmemory_exact (looks : Looks b p entries s read w o)
    (within : ∀ s read w o, Looks b p entries s read w o → WithinLimitAs p s o)
    (kept : ∀ s read w o, Looks b p entries s read w o → Kept p read o) :
    w.topmemory = runningMax 0 (read.map (exactMemory p.lang)) := by
  rw [looks.topmemory_eq]
  refine runningMax_map_congr (looks.each.mono ?_)
  rintro earlier o ⟨s, w, looked⟩
  exact (kept _ _ _ _ looked).max_eq (within _ _ _ _ looked)

/-- A test that is refused is the last one. -/
theorem runTests_of_refused {before after : List Entry} {e : Entry} {s' : Progress}
    (reached : testLoop b p startProgress before = .ok s) (accepted : s.judgeFlag = .AC)
    (test : isTest b e = true) (ran : runTest b p s e.test = .ok s')
    (refused : s'.judgeFlag ≠ .AC) :
    runTests b p (before ++ e :: after) = .ok (report p s') := by
  have stops : testLoop b p s' after = .ok s' := by
    cases after with
    | nil => rfl
    | cons next after => simp [testLoop, refused]
  unfold runTests
  rw [testLoop_append, reached]
  simp [testLoop, accepted, test, ran, stops]

/-- A reading above the limit ends the run. -/
theorem Looks.ends (looks : Looks b p entries s read w o)
    (exceeds : p.memoryLimit < tempmemory p.lang o) :
    ∃ w' r, iteration b.recordCall p s.usedtime w o = .ok (.leave w') ∧ w'.judgeFlag = .MLE ∧
      runTests b p entries = .ok r ∧ r.judgeFlag = .MLE := by
  obtain ⟨before, e, after, pre, post, rfl, test, reached, observed, run, -⟩ := looks.reached
  obtain ⟨w', leaves, flag⟩ :=
    @iteration_of_exceeds p b.recordCall s.usedtime w o exceeds
  have watched := drive_left_iff.2 ⟨pre, post, w, observed, run, leaves⟩
  have ran : runTest b p s e.test = .ok
      { judgeFlag := .MLE, usedtime := chargeTime s.usedtime o.ruse, topmemory := w'.topmemory,
        count := s.count + 1, callCounter := w'.callCounter } := by
    simp [runTest, watchSolution, watched, flag]
  refine ⟨w', _, leaves, flag, runTests_of_refused reached looks.accepted test ran (by simp), ?_⟩
  simp [report]

/-- What is kept is measured. -/
theorem Looks.measured (looks : Looks b p entries s read w o)
    (within : ∀ s read w o, Looks b p entries s read w o → WithinLimitAs p s o)
    (kept : ∀ s read w o, Looks b p entries s read w o → Kept p read o) :
    Measured b p entries s read w o := by
  have top := looks.topmemory_exact within kept
  have largest := (kept _ _ _ _ looks).max_eq (within _ _ _ _ looks)
  refine ⟨?_, fun exceeds => ?_⟩
  · rw [top, largest]
    simp
  · rw [← p.memoryLimit_eq] at exceeds
    have above : p.memoryLimit < max w.topmemory (tempmemory p.lang o) := by
      rw [top, largest]
      exact lt_max_of_lt_right exceeds
    exact looks.ends ((lt_max_iff.1 above).resolve_left (not_lt.2 looks.topmemory_le))

/-- What is measured has been kept. -/
theorem Looks.kept (looks : Looks b p entries s read w o) (within : WithinLimitAs p s o)
    (measured : Measured b p entries s read w o) : Kept p read o := by
  have limit := p.memoryLimit_range
  have top := looks.topmemory_le
  have maximum := measured.maximum
  rw [List.map_append, List.map_singleton, runningMax_snoc] at maximum
  refine ⟨fun java => ?_, fun native absent => ?_⟩
  · have charged : exactMemory p.lang o ≤ max w.topmemory (tempmemory p.lang o) := by
      rw [maximum]
      exact le_max_right _ _
    have narrow : tempmemory p.lang o < 2 ^ 31 := by
      unfold tempmemory
      rw [if_pos java]
      exact (int32_fits _).2
    unfold exactMemory at charged
    unfold stdMB at limit
    rw [if_pos java] at charged
    omega
  · have charged : tempmemory p.lang o ≤ max w.topmemory (tempmemory p.lang o) := le_max_right _ _
    have nonneg := le_runningMax 0 (read.map (exactMemory p.lang))
    rw [maximum, exactMemory_native native, absent, zero_mul, max_eq_left nonneg,
      tempmemory_of_peak native (within.range native), if_pos absent] at charged
    exact charged

end Measure

namespace Sample

/-- A child with 2000 kB at its stop and 100 page faults (400 kB) when it exits. -/
def modest : Entry :=
  { entry [] with test := ⟨[{ stop 59 with vmPeak := 2000 },
      { exit with ruse := ⟨⟨0, 1000⟩, ⟨0, 0⟩, 100⟩ }], some [], some []⟩ }

theorem looks_modest {s : Progress} {read : List Observation} {w : Watch} {o : Observation}
    (looks : Looks build parameters [modest] s read w o) :
    o.vmPeak = 2000 ∨ o.vmPeak = 0 ∧ getPageFaultMem o.ruse = 409600 ∧
      read.map (exactMemory langC) = [2048000] := by
  obtain ⟨before, e, after, pre, post, split, -, -, observed, -, rfl⟩ := looks.reached
  obtain ⟨rfl, rfl, rfl⟩ : before = [] ∧ e = modest ∧ after = [] := by
    cases before <;> simp_all
  rcases pre with _ | ⟨first, _ | ⟨second, rest⟩⟩
  · cases observed
    exact Or.inl rfl
  · cases observed
    exact Or.inr ⟨rfl, by decide, by decide⟩
  · simp [modest] at observed

/-- Java, one second, 64 MB. -/
def javaParameters : Parameters := { parameters with lang := langJava }

/-- A Java program that has 2^20 page faults (4 GB) at its second stop. -/
def faults : Entry :=
  { entry [] with test := ⟨[stop 59, { stop 9 with ruse := ⟨⟨0, 1000⟩, ⟨0, 0⟩, 1048576⟩ }, exit],
      some [], some []⟩ }

end Sample

end RunServer.Runner
