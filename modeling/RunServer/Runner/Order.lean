/-
# Runner.Order -- acceptance does not depend on the order of the directory

`readdir` gives the tests in no particular order, while the time is charged from
one test to the next and checked at every stop.  When the usage of a child never
falls along its reports, its last check is the strictest one.  So a directory is
accepted exactly when every test is accepted on its own and the whole time is
below the limit (`acceptedAfter_iff`), and neither of these sees an order.
-/
import RunServer.Runner.Acceptance

namespace RunServer.Runner

open RunServer.Theory
open RunServer.Theory.Loop

set_option autoImplicit false

/-! ## Usage that does not fall -/

def Timeval.us (t : Timeval) : Nat := t.sec * 1000000 + t.usec

theorem Timeval.ms_eq (t : Timeval) : t.ms = t.us / 1000 := by
  unfold Timeval.ms Timeval.us
  omega

/-- Neither of the two times of the later usage is smaller. -/
def Rusage.AtMost (earlier later : Rusage) : Prop :=
  earlier.utime.us ≤ later.utime.us ∧ earlier.stime.us ≤ later.stime.us

instance (earlier later : Rusage) : Decidable (earlier.AtMost later) := by
  unfold Rusage.AtMost; infer_instance

theorem Rusage.AtMost.ms {earlier later : Rusage} (grows : earlier.AtMost later) :
    earlier.ms ≤ later.ms := by
  unfold Rusage.ms
  rw [Timeval.ms_eq, Timeval.ms_eq, Timeval.ms_eq, Timeval.ms_eq]
  exact Nat.add_le_add (Nat.div_le_div_right grows.1) (Nat.div_le_div_right grows.2)

def UsageGrows (t : Test) : Prop :=
  t.observations.Pairwise fun o later => o.ruse.AtMost later.ruse

instance (t : Test) : Decidable (UsageGrows t) := by unfold UsageGrows; infer_instance

/-- No report of a child is charged more than its exit. -/
theorem UsageGrows.le_last {t : Test} (grows : UsageGrows t) {stops : List Observation}
    {last : Observation} (life : lifetime t.observations = stops ++ [last]) :
    ∀ o ∈ stops, o.ruse.ms ≤ last.ruse.ms := by
  intro o member
  have alive : (lifetime t.observations).Pairwise fun o later => o.ruse.AtMost later.ruse :=
    grows.sublist (upTo_initial _ t.observations).sublist
  rw [life, List.pairwise_append] at alive
  exact (alive.2.2 o member last (by simp)).ms

/-! ## A test on its own -/

section Alone

variable {p : Parameters} {used peak : Int}

theorem clean_iff {stops : List Observation} {o : Observation} (nonneg : 0 ≤ used) :
    Clean p used peak stops o ↔
      Clean p 0 0 stops o ∧ peak ≤ p.memLmt * stdMB ∧ used + o.ruse.ms < p.timeLmt * 1000 := by
  have zero : 0 ≤ p.memLmt * stdMB := by
    have range := p.memLmt_range
    unfold stdMB
    omega
  constructor
  · intro clean
    have memory := runningMax_le_iff.1 clean.memory
    refine ⟨{ clean with memory := ?_, time := ?_ }, memory.1, clean.time⟩
    · exact runningMax_le_iff.2 ⟨zero, memory.2⟩
    · have time := clean.time
      omega
  · rintro ⟨clean, within, time⟩
    have memory := runningMax_le_iff.1 clean.memory
    exact { clean with memory := runningMax_le_iff.2 ⟨within, memory.2⟩, time := time }

theorem cleanExit_iff {stops : List Observation} {o : Observation} (nonneg : 0 ≤ used) :
    CleanExit p used peak stops o ↔
      CleanExit p 0 0 stops o ∧ peak ≤ p.memLmt * stdMB ∧
        used + o.ruse.ms < p.timeLmt * 1000 := by
  have zero : 0 ≤ p.memLmt * stdMB := by
    have range := p.memLmt_range
    unfold stdMB
    omega
  constructor
  · intro exit
    have memory := runningMax_le_iff.1 exit.memory
    refine ⟨{ exit with memory := ?_, time := ?_ }, memory.1, exit.time⟩
    · exact runningMax_le_iff.2 ⟨zero, memory.2⟩
    · have time := exit.time
      omega
  · rintro ⟨exit, within, time⟩
    have memory := runningMax_le_iff.1 exit.memory
    exact { exit with memory := runningMax_le_iff.2 ⟨within, memory.2⟩, time := time }

/-- **What earlier tests can do to a test**: take its time, or have taken too much memory. -/
theorem cleanRun_iff {t : Test} (nonneg : 0 ≤ used) (grows : UsageGrows t) :
    CleanRun p used peak t.observations ↔
      CleanRun p 0 0 t.observations ∧ peak ≤ p.memLmt * stdMB ∧
        used + t.time < p.timeLmt * 1000 := by
  have time_eq : ∀ {stops : List Observation} {last : Observation},
      lifetime t.observations = stops ++ [last] → t.time = last.ruse.ms := by
    intro stops last life
    simp [Test.time, life]
  constructor
  · rintro ⟨stops, last, life, clean, exit⟩
    obtain ⟨exit, within, time⟩ := (cleanExit_iff nonneg).1 exit
    have alone := clean.mono fun stops o one => ((clean_iff nonneg).1 one).1
    exact ⟨⟨stops, last, life, alone, exit⟩, within, time_eq life ▸ time⟩
  · rintro ⟨⟨stops, last, life, clean, exit⟩, within, time⟩
    rw [time_eq life] at time
    refine ⟨stops, last, life, ?_, (cleanExit_iff nonneg).2 ⟨exit, within, time⟩⟩
    intro before o after split
    have smaller := grows.le_last life o (by simp [split])
    exact (clean_iff nonneg).2 ⟨clean before o after split, within, by omega⟩

theorem AcceptedAfter.readings_le {t : Test} (alone : AcceptedAfter p [] t) :
    ∀ reading ∈ t.readings p.lang, reading ≤ p.memLmt * stdMB := by
  obtain ⟨stops, last, life, -, exit⟩ := alone.clean
  have memory := (runningMax_le_iff.1 exit.memory).2
  unfold Test.readings
  rw [life]
  exact memory

end Alone

/-! ## Every test of a directory -/

section Directory

variable {p : Parameters}

/-- **Acceptance without an order.** -/
theorem acceptedAfter_iff {tests : List Test} (grows : ∀ t ∈ tests, UsageGrows t) :
    EachAfter (AcceptedAfter p) tests ↔
      (∀ t ∈ tests, AcceptedAfter p [] t) ∧ (spent tests : Int) < p.timeLmt * 1000 := by
  have range := p.timeLmt_range
  have memoryRange := p.memLmt_range
  induction tests using List.reverseRecOn with
  | nil => simp; omega
  | append_singleton tests t ih =>
      have earlier : EachAfter (AcceptedAfter p) tests ↔
          (∀ x ∈ tests, AcceptedAfter p [] x) ∧ (spent tests : Int) < p.timeLmt * 1000 :=
        ih fun x member => grows x (List.mem_append_left _ member)
      have one : CleanRun p (spent tests) (runningMax 0 (readingsOf p.lang tests))
          t.observations ↔ _ := cleanRun_iff (Int.natCast_nonneg _) (grows t (by simp))
      rw [eachAfter_snoc_iff, earlier]
      constructor
      · rintro ⟨⟨all, -⟩, now⟩
        obtain ⟨alone, -, time⟩ := one.1 now.clean
        refine ⟨fun x member => ?_, by simpa using time⟩
        rcases List.mem_append.1 member with before | here
        · exact all x before
        · rw [List.mem_singleton.1 here]
          exact ⟨alone, now.answer⟩
      · rintro ⟨all, time⟩
        have before : ∀ x ∈ tests, AcceptedAfter p [] x :=
          fun x member => all x (List.mem_append_left _ member)
        have alone := all t (by simp)
        have peak : runningMax 0 (readingsOf p.lang tests) ≤ p.memLmt * stdMB := by
          refine runningMax_le_iff.2 ⟨by unfold stdMB; omega, fun reading member => ?_⟩
          obtain ⟨x, inside, read⟩ := List.mem_flatMap.1 member
          exact (before x inside).readings_le reading read
        rw [spent_snoc, Nat.cast_add] at time
        exact ⟨⟨before, by omega⟩, one.2 ⟨alone.clean, peak, time⟩, alone.answer⟩

theorem testsOf_perm {entries entries' : List Entry} (perm : entries.Perm entries') :
    (testsOf entries).Perm (testsOf entries') := (perm.filter _).map _

theorem spent_perm {tests tests' : List Test} (perm : tests.Perm tests') :
    spent tests = spent tests' := (perm.map _).sum_nat

theorem readingsOf_perm (lang : Int) {tests tests' : List Test} (perm : tests.Perm tests') :
    (readingsOf lang tests).Perm (readingsOf lang tests') := perm.flatMap_right _

/-- What an accepted directory is charged. -/
theorem accepted_report {fallOff : Int} {entries : List Entry} {r : Report}
    (fits : FitsInt p.lang (testsRun ⟨false, fallOff⟩ entries))
    (ran : runTests ⟨false, fallOff⟩ p entries = .ok r) (accepted : r.judgeFlag = .AC) :
    r.usedtime = spent (testsRun ⟨false, fallOff⟩ entries) ∧
      r.topmemory = runningMax 0 (readingsOf p.lang (testsRun ⟨false, fallOff⟩ entries)) := by
  unfold runTests at ran
  split at ran
  · cases ran
  · rename_i s loop
    cases ran
    have flag : s.judgeFlag = .AC := by
      by_cases none_ : s.count = 0
      · simp [report, none_] at accepted
      · simpa [report, none_] using accepted
    obtain ⟨tests, -, charged, all⟩ := testLoop_charged fits.time loop (by rw [flag]; decide)
    rw [all flag] at charged
    refine ⟨?_, charged.topmemory fits.memory⟩
    unfold report at accepted ⊢
    dsimp only at accepted ⊢
    rw [accepted, if_neg (by decide), charged.usedtime]

end Directory

end RunServer.Runner
