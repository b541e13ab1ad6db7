/-
# Runner.Sandbox -- the system call check as a sandbox

`Checks` is one visit of the check in a run of the runner: some test is started,
its child has made some stops, and the next one is let through to the check.
`Confined` is what a sandbox owes at such a visit: the counter is read inside its
512 entries, the child is resumed with `JudgeAC` only at a number the language's
tables entered and left budget for, and any other number is rejected.

The index is never compared with the size of the table, so a visit at a number
past it reads outside (`confined_iff_inside`); that is the only way the check
fails.
-/
import RunServer.Runner.Counter

namespace RunServer.Runner

open RunServer.Theory
open RunServer.Theory.Loop

set_option autoImplicit false

/-- In a run over `entries`, the check is reached at `o`, in state `w`, with
`usedtime` charged to earlier tests and `stops` the earlier stops of this one. -/
structure Checks (b : Build) (p : Parameters) (entries : List Entry) (usedtime : Int)
    (stops : List Observation) (w : Watch) (o : Observation) : Prop where
  started : ∃ s t post, StartsTest b p entries s t ∧ s.usedtime = usedtime ∧
    t.observations = stops ++ o :: post ∧
    Passes (iteration b.recordCall p usedtime)
      (startWatch s.topmemory (initSyscallsLimits b.recordCall p.lang)) stops w
  pass : Passable p usedtime w.topmemory o

/-- What the pass at `o` owes, after the earlier stops of the test.  A rejected child is
killed, and nothing reported after that makes the verdict good again. -/
structure Confined (p : Parameters) (usedtime : Int) (stops : List Observation) (w : Watch)
    (o : Observation) : Prop where
  inside : ∀ index, iteration false p usedtime w o ≠ .error (.outOfBounds index)
  resumed : ∀ w', iteration false p usedtime w o = .ok (.again w') → w'.judgeFlag = .AC →
    ∃ number : Fin callArraySize, number.val = o.origRax.toNat ∧ Entered p.lang number ∧
      remainingCalls p.lang stops number ≠ 0
  rejected :
    (∀ number : Fin callArraySize, number.val = o.origRax.toNat → ¬ Entered p.lang number) →
      ∃ w', iteration false p usedtime w o = .ok (.again w') ∧ w'.judgeFlag = .RE ∧
        .ptraceKill ∈ w'.requests ∧
        ∀ rest final last, drive (iteration false p usedtime) w' rest = .left final last →
          Blamed final.judgeFlag

section Visit

variable {fallOff : Int} {p : Parameters} {entries : List Entry} {usedtime : Int}
variable {stops : List Observation} {w : Watch} {o : Observation}

/-- A rejected number is reported and the child is killed. -/
theorem checkSyscall_rejects {callid : UInt64} {w : Watch} (inside : callid.toNat < callArraySize)
    (spent : w.callCounter ⟨callid.toNat, inside⟩ = 0) :
    ∃ w', checkSyscall false callid w = .ok (.again w') ∧ w'.judgeFlag = .RE ∧
      .ptraceKill ∈ w'.requests := by
  simp [checkSyscall, inside, spent]

theorem Checks.outside {b : Build} (visit : Checks b p entries usedtime stops w o)
    (past : callArraySize ≤ o.origRax.toNat) :
    iteration b.recordCall p usedtime w o = .error (.outOfBounds o.origRax) :=
  error_of_outside visit.pass past

/-- Inside the table the check is sound. -/
theorem Checks.confined (visit : Checks ⟨false, fallOff⟩ p entries usedtime stops w o)
    (inside : o.origRax.toNat < callArraySize) :
    Confined p usedtime stops w o := by
  obtain ⟨s, t, post, -, -, -, run⟩ := visit.started
  have entries := (passes_counter run).2
  refine ⟨fun index failed => ?_, fun w' turn flag => ?_, fun absent => ?_⟩
  · have past := (outside_of_error failed).2
    omega
  · obtain ⟨inside, -, decides, -⟩ := counter_of_again (passable_of_again turn).2
    dsimp only at decides
    have left : remainingCalls p.lang stops ⟨o.origRax.toNat, inside⟩ ≠ 0 := by
      intro spent
      rw [entries, spent, if_pos rfl, flag] at decides
      cases decides
    exact ⟨_, rfl, remainingCalls_entered left, left⟩
  · rw [iteration_of_passable visit.pass]
    have spent : w.callCounter ⟨o.origRax.toNat, inside⟩ = 0 := by
      rw [entries]
      exact remainingCalls_of_not_entered (absent _ rfl) stops
    obtain ⟨w', turn, flag, killed⟩ := checkSyscall_rejects inside
      (w := { w with topmemory := max w.topmemory (tempmemory p.lang o) }) spent
    exact ⟨w', turn, flag, killed, fun rest final last => drive_flagged flag⟩

end Visit

/-- **The sandbox holds exactly while every checked number is inside the table.** -/
theorem confined_iff_inside (fallOff : Int) (p : Parameters) (entries : List Entry) :
    (∀ usedtime stops w o, Checks ⟨false, fallOff⟩ p entries usedtime stops w o →
      Confined p usedtime stops w o) ↔
    ∀ usedtime stops w o, Checks ⟨false, fallOff⟩ p entries usedtime stops w o →
      o.origRax.toNat < callArraySize := by
  constructor
  · intro confined usedtime stops w o visit
    by_contra past
    exact (confined usedtime stops w o visit).inside _ (visit.outside (not_lt.1 past))
  · intro inside usedtime stops w o visit
    exact visit.confined (inside usedtime stops w o visit)

/-- A C program whose first stop is at system call 512. -/
theorem unconfined_sample :
    ¬ ∀ usedtime stops w o,
      Checks Sample.build Sample.parameters [Sample.entry [512]] usedtime stops w o →
      Confined Sample.parameters usedtime stops w o := by
  intro confined
  have visit : Checks Sample.build Sample.parameters [Sample.entry [512]] 0 []
      (startWatch 0 (initSyscallsLimits false langC)) (Sample.stop 512) :=
    { started := ⟨startProgress, Sample.test [512], [Sample.exit],
        ⟨rfl, [], Sample.entry [512], [], rfl, by decide, rfl, rfl⟩, rfl, rfl, .nil _⟩
      pass := by constructor <;> decide }
  exact (confined _ _ _ _ visit).inside 512 (visit.outside (by decide))

end RunServer.Runner
