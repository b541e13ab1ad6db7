/-
# Runner.Counter -- the system call counter over a whole watch

`call_counter` is filled anew for each test, read at every stop, and decremented
at every second one (`sub == 1`) while it is positive.  `remainingCalls` says what
an entry holds after given stops, from the stops alone (`passes_counter`): a
positive limit less the second stops of that number, never below zero; any other
entry as it was filled.
-/
import RunServer.Runner.Usage

namespace RunServer.Runner

open RunServer.Theory
open RunServer.Theory.Loop

set_option autoImplicit false

/-! ## One check -/

section Check

variable {callid : UInt64} {w w' : Watch}

/-- **What another turn after the check says**: the number is inside the table, its
entry decides about the flag, and only a second stop takes from a positive entry. -/
theorem counter_of_again (turn : checkSyscall false callid w = .ok (.again w')) :
    ∃ inside : callid.toNat < callArraySize,
      w'.sub = 1 - w.sub ∧
      w'.judgeFlag = (if w.callCounter ⟨callid.toNat, inside⟩ = 0 then .RE else w.judgeFlag) ∧
      ∀ number : Fin callArraySize, w'.callCounter number =
        if (w.sub = 1 ∧ callid.toNat = number.val) ∧ 0 < w.callCounter number then
          w.callCounter number - 1
        else w.callCounter number := by
  unfold checkSyscall at turn
  split at turn
  · rename_i inside
    refine ⟨inside, ?_⟩
    have here : ∀ number : Fin callArraySize,
        callid.toNat = number.val ↔ number = ⟨callid.toNat, inside⟩ :=
      fun number => ⟨fun same => Fin.ext same.symm, fun same => by rw [same]⟩
    simp only [here]
    dsimp only at turn
    by_cases spent : w.callCounter ⟨callid.toNat, inside⟩ = 0
    · simp only [spent, Bool.not_false, decide_true, Bool.and_self, if_true] at turn
      cases turn
      refine ⟨rfl, (if_pos spent).symm, fun number => ?_⟩
      rw [if_neg]
      rintro ⟨⟨-, rfl⟩, positive⟩
      omega
    · simp only [spent, decide_false, Bool.and_false, Bool.false_eq_true, if_false] at turn
      cases turn
      refine ⟨rfl, (if_neg spent).symm, fun number => ?_⟩
      by_cases same : number = ⟨callid.toNat, inside⟩
      · subst same
        by_cases second : w.sub = 1 ∧ w.callCounter ⟨callid.toNat, inside⟩ > 0
        · simp [second]
        · simp [second]
      · by_cases second : w.sub = 1 ∧ w.callCounter ⟨callid.toNat, inside⟩ > 0
        · simp [second, same]
        · simp [second, same]
  · cases turn

end Check

section Allows

variable {recordCall : Bool} {w w' : Watch} {callid : UInt64}

theorem inside_of_again
    (turn : checkSyscall recordCall callid w = .ok (.again w')) : callid.toNat < callArraySize := by
  by_contra past
  simp [checkSyscall, past] at turn

/-- A number with calls left: the flag stays, and nothing but the resumption is asked for. -/
theorem checkSyscall_allows (inside : callid.toNat < callArraySize)
    (left : recordCall = true ∨ w.callCounter ⟨callid.toNat, inside⟩ ≠ 0) :
    ∃ callCounter, checkSyscall recordCall callid w =
      .ok (.again { w with
        callCounter, sub := 1 - w.sub, requests := [.ptraceGetregs, .ptraceSyscall] }) := by
  have taken : ¬ (!recordCall && w.callCounter ⟨callid.toNat, inside⟩ = 0) = true := by
    rcases left with recorded | budget
    · simp [recorded]
    · simp [budget]
  simp only [checkSyscall, inside, dif_pos, if_neg taken]
  exact ⟨_, rfl⟩

end Allows

/-! ## The counter after given stops -/

/-- How many of the second, fourth, ... of these stops are at call `number`. -/
def secondStops (stops : List Observation) (number : Fin callArraySize) : Nat :=
  stops.zipIdx.countP fun x => x.2 % 2 = 1 ∧ x.1.origRax.toNat = number.val

/-- The entry of `number` in `call_counter` after these stops of a test. -/
def remainingCalls (lang : Int) (stops : List Observation) (number : Fin callArraySize) : Int :=
  let limit := initSyscallsLimits false lang number
  if 0 < limit then max 0 (limit - secondStops stops number) else limit

theorem secondStops_snoc (stops : List Observation) (o : Observation)
    (number : Fin callArraySize) :
    secondStops (stops ++ [o]) number =
      secondStops stops number +
        if stops.length % 2 = 1 ∧ o.origRax.toNat = number.val then 1 else 0 := by
  simp [secondStops, List.zipIdx_append, List.countP_append, List.countP_cons]

theorem remainingCalls_nil (lang : Int) (number : Fin callArraySize) :
    remainingCalls lang [] number = initSyscallsLimits false lang number := by
  have empty : secondStops [] number = 0 := rfl
  simp only [remainingCalls, empty]
  split <;> omega

theorem remainingCalls_snoc (lang : Int) (stops : List Observation) (o : Observation)
    (number : Fin callArraySize) :
    remainingCalls lang (stops ++ [o]) number =
      if (stops.length % 2 = 1 ∧ o.origRax.toNat = number.val) ∧
          0 < remainingCalls lang stops number then
        remainingCalls lang stops number - 1
      else remainingCalls lang stops number := by
  by_cases limited : 0 < initSyscallsLimits false lang number
  · by_cases second : stops.length % 2 = 1 ∧ o.origRax.toNat = number.val
    · simp only [remainingCalls, secondStops_snoc, limited, second, and_self, true_and, if_true]
      split <;> push_cast <;> omega
    · simp [remainingCalls, secondStops_snoc, second]
  · simp [remainingCalls, limited]

/-- A number with an entry left is one the tables entered. -/
theorem remainingCalls_entered {lang : Int} {stops : List Observation}
    {number : Fin callArraySize} (left : remainingCalls lang stops number ≠ 0) :
    Entered lang number := by
  rw [← initSyscallsLimits_ne_zero_iff]
  intro zero
  simp [remainingCalls, zero] at left

theorem remainingCalls_of_not_entered {lang : Int} {number : Fin callArraySize}
    (absent : ¬ Entered lang number) (stops : List Observation) :
    remainingCalls lang stops number = 0 :=
  not_not.1 fun left => absent (remainingCalls_entered left)

section Run

variable {p : Parameters} {usedtime topmemory : Int}

/-- **The counter over a run.** -/
theorem passes_counter {stops : List Observation} {w : Watch}
    (run : Passes (iteration false p usedtime)
      (startWatch topmemory (initSyscallsLimits false p.lang)) stops w) :
    w.sub = stops.length % 2 ∧
      ∀ number, w.callCounter number = remainingCalls p.lang stops number := by
  refine run.invariant
    (I := fun stops w => w.sub = stops.length % 2 ∧
      ∀ number, w.callCounter number = remainingCalls p.lang stops number)
    ⟨rfl, fun number => (remainingCalls_nil _ number).symm⟩ ?_
  intro read m o m' _ held turn
  obtain ⟨parity, entries⟩ := held
  obtain ⟨-, sub, -, table⟩ := counter_of_again (passable_of_again turn).2
  dsimp only at sub table
  refine ⟨?_, fun number => ?_⟩
  · rw [sub, parity, List.length_append, List.length_singleton]
    omega
  · rw [table, remainingCalls_snoc, parity, entries]

end Run

/-! ## Reports with nothing against the program -/

/-- A report that reaches the check, after these stops, at a number with calls left. -/
structure Allowed (recordCall : Bool) (p : Parameters) (usedtime topmemory : Int)
    (stops : List Observation) (o : Observation) : Prop where
  pass : Passable p usedtime (runningMax topmemory (stops.map (tempmemory p.lang))) o
  call : ∃ number : Fin callArraySize, number.val = o.origRax.toNat ∧
    (recordCall = true ∨ remainingCalls p.lang stops number ≠ 0)

section Allowed

variable {recordCall : Bool} {p : Parameters} {usedtime topmemory : Int}

/-- **One report.**  The child goes on with the flag untouched exactly after an allowed one. -/
theorem again_allowed_iff {stops : List Observation} {w : Watch} {o : Observation}
    (run : Passes (iteration recordCall p usedtime)
      (startWatch topmemory (initSyscallsLimits recordCall p.lang)) stops w)
    (accepted : w.judgeFlag = .AC) :
    (∃ w', iteration recordCall p usedtime w o = .ok (.again w') ∧ w'.judgeFlag = .AC) ↔
      Allowed recordCall p usedtime topmemory stops o := by
  have peak : w.topmemory = runningMax topmemory (stops.map (tempmemory p.lang)) :=
    passes_topmemory run
  constructor
  · rintro ⟨w', turn, flag⟩
    obtain ⟨pass, checks⟩ := passable_of_again turn
    have inside := inside_of_again checks
    refine ⟨peak ▸ pass, ⟨o.origRax.toNat, inside⟩, rfl, ?_⟩
    cases recordCall with
    | true => exact Or.inl rfl
    | false =>
        refine Or.inr fun spent => ?_
        obtain ⟨inside, -, decides, -⟩ := counter_of_again checks
        dsimp only at decides
        rw [(passes_counter run).2, spent, if_pos rfl, flag] at decides
        cases decides
  · rintro ⟨pass, number, same, left⟩
    have inside : o.origRax.toNat < callArraySize := same ▸ number.isLt
    obtain rfl : number = ⟨o.origRax.toNat, inside⟩ := Fin.ext same
    have calls : recordCall = true ∨ w.callCounter ⟨o.origRax.toNat, inside⟩ ≠ 0 := by
      cases recordCall with
      | true => exact Or.inl rfl
      | false =>
          rw [(passes_counter run).2]
          exact left
    rw [← peak] at pass
    obtain ⟨callCounter, goes⟩ := checkSyscall_allows
      (w := { w with topmemory := max w.topmemory (tempmemory p.lang o) }) inside calls
    exact ⟨_, (iteration_of_passable pass).trans goes, accepted⟩

/-- **The stops of a child.** -/
theorem passes_allowed_iff {stops : List Observation} :
    (∃ w, Passes (iteration recordCall p usedtime)
        (startWatch topmemory (initSyscallsLimits recordCall p.lang)) stops w ∧
        w.judgeFlag = .AC) ↔
      EachAfter (Allowed recordCall p usedtime topmemory) stops := by
  induction stops using List.reverseRecOn with
  | nil => simpa using ⟨_, Passes.nil _, rfl⟩
  | append_singleton stops o ih =>
      rw [eachAfter_snoc_iff, ← ih]
      constructor
      · rintro ⟨w', run, flag⟩
        obtain ⟨w, before, last⟩ := run.split
        cases last with
        | cons turn tail =>
            cases tail
            have accepted : w.judgeFlag = .AC := by
              rcases (again_variables turn).2.2 with same | flagged
              · exact same.symm.trans flag
              · rw [flagged] at flag; cases flag
            exact ⟨⟨w, before, accepted⟩, (again_allowed_iff before accepted).1 ⟨w', turn, flag⟩⟩
      · rintro ⟨⟨w, before, accepted⟩, allowed⟩
        obtain ⟨w', turn, flag⟩ := (again_allowed_iff before accepted).2 allowed
        exact ⟨w', before.snoc turn, flag⟩

end Allowed

end RunServer.Runner
