/-
# Runner.Outside -- runs that read past the table

`call_counter` is read at a number that the child chooses, and from 512 on there is
memory behind it.  The language leaves everything after such a read open, and a run of
`Runner.Main` ends there; it does so exactly when the check is reached at such a number
(`runTests_undefined_iff`).

The program that a build makes of the source goes on.  Here it is with that memory in
view (`Behind`), which it reads and writes like the table.  What the runner does at
numbers inside the table it does as well (`iterationBuilt_extends`,
`runTestsBuilt_eq`), so the one question is what it may do past a read outside.
-/
import RunServer.Runner.Sandbox

namespace RunServer.Runner

open RunServer.Theory
open RunServer.Theory.Loop

set_option autoImplicit false

/-! ## The memory behind the table -/

/-- What is found at an index past the table; `none` where the access faults.  Nothing
else of the runner is taken to live there. -/
abbrev Behind := UInt64 → Option Int

structure Built where
  watch : Watch
  behind : Behind

/-- "Check the system calls", at an index past the table. -/
def checkBehind (recordCall : Bool) (callid : UInt64) (s : Built) :
    Except Undefined (Turn Built) :=
  match s.behind callid with
  | none => .error (.outOfBounds callid)
  | some calls =>
      if !recordCall && calls = 0 then
        .ok (.again
          { s with
            watch := { s.watch with
              judgeFlag := .RE
              sub := 1 - s.watch.sub
              requests := [.ptraceGetregs, .printRuntimeerror (.notAllowed callid), .ptraceKill,
                .ptraceSyscall] } })
      else
        let left :=
          if recordCall then 1 else if s.watch.sub = 1 ∧ calls > 0 then calls - 1 else calls
        .ok (.again
          { watch := { s.watch with
              sub := 1 - s.watch.sub, requests := [.ptraceGetregs, .ptraceSyscall] }
            behind := Function.update s.behind callid (some left) })

/-- One pass. -/
def iterationBuilt (recordCall : Bool) (p : Parameters) (usedtime : Int) (s : Built)
    (o : Observation) : Except Undefined (Turn Built) :=
  match iteration recordCall p usedtime s.watch o with
  | .ok (.again w) => .ok (.again { s with watch := w })
  | .ok (.leave w) => .ok (.leave { s with watch := w })
  | .error _ =>
      checkBehind recordCall o.origRax
        { s with
          watch := { s.watch with
            topmemory := max s.watch.topmemory (tempmemory p.lang o) } }

/-- `watch_solution`. -/
def watchBuilt (recordCall : Bool) (p : Parameters) (usedtime topmemory : Int)
    (callCounter : CallCounter) (behind : Behind) (observations : List Observation) :
    Except Stuck (Built × Int) :=
  match drive (iterationBuilt recordCall p usedtime) ⟨startWatch topmemory callCounter, behind⟩
      observations with
  | .left s last => .ok (s, chargeTime usedtime last.ruse)
  | .waiting _ => .error .unfinished
  | .failed _ => .error .undefined

section Main

variable (b : Build) (p : Parameters)

/-- The body of the test loop; the memory behind the table stays for the next test. -/
def runTestBuilt (s : Progress) (behind : Behind) (t : Test) : Except Stuck (Progress × Behind) :=
  match watchBuilt b.recordCall p s.usedtime s.topmemory
      (initSyscallsLimits b.recordCall p.lang) behind t.observations with
  | .error stuck => .error stuck
  | .ok (m, usedtime) =>
      let s' : Progress :=
        { judgeFlag := m.watch.judgeFlag, usedtime, topmemory := m.watch.topmemory,
          count := s.count + 1, callCounter := m.watch.callCounter }
      if m.watch.judgeFlag = .AC then
        match judgeSolution p usedtime m.watch.topmemory t.answer t.output with
        | none => .error .unfinished
        | some judgeFlag => .ok ({ s' with judgeFlag }, m.behind)
      else .ok (s', m.behind)

def testLoopBuilt : Progress → Behind → List Entry → Except Stuck (Progress × Behind)
  | s, behind, [] => .ok (s, behind)
  | s, behind, e :: rest =>
      if s.judgeFlag = .AC then
        if isTest b e then
          match runTestBuilt b p s behind e.test with
          | .error stuck => .error stuck
          | .ok (s', behind') => testLoopBuilt s' behind' rest
        else testLoopBuilt s behind rest
      else .ok (s, behind)

/-- From the start of the test loop to the printed values. -/
def runTestsBuilt (behind : Behind) (entries : List Entry) : Except Stuck Report :=
  match testLoopBuilt b p startProgress behind entries with
  | .error stuck => .error stuck
  | .ok (s, _) => .ok (report p s)

end Main

/-! ## Defined runs -/

/-- **At numbers inside the table** the build does what the source says. -/
theorem iterationBuilt_extends (recordCall : Bool) (p : Parameters) (usedtime : Int)
    (behind : Behind) :
    Extends (fun w => (⟨w, behind⟩ : Built)) (iteration recordCall p usedtime)
      (iterationBuilt recordCall p usedtime) where
  again := by
    intro w o w' turn
    simp only [iterationBuilt, turn]
  leave := by
    intro w o w' turn
    simp only [iterationBuilt, turn]

section Built

variable {recordCall : Bool} {p : Parameters} {usedtime : Int}

theorem checkBehind_topmemory {callid : UInt64} {s : Built} {turn : Turn Built}
    (goes : checkBehind recordCall callid s = .ok turn) :
    turn.state.watch.topmemory = s.watch.topmemory := by
  unfold checkBehind at goes
  split at goes
  · cases goes
  · split at goes
    · cases goes
      rfl
    · cases goes
      rfl

/-- Every pass charges the memory. -/
theorem iterationBuilt_topmemory {s : Built} {o : Observation} {turn : Turn Built}
    (goes : iterationBuilt recordCall p usedtime s o = .ok turn) :
    turn.state.watch.topmemory = max s.watch.topmemory (tempmemory p.lang o) := by
  unfold iterationBuilt at goes
  split at goes
  · rename_i w again
    cases goes
    exact (again_variables again).1
  · rename_i w leaves
    cases goes
    exact (leftBy_of_leave leaves).topmemory
  · exact checkBehind_topmemory goes

end Built

section Defined

variable {b : Build} {p : Parameters}

theorem watchBuilt_eq {recordCall : Bool} {usedtime topmemory : Int} {table : CallCounter}
    {observations : List Observation} (behind : Behind)
    (defined : watchSolution recordCall p usedtime topmemory table observations ≠
      .error .undefined) :
    watchBuilt recordCall p usedtime topmemory table behind observations =
      (watchSolution recordCall p usedtime topmemory table observations).map
        fun r => (⟨r.1, behind⟩, r.2) := by
  have goes := iterationBuilt_extends recordCall p usedtime behind
  unfold watchSolution at defined ⊢
  unfold watchBuilt
  cases ended : drive (iteration recordCall p usedtime) (startWatch topmemory table) observations
    with
  | left w last =>
      rw [goes.drive_left ended]
      rfl
  | waiting w =>
      rw [goes.drive_waiting ended]
      rfl
  | failed e =>
      rw [ended] at defined
      exact absurd rfl defined

theorem runTestBuilt_eq {s : Progress} {t : Test} (behind : Behind)
    (defined : runTest b p s t ≠ .error .undefined) :
    runTestBuilt b p s behind t = (runTest b p s t).map fun s' => (s', behind) := by
  have watched : watchSolution b.recordCall p s.usedtime s.topmemory
      (initSyscallsLimits b.recordCall p.lang) t.observations ≠ .error .undefined := by
    intro failed
    apply defined
    simp only [runTest, failed]
  unfold runTestBuilt runTest
  rw [watchBuilt_eq behind watched]
  cases watchSolution b.recordCall p s.usedtime s.topmemory
      (initSyscallsLimits b.recordCall p.lang) t.observations with
  | error stuck => rfl
  | ok r =>
      obtain ⟨w, used⟩ := r
      simp only [Except.map]
      split
      · cases judgeSolution p used w.topmemory t.answer t.output <;> rfl
      · rfl

theorem testLoopBuilt_eq {s : Progress} {entries : List Entry} (behind : Behind)
    (defined : testLoop b p s entries ≠ .error .undefined) :
    testLoopBuilt b p s behind entries =
      (testLoop b p s entries).map fun s' => (s', behind) := by
  induction entries generalizing s with
  | nil => rfl
  | cons e rest ih =>
      simp only [testLoop, testLoopBuilt] at defined ⊢
      split
      · rename_i accepted
        rw [if_pos accepted] at defined
        split
        · rename_i test
          rw [if_pos test] at defined
          have one : runTest b p s e.test ≠ .error .undefined := by
            intro failed
            rw [failed] at defined
            exact defined rfl
          rw [runTestBuilt_eq behind one]
          cases ran : runTest b p s e.test with
          | error stuck => rfl
          | ok s' =>
              rw [ran] at defined
              exact ih defined
        · rename_i other
          rw [if_neg other] at defined
          exact ih defined
      · rfl

/-- **Defined runs** are the same in every build. -/
theorem runTestsBuilt_eq {entries : List Entry} (behind : Behind)
    (defined : runTests b p entries ≠ .error .undefined) :
    runTestsBuilt b p behind entries = runTests b p entries := by
  have loop : testLoop b p startProgress entries ≠ .error .undefined := by
    intro failed
    apply defined
    simp only [runTests, failed]
  unfold runTestsBuilt runTests
  rw [testLoopBuilt_eq behind loop]
  cases testLoop b p startProgress entries <;> rfl

/-! ## Undefined runs -/

theorem runTest_undefined {s : Progress} {t : Test} (failed : runTest b p s t = .error .undefined) :
    ∃ stops o post w, t.observations = stops ++ o :: post ∧
      Passes (iteration b.recordCall p s.usedtime)
        (startWatch s.topmemory (initSyscallsLimits b.recordCall p.lang)) stops w ∧
      Passable p s.usedtime w.topmemory o ∧ callArraySize ≤ o.origRax.toNat := by
  unfold runTest at failed
  split at failed
  · rename_i stuck watched
    cases failed
    unfold watchSolution at watched
    split at watched
    · cases watched
    · cases watched
    · rename_i e ended
      obtain ⟨stops, o, post, w, split_, run, fails⟩ := drive_failed_iff.1 ended
      obtain ⟨pass, past⟩ := outside_of_error fails
      exact ⟨stops, o, post, w, split_, run, pass, past⟩
  · dsimp only at failed
    split at failed
    · split at failed <;> cases failed
    · cases failed

/-- An undefined loop has come to a test that is. -/
theorem testLoop_undefined {s : Progress} {entries : List Entry}
    (failed : testLoop b p s entries = .error .undefined) :
    ∃ before e after s', entries = before ++ e :: after ∧ isTest b e = true ∧
      s'.judgeFlag = .AC ∧ testLoop b p s before = .ok s' ∧
      runTest b p s' e.test = .error .undefined := by
  induction entries generalizing s with
  | nil => cases failed
  | cons e rest ih =>
      simp only [testLoop] at failed
      split at failed
      · rename_i accepted
        split at failed
        · rename_i test
          cases ran : runTest b p s e.test with
          | error stuck =>
              rw [ran] at failed
              cases failed
              exact ⟨[], e, rest, s, rfl, test, accepted, rfl, ran⟩
          | ok next =>
              rw [ran] at failed
              obtain ⟨before, e', after, s', split_, found⟩ := ih failed
              refine ⟨e :: before, e', after, s', by rw [split_]; rfl, ?_⟩
              simpa [testLoop, accepted, test, ran] using found
        · rename_i other
          obtain ⟨before, e', after, s', split_, found⟩ := ih failed
          refine ⟨e :: before, e', after, s', by rw [split_]; rfl, ?_⟩
          simpa [testLoop, accepted, other] using found
      · cases failed

theorem runTests_of_visit {entries : List Entry} {usedtime : Int} {stops : List Observation}
    {w : Watch} {o : Observation} (visit : Checks b p entries usedtime stops w o)
    (past : callArraySize ≤ o.origRax.toNat) : runTests b p entries = .error .undefined := by
  obtain ⟨s, t, post, starts, rfl, split, run⟩ := visit.started
  obtain ⟨before, e, after, rfl, test, rfl, loop⟩ := starts.reached
  have ended := drive_failed_iff.2 ⟨stops, o, post, w, split, run, visit.outside past⟩
  have ran : runTest b p s e.test = .error .undefined := by
    simp only [runTest, watchSolution, ended]
  have loops : testLoop b p startProgress (before ++ e :: after) = .error .undefined := by
    rw [testLoop_append, loop]
    simp [testLoop, starts.accepted, test, ran]
  simp only [runTests, loops]

variable (b p) in
/-- **A run is undefined exactly when the check is reached at a number past the table.** -/
theorem runTests_undefined_iff (entries : List Entry) :
    runTests b p entries = .error .undefined ↔
      ∃ usedtime stops w o, Checks b p entries usedtime stops w o ∧
        callArraySize ≤ o.origRax.toNat := by
  constructor
  · intro failed
    unfold runTests at failed
    split at failed
    · rename_i stuck loop
      cases failed
      obtain ⟨before, e, after, s, split_, test, accepted, reached, ran⟩ := testLoop_undefined loop
      obtain ⟨stops, o, post, w, seen, run, pass, past⟩ := runTest_undefined ran
      have starts : StartsTest b p entries s e.test :=
        ⟨accepted, before, e, after, split_, test, rfl, reached⟩
      exact ⟨s.usedtime, stops, w, o, ⟨⟨s, e.test, post, starts, rfl, seen, run⟩, pass⟩, past⟩
    · cases failed
  · rintro ⟨usedtime, stops, w, o, visit, past⟩
    exact runTests_of_visit visit past

end Defined

end RunServer.Runner
