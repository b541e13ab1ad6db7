/-
# Runner.Finality -- is a verdict of the watch final?

The moments of a watch are its steps in order, each with the verdict the pass has
come to: the end of the checks of a pass, then every request it makes.  A moment
closes the watch when there is a verdict other than `JudgeAC`, or the child is
killed; `Final` says that nothing after such a moment changes the verdict or
resumes the child.

Every check of `watch_solution` that sets the verdict breaks out of the loop, but
for the last one: a system call that is not allowed is reported and the child
killed, and then the pass ends like one that found nothing, with `PTRACE_SYSCALL`
and another turn.  And past a read outside `call_counter` anything may be done
(`MayDo`), the same among it.  `final_iff` says when neither happens.
-/
import RunServer.Runner.Outside

namespace RunServer.Runner

open RunServer.Theory
open RunServer.Theory.Loop

set_option autoImplicit false

/-! ## The moments of a watch -/

structure Moment where
  judgeFlag : Judge
  request : Option Request
  deriving DecidableEq

/-- The verdict is in, or the child is being killed. -/
def Moment.Closes (m : Moment) : Prop := m.judgeFlag ≠ .AC ∨ m.request = some .ptraceKill

instance (m : Moment) : Decidable m.Closes :=
  inferInstanceAs (Decidable (m.judgeFlag ≠ .AC ∨ m.request = some .ptraceKill))

/-- What a pass that leaves `w` did, after its checks. -/
def Watch.moments (w : Watch) : List Moment :=
  ⟨w.judgeFlag, none⟩ :: w.requests.map fun r => ⟨w.judgeFlag, some r⟩

/-- Everything `watch_solution` does over these reports. -/
def watchMoments (recordCall : Bool) (p : Parameters) (usedtime topmemory : Int)
    (callCounter : CallCounter) (observations : List Observation) : List Moment :=
  (visited (iteration recordCall p usedtime) (startWatch topmemory callCounter)
    observations).flatMap Watch.moments

/-- What `watch_solution` may do over them: past a read outside `call_counter`, anything. -/
def MayDo (recordCall : Bool) (p : Parameters) (usedtime topmemory : Int)
    (callCounter : CallCounter) (observations : List Observation) (moments : List Moment) : Prop :=
  ∃ rest,
    moments = watchMoments recordCall p usedtime topmemory callCounter observations ++ rest ∧
      (rest ≠ [] → ∃ e, drive (iteration recordCall p usedtime)
        (startWatch topmemory callCounter) observations = .failed e)

/-- What a build does there, with this memory behind the table. -/
def builtMoments (recordCall : Bool) (p : Parameters) (usedtime topmemory : Int)
    (callCounter : CallCounter) (behind : Behind) (observations : List Observation) :
    List Moment :=
  (visited (iterationBuilt recordCall p usedtime) ⟨startWatch topmemory callCounter, behind⟩
    observations).flatMap fun s => s.watch.moments

/-- Whatever a build makes of the memory behind the table is among that. -/
theorem mayDo_of_built (recordCall : Bool) (p : Parameters) (usedtime topmemory : Int)
    (callCounter : CallCounter) (behind : Behind) (observations : List Observation) :
    MayDo recordCall p usedtime topmemory callCounter observations
      (builtMoments recordCall p usedtime topmemory callCounter behind observations) := by
  obtain ⟨rest, shown, fails⟩ := (iterationBuilt_extends recordCall p usedtime behind).visited_eq
    (startWatch topmemory callCounter) observations
  refine ⟨rest.flatMap fun s => s.watch.moments, ?_, fun more => fails ?_⟩
  · rw [builtMoments, shown, List.flatMap_append, List.flatMap_map]
    rfl
  · rintro rfl
    exact more rfl

/-- After a moment that closes the watch the verdict stays and the child is not resumed. -/
def Final (moments : List Moment) : Prop :=
  moments.Pairwise fun m later =>
    m.Closes → later.judgeFlag = m.judgeFlag ∧ later.request ≠ some .ptraceSyscall

instance (moments : List Moment) : Decidable (Final moments) :=
  inferInstanceAs (Decidable (moments.Pairwise _))

/-! ## One pass -/

section Pass

variable {recordCall : Bool} {p : Parameters} {usedtime : Int} {w w' : Watch} {o : Observation}

theorem Watch.mem_moments {m : Moment} (member : m ∈ w.moments) :
    m.judgeFlag = w.judgeFlag ∧ ∀ r ∈ m.request, r ∈ w.requests := by
  rcases List.mem_cons.1 member with rfl | requested
  · exact ⟨rfl, by simp⟩
  · obtain ⟨r, asked, rfl⟩ := List.mem_map.1 requested
    refine ⟨rfl, fun r' same => ?_⟩
    cases same
    exact asked

/-- A number without: the child is killed and resumed in one pass. -/
theorem not_final_of_spent {callid : UInt64} (inside : callid.toNat < callArraySize)
    (spent : w.callCounter ⟨callid.toNat, inside⟩ = 0) :
    ∃ w', checkSyscall false callid w = .ok (.again w') ∧ ¬ Final w'.moments := by
  have rejects : checkSyscall false callid w =
      .ok (.again { w with
        judgeFlag := .RE, sub := 1 - w.sub,
        requests := [.ptraceGetregs, .printRuntimeerror (.notAllowed callid), .ptraceKill,
          .ptraceSyscall] }) := by
    simp [checkSyscall, inside, spent]
  refine ⟨_, rejects, fun final => ?_⟩
  simp [Final, Watch.moments, Moment.Closes] at final

end Pass

/-! ## A whole watch -/

/-- The system call check finds calls left for the number the child stopped at. -/
def Allows (recordCall : Bool) (p : Parameters) (usedtime : Int) (w : Watch)
    (o : Observation) : Prop :=
  Passable p usedtime w.topmemory o → ∀ inside : o.origRax.toNat < callArraySize,
    recordCall = true ∨ w.callCounter ⟨o.origRax.toNat, inside⟩ ≠ 0

section Run

variable {recordCall : Bool} {p : Parameters} {usedtime : Int} {w w' : Watch} {o : Observation}

/-- A pass that is allowed to go on has no moment that closes the watch. -/
theorem again_open (accepted : w.judgeFlag = .AC) (allows : Allows recordCall p usedtime w o)
    (turn : iteration recordCall p usedtime w o = .ok (.again w')) :
    w'.judgeFlag = .AC ∧ ∀ m ∈ w'.moments, ¬ m.Closes := by
  obtain ⟨pass, checks⟩ := passable_of_again turn
  have inside := inside_of_again checks
  have left := allows pass inside
  obtain ⟨callCounter, goes⟩ := checkSyscall_allows
    (w := { w with topmemory := max w.topmemory (tempmemory p.lang o) }) inside left
  rw [goes] at checks
  cases checks
  refine ⟨accepted, fun m member closes => ?_⟩
  obtain ⟨flag, asked⟩ := Watch.mem_moments member
  rcases closes with refused | killed
  · exact refused (flag.trans accepted)
  · simpa using asked _ killed

/-- A pass that leaves the loop is the last, and makes up one verdict. -/
theorem final_of_leave (leaves : iteration recordCall p usedtime w o = .ok (.leave w')) :
    Final w'.moments := by
  apply List.pairwise_of_forall_mem_list
  intro m first later second _
  obtain ⟨flag, -⟩ := Watch.mem_moments first
  obtain ⟨flag', asked⟩ := Watch.mem_moments second
  refine ⟨flag'.trans flag.symm, fun resumed => ?_⟩
  exact (leftBy_of_leave leaves).notResumed (asked _ resumed)

theorem final_of_allows {observations : List Observation} (accepted : w.judgeFlag = .AC)
    (allows : ∀ pre o post w', observations = pre ++ o :: post →
      Passes (iteration recordCall p usedtime) w pre w' → Allows recordCall p usedtime w' o) :
    Final ((visited (iteration recordCall p usedtime) w observations).flatMap Watch.moments) := by
  induction observations generalizing w with
  | nil => exact List.Pairwise.nil
  | cons o rest ih =>
      simp only [visited]
      split
      · exact List.Pairwise.nil
      · rename_i w' leaves
        simpa using final_of_leave leaves
      · rename_i w' turn
        obtain ⟨flag, clean⟩ := again_open accepted (allows [] o rest w rfl (.nil w)) turn
        have later := ih flag fun pre o post w'' split run =>
          allows (_ :: pre) o post w'' (by rw [split]; rfl) (.cons turn run)
        rw [List.flatMap_cons]
        refine List.pairwise_append.2 ⟨?_, later, ?_⟩
        · apply List.pairwise_of_forall_mem_list
          exact fun m member _ _ closes => absurd closes (clean m member)
        · exact fun m member _ _ closes => absurd closes (clean m member)

/-- Where the check finds no calls left the watch is not final, whatever comes after. -/
theorem not_final_of_rejected {pre post : List Observation}
    (run : Passes (iteration false p usedtime) w pre w')
    (pass : Passable p usedtime w'.topmemory o) (inside : o.origRax.toNat < callArraySize)
    (spent : w'.callCounter ⟨o.origRax.toNat, inside⟩ = 0) :
    ¬ Final ((visited (iteration false p usedtime) w (pre ++ o :: post)).flatMap
      Watch.moments) := by
  obtain ⟨after, rejects, broken⟩ := not_final_of_spent
    (w := { w' with topmemory := max w'.topmemory (tempmemory p.lang o) }) inside spent
  have turn := (@iteration_of_passable false p usedtime w' o pass).trans rejects
  intro final
  rw [visited_append run, visited, turn] at final
  apply broken
  simp only [List.flatMap_append, List.flatMap_cons] at final
  exact (List.pairwise_append.1 (List.pairwise_append.1 final).2.1).1

end Run

/-- A report that reaches the check past the table ends what the source says. -/
theorem failed_of_outside {recordCall : Bool} {p : Parameters} {usedtime : Int} {w w' : Watch}
    {pre : List Observation} {o : Observation}
    (run : Passes (iteration recordCall p usedtime) w pre w')
    (pass : Passable p usedtime w'.topmemory o) (past : callArraySize ≤ o.origRax.toNat)
    (post : List Observation) :
    ∃ e, drive (iteration recordCall p usedtime) w (pre ++ o :: post) = .failed e :=
  ⟨_, drive_failed_iff.2 ⟨pre, o, post, w', rfl, run, error_of_outside pass past⟩⟩

/-- Resuming a rejected child breaks a watch, whatever it did before. -/
theorem not_final_of_resumed (moments : List Moment) :
    ¬ Final (moments ++ [⟨.RE, none⟩, ⟨.RE, some .ptraceSyscall⟩]) := by
  intro final
  have later := (List.pairwise_append.1 final).2.1
  simp [Moment.Closes] at later

/-- **A verdict of the watch is final exactly when every report that reaches the system
call check has a number inside the table, with calls left.** -/
theorem final_iff (recordCall : Bool) (p : Parameters) (usedtime topmemory : Int)
    (observations : List Observation) :
    (∀ moments, MayDo recordCall p usedtime topmemory (initSyscallsLimits recordCall p.lang)
      observations moments → Final moments) ↔
    ∀ pre o post w, observations = pre ++ o :: post →
      Passes (iteration recordCall p usedtime)
        (startWatch topmemory (initSyscallsLimits recordCall p.lang)) pre w →
      Passable p usedtime w.topmemory o →
      ∃ number : Fin callArraySize, number.val = o.origRax.toNat ∧
        (recordCall = true ∨ remainingCalls p.lang pre number ≠ 0) := by
  constructor
  · intro final pre o post w split run pass
    subst split
    by_cases inside : o.origRax.toNat < callArraySize
    · refine ⟨⟨o.origRax.toNat, inside⟩, rfl, ?_⟩
      cases recordCall with
      | true => exact Or.inl rfl
      | false =>
          refine Or.inr fun spent => ?_
          apply not_final_of_rejected run pass inside (((passes_counter run).2 _).trans spent)
          exact final _ ⟨[], (List.append_nil _).symm, fun more => absurd rfl more⟩
    · have fails := failed_of_outside run pass (not_lt.1 inside) post
      exact absurd (final _ ⟨_, rfl, fun _ => fails⟩) (not_final_of_resumed _)
  · rintro left moments ⟨rest, rfl, fails⟩
    have defined : rest = [] := by
      by_contra more
      obtain ⟨e, failed⟩ := fails more
      obtain ⟨pre, o, post, w, split, run, ended⟩ := drive_failed_iff.1 failed
      obtain ⟨pass, past⟩ := outside_of_error ended
      obtain ⟨number, same, -⟩ := left pre o post w split run pass
      have inside := number.isLt
      omega
    rw [defined, List.append_nil]
    refine final_of_allows rfl fun pre o post w split run pass inside => ?_
    obtain ⟨number, same, recorded | budget⟩ := left pre o post w split run pass
    · exact Or.inl recorded
    · obtain rfl : number = ⟨o.origRax.toNat, inside⟩ := Fin.ext same
      cases recordCall with
      | true => exact Or.inl rfl
      | false => exact Or.inr fun spent => budget (((passes_counter run).2 _).symm.trans spent)

namespace Sample

/-- The report of a child killed by `SIGKILL`, after 20000 page faults (80 MB). -/
def killed : Observation :=
  { exit with status := sigKill, errorOut := 50, ruse := ⟨⟨0, 1000⟩, ⟨0, 0⟩, 20000⟩ }

/-- A C program stopped at `fork` (57) is killed and resumed, and its death changes the
verdict from `JudgeRE` to `JudgeMLE`. -/
theorem not_final_sample :
    ¬ ∀ recordCall p usedtime topmemory observations moments,
      MayDo recordCall p usedtime topmemory (initSyscallsLimits recordCall p.lang) observations
        moments → Final moments := by
  intro final
  have held := final false parameters 0 0 [stop 57, killed] _
    ⟨[], (List.append_nil _).symm, fun more => absurd rfl more⟩
  exact absurd held (by decide)

example : (watchMoments false parameters 0 0 (initSyscallsLimits false langC)
    [stop 57, killed]).map Moment.judgeFlag = [.RE, .RE, .RE, .RE, .RE, .MLE, .MLE] := by decide

/-- The same at 512, where the memory behind the table is 0. -/
example : ¬ Final (builtMoments false parameters 0 0 (initSyscallsLimits false langC)
    (fun _ => some 0) [stop 512]) := by decide

end Sample

end RunServer.Runner
