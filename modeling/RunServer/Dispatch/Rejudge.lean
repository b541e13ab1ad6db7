/-
# Dispatch.Rejudge -- what a second judging keeps of the first

A judging loads the whole record, writes its verdict into the copy, and stores six
fields of it.  Which of the six it has set by then depends on how it went: a
compile error sets the verdict and the text but not time and memory; a line of the
runner sets verdict, time and memory but not the text; a panic in between leaves
everything but the verdict as it was.  `Overwritten` names the fields that must
have agreed before for two judgings to agree after (`record_same_iff`).
-/
import Mathlib.Logic.Function.Iterate
import RunServer.Dispatch.Alone

namespace RunServer.Dispatch

set_option autoImplicit false

/-- A record without the results of a judging. -/
def Model.Solution.forget (sol : Model.Solution) : Model.Solution :=
  { sol with judge := 0, time := 0, memory := 0, sim := 0, simSId := 0, error := "" }

/-! ## Two judgings -/

/-- The results an earlier judging has left in `sol` and `sol'` that this one does not
overwrite agree. -/
def Overwritten (progs : Programs) (limits : Int × Int) (o : Own)
    (sol sol' : Model.Solution) : Prop :=
  if (o.compileState progs).failed then sol'.time = sol.time ∧ sol'.memory = sol.memory
  else if (readStatus o.user (o.output progs limits)).2 = .panicked then
    sol'.time = sol.time ∧ sol'.memory = sol.memory ∧ sol'.sim = sol.sim ∧
      sol'.simSId = sol.simSId ∧ sol'.error = sol.error
  else sol'.error = sol.error

/-- Two records that differ in results only are left equal when the six fields written
over them are equal. -/
theorem writtenOver_eq_iff {s s' : Solution} {sid : Int} {sol sol' : Model.Filed sid}
    (same : sol'.val.forget = sol.val.forget) :
    s'.writtenOver sol' = s.writtenOver sol ↔
      s'.judge = s.judge ∧ s'.time = s.time ∧ s'.memory = s.memory ∧ s'.sim = s.sim ∧
        s'.simSId = s.simSId ∧ s'.error = s.error := by
  obtain ⟨sol, filed⟩ := sol
  obtain ⟨sol', filed'⟩ := sol'
  cases sol
  cases sol'
  simp_all [Solution.writtenOver, Model.Solution.forget]
  tauto

/-- What the line says does not depend on the record it is written into. -/
theorem readStatus_congr (user user' : Solution) (out : List Char) :
    (readStatus user' out).2 = (readStatus user out).2 ∧
      ((readStatus user out).2 = .ok → ∃ j t m,
        readStatus user out = ((user.setResult j).setResource t m user.code.utf8ByteSize, .ok) ∧
        readStatus user' out =
          ((user'.setResult j).setResource t m user'.code.utf8ByteSize, .ok)) := by
  unfold readStatus
  dsimp only
  split
  · exact ⟨rfl, fun _ => ⟨_, _, _, rfl, rfl⟩⟩
  · exact ⟨rfl, fun ok => by cases ok⟩

/-- The same submission with the results of another record. -/
def Own.withResults (o : Own) (sol : Model.Solution) : Own :=
  { o with user := { o.user with
      time := sol.time, memory := sol.memory, sim := sol.sim, simSId := sol.simSId,
      error := sol.error } }

section Programs

variable (progs : Programs) (limits : Int × Int) (o : Own) (sol : Model.Solution)

-- The programs are not shown the results.
@[simp] theorem withResults_output :
    (o.withResults sol).output progs limits = o.output progs limits := rfl

end Programs

section Two

variable {progs : Programs} {getSim : Int × Int} {info : Info} {w w' : Shared}
variable {sol sol' : Model.Filed info.sid} {limits : Int × Int}

theorem loaded_same (same : sol'.val.forget = sol.val.forget)
    (tree : w'.tree (info.sid, info.pid) = w.tree (info.sid, info.pid)) :
    loaded info sol'.val w'.tree = (loaded info sol.val w.tree).withResults sol'.val := by
  have filed := sol.property
  have filed' := sol'.property
  simp only [Model.Solution.forget, Model.Solution.mk.injEq] at same
  obtain ⟨-, pid, uid, -, -, -, length, language, module_, code, -⟩ := same
  unfold loaded Own.withResults
  simp only [filed, filed', tree, pid, uid, length, language, module_, code]

/-- The record `Judge` leaves for this submission. -/
def recordLeft (progs : Programs) (getSim : Int × Int) (info : Info) (w : Shared) :
    Option (Model.Filed info.sid) := (judge progs getSim info w).1.store.detail info.sid

/-- **Two stores that differ in the results of a submission**, judged alike. -/
theorem record_same_iff (getSim : Int × Int) (given : Given progs info w sol limits)
    (given' : Given progs info w' sol' limits) (same : sol'.val.forget = sol.val.forget)
    (tree : w'.tree (info.sid, info.pid) = w.tree (info.sid, info.pid)) :
    recordLeft progs getSim info w' = recordLeft progs getSim info w ↔
      Overwritten progs limits (loaded info sol.val w.tree) sol.val sol'.val := by
  have other := loaded_same same tree
  unfold recordLeft Overwritten
  cases compiled : ((loaded info sol.val w.tree).compileState progs).failed with
  | true =>
      have left := (given.judge_of_failed getSim compiled).2
      have right := (given'.judge_of_failed getSim (by rw [other]; exact compiled)).2
      rw [other] at right
      rw [left, right, Option.some.injEq, writtenOver_eq_iff same, if_pos rfl]
      constructor
      · rintro ⟨-, time, memory, -⟩
        exact ⟨time, memory⟩
      · rintro ⟨time, memory⟩
        exact ⟨rfl, time, memory, rfl, rfl, rfl⟩
  | false =>
      have left := (given.judge_of_compiled getSim compiled).2
      have right := (given'.judge_of_compiled getSim (by rw [other]; exact compiled)).2
      rw [other, withResults_output] at right
      rw [left, right, Option.some.injEq, if_neg Bool.false_ne_true]
      generalize (loaded info sol.val w.tree).output progs limits = out
      generalize running : (loaded info sol.val w.tree).user.setResult Judge.RJ.code = s
      generalize running' : ((loaded info sol.val w.tree).withResults sol'.val).user.setResult
        Judge.RJ.code = s'
      obtain ⟨ended, line⟩ := readStatus_congr s s' out
      rw [← (readStatus_congr (loaded info sol.val w.tree).user s out).1, ended]
      by_cases panicked : (readStatus s out).2 = .panicked
      · rw [if_pos panicked, if_pos panicked, if_pos panicked, writtenOver_eq_iff same,
          ← running,
          ← running']
        constructor
        · rintro ⟨-, time, memory, sim, simSId, error⟩
          exact ⟨time, memory, sim, simSId, error⟩
        · rintro ⟨time, memory, sim, simSId, error⟩
          exact ⟨rfl, time, memory, sim, simSId, error⟩
      · obtain ⟨j, t, m, first, second⟩ :=
          line ((readStatus_ended s out).resolve_right panicked)
        rw [if_neg panicked, if_neg panicked, if_neg panicked, first, second,
          writtenOver_eq_iff same,
          ← running, ← running']
        constructor
        · rintro ⟨-, -, -, -, -, error⟩
          exact error
        · intro error
          exact ⟨rfl, rfl, rfl, rfl, rfl, error⟩

end Two

/-! ## Judging again -/

section Again

variable {progs : Programs} {info : Info} {w : Shared}
variable {sol : Model.Filed info.sid} {limits : Int × Int}

/-- What a judging leaves to the next one: the record but for its results, with the ones
it did not set as they were, and no directory. -/
theorem Given.again (getSim : Int × Int) (given : Given progs info w sol limits) :
    ∃ sol', recordLeft progs getSim info w = some sol' ∧
      Given progs info (judge progs getSim info w).1 sol' limits ∧
      sol'.val.forget = sol.val.forget ∧
      Overwritten progs limits (loaded info sol.val w.tree) sol.val sol'.val ∧
      (judge progs getSim info w).1.tree (info.sid, info.pid) = none := by
  obtain ⟨-, -, gone⟩ := given.run_eq
  have tree : (judge progs getSim info w).1.tree (info.sid, info.pid) = none := by
    rw [given.judge_eq]
    split <;> exact gone info.pid
  unfold recordLeft Overwritten
  cases compiled : ((loaded info sol.val w.tree).compileState progs).failed with
  | true =>
      have stored := (given.judge_of_failed getSim compiled).2
      exact ⟨_, stored, ⟨given.token, stored, given.problem⟩, rfl, ⟨rfl, rfl⟩, tree⟩
  | false =>
      have stored := (given.judge_of_compiled getSim compiled).2
      generalize running : (loaded info sol.val w.tree).user.setResult Judge.RJ.code = s at stored
      generalize (loaded info sol.val w.tree).output progs limits = out at *
      refine ⟨_, stored, ⟨given.token, stored, given.problem⟩, ?_, ?_, tree⟩
      · split <;> rfl
      · rw [if_neg Bool.false_ne_true,
          ← (readStatus_congr (loaded info sol.val w.tree).user s out).1]
        by_cases panicked : (readStatus s out).2 = .panicked
        · rw [if_pos panicked, if_pos panicked, ← running]
          exact ⟨rfl, rfl, rfl, rfl, rfl⟩
        · obtain ⟨j, t, m, first, -⟩ :=
            (readStatus_congr s s out).2 ((readStatus_ended s out).resolve_right panicked)
          rw [if_neg panicked, if_neg panicked, first, ← running]
          rfl

/-- Judging any number of times, from a directory that is not there yet. -/
theorem recordLeft_iterate (getSim : Int × Int) (given : Given progs info w sol limits)
    (clean : w.tree (info.sid, info.pid) = none) (n : Nat) :
    recordLeft progs getSim info ((fun w => (judge progs getSim info w).1)^[n] w) =
      recordLeft progs getSim info w := by
  induction n generalizing w sol with
  | zero => rfl
  | succ n ih =>
      obtain ⟨sol', -, given', same, overwritten, gone⟩ := given.again getSim
      rw [Function.iterate_succ_apply, ih given' gone]
      exact (record_same_iff getSim given given' same (gone.trans clean.symm)).2 overwritten

end Again

/-- **Two stores that differ in the results of a submission are left with the same record
exactly when the results this judging does not set agreed; and judging again, with the
same outcome, changes nothing.**  The programs are shown the same directory. -/
theorem forgets_iff_overwritten (progs : Programs) (getSim : Int × Int) (info : Info)
    (w w' : Shared) (sol sol' : Model.Filed info.sid) (limits : Int × Int)
    (given : Given progs info w sol limits) (given' : Given progs info w' sol' limits)
    (same : sol'.val.forget = sol.val.forget)
    (tree : w'.tree (info.sid, info.pid) = w.tree (info.sid, info.pid)) :
    (recordLeft progs getSim info w' = recordLeft progs getSim info w ↔
      Overwritten progs limits (loaded info sol.val w.tree) sol.val sol'.val) ∧
    (w.tree (info.sid, info.pid) = none → ∀ n,
      recordLeft progs getSim info ((fun w => (judge progs getSim info w).1)^[n] w) =
        recordLeft progs getSim info w) :=
  ⟨record_same_iff getSim given given' same tree, recordLeft_iterate getSim given⟩

namespace Sample

/-- The same server, with an old compiler message in the record of submission 1. -/
def stale : Shared :=
  { shared with
    store := shared.store.update 1 ⟨{ (record 1).val with error := "old" }, rfl⟩ }

theorem given_stale {state : ProcessState} {out : List Char} :
    Given (programs state out) info stale ⟨{ (record 1).val with error := "old" }, rfl⟩
      (1, 65536) :=
  ⟨by decide, by decide, rfl⟩

end Sample

/-- Accepted now, after a compile error: the text of the compiler stays in the record. -/
theorem remembers_sample :
    recordLeft (Sample.programs (.exited 0) "3 1 1024".toList) (0, 0) Sample.info Sample.stale ≠
      recordLeft (Sample.programs (.exited 0) "3 1 1024".toList) (0, 0) Sample.info
        Sample.shared := by
  decide

theorem forgets_iff_overwritten_sample :
    recordLeft (Sample.programs (.exited 1) []) (0, 0) Sample.info Sample.stale =
      recordLeft (Sample.programs (.exited 1) []) (0, 0) Sample.info Sample.shared :=
  (forgets_iff_overwritten _ _ _ _ _ _ _ _ Sample.given Sample.given_stale rfl rfl).1.2
    ⟨rfl, rfl⟩

end RunServer.Dispatch
