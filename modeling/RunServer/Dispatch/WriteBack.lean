/-
# Dispatch.WriteBack -- does the stored record become the judged submission?

A judging changes its copy of a record through the setters, and writes it back with
`UpdateSolution`, at the end of `UpdateSim` or alone.  `UpdateSolution` copies field by
field over the record it reads; of the fields the setters change it leaves out `Length`.

`Agrees` is what a write-back owes after any sequence of these calls, and
`writeBack_iff` says that it is paid exactly when the last length that was set, if one
was, is the length already stored.
-/
import Mathlib.Data.List.Induction
import RunServer.Dispatch.Solution

namespace RunServer.Dispatch.WriteBack

set_option autoImplicit false

/-! ## Calls -/

inductive Call where
  | setResult (result : Int)
  | setResource (time mem length : Int)
  | setErrorInfo (text : String)
  | updateSolution
  | updateSim (getSim : Int × Int)
  deriving DecidableEq, Repr

/-- The submission in memory, and what is stored. -/
structure Pair where
  user : Solution
  store : Store

namespace Call

def apply (w : Pair) : Call → Pair
  | setResult result => { w with user := w.user.setResult result }
  | setResource time mem length => { w with user := w.user.setResource time mem length }
  | setErrorInfo text => { w with user := w.user.setErrorInfo text }
  | updateSolution => { w with store := w.user.updateSolution w.store }
  | updateSim getSim =>
      let updated := w.user.updateSim getSim w.store
      ⟨updated.1, updated.2⟩

/-- The calls that end in `UpdateSolution`. -/
def Writes : Call → Prop
  | updateSolution => True
  | updateSim _ => True
  | _ => False

instance : DecidablePred Writes := fun c => by cases c <;> unfold Writes <;> infer_instance

def length? : Call → Option Int
  | setResource _ _ length => some length
  | _ => none

end Call

/-- A submission that has been loaded, after these calls. -/
def run (info : Info) (store : Store) (calls : List Call) : Pair :=
  calls.foldl Call.apply ⟨Solution.init info store, store⟩

/-- The last length that was set. -/
def lastLength (calls : List Call) : Option Int := (calls.filterMap Call.length?).getLast?

/-- The record is stored with what the setters and `UpdateSim` have made of their fields, and
as it was in every other one. -/
structure Agrees (user : Solution) (store : Store) {sid : Int} (ori : Model.Filed sid) : Prop where
  stored : ∃ sol, store.detail sid = some sol ∧
    (sol.val.judge = user.judge ∧ sol.val.time = user.time ∧ sol.val.memory = user.memory ∧
      sol.val.length = user.length ∧ sol.val.error = user.error ∧ sol.val.sim = user.sim ∧
      sol.val.simSId = user.simSId) ∧
    sol.val.sid = ori.val.sid ∧ sol.val.pid = ori.val.pid ∧ sol.val.uid = ori.val.uid ∧
    sol.val.language = ori.val.language ∧ sol.val.module = ori.val.module ∧
    sol.val.code = ori.val.code

/-! ## What calls keep -/

section Calls

variable {info : Info} {store : Store} {ori : Model.Filed info.sid} {w : Pair}

/-- Apart from the six fields it may be written over, the record is the one that was found;
and the copy in memory is filed under it. -/
structure Working (info : Info) (ori : Model.Filed info.sid) (w : Pair) : Prop where
  sid : w.user.sid = info.sid
  stored : ∃ sol, w.store.detail info.sid = some sol ∧
    w.user.writtenOver sol = w.user.writtenOver ori

theorem working_start (known : store.detail info.sid = some ori) :
    Working info ori (run info store []) := by
  refine ⟨?_, ori, known, rfl⟩
  simp only [run, List.foldl_nil, Solution.init_of_known known]
  exact ori.property

/-- Which record is written over does not depend on what is written. -/
theorem writtenOver_congr {s s' : Solution} {sid : Int} {sol sol' : Model.Filed sid}
    (same : s.writtenOver sol = s.writtenOver sol') :
    s'.writtenOver sol = s'.writtenOver sol' := by
  have again := congrArg s'.writtenOver same
  simpa using again

theorem Working.updateSolution (working : Working info ori w) :
    Working info ori { w with store := w.user.updateSolution w.store } ∧
      (w.user.updateSolution w.store).detail info.sid = some (w.user.writtenOver ori) := by
  obtain ⟨sol, known, same⟩ := working.stored
  have written := Solution.detail_updateSolution working.sid known
  rw [same] at written
  exact ⟨⟨working.sid, _, written, by simp⟩, written⟩

/-- The setters change neither the id nor the store. -/
theorem Working.set (working : Working info ori w) {user : Solution}
    (same : user.sid = w.user.sid) : Working info ori { w with user } := by
  obtain ⟨sol, known, agree⟩ := working.stored
  exact ⟨same.trans working.sid, sol, known, writtenOver_congr agree⟩

theorem Working.apply (working : Working info ori w) (c : Call) :
    Working info ori (c.apply w) := by
  cases c with
  | setResult result => exact working.set rfl
  | setResource time mem length => exact working.set rfl
  | setErrorInfo text => exact working.set rfl
  | updateSolution => exact working.updateSolution.1
  | updateSim getSim =>
      have set : Working info ori { w with user := w.user.setSim getSim } := working.set rfl
      exact set.updateSolution.1

theorem run_snoc (info : Info) (store : Store) (calls : List Call) (c : Call) :
    run info store (calls ++ [c]) = c.apply (run info store calls) := by
  simp [run]

/-- **Over any calls** the record changes in no other field. -/
theorem working_run (known : store.detail info.sid = some ori) (calls : List Call) :
    Working info ori (run info store calls) := by
  induction calls using List.reverseRecOn with
  | nil => exact working_start known
  | append_singleton calls c ih =>
      rw [run_snoc]
      exact ih.apply c

theorem apply_length (w : Pair) (c : Call) :
    (c.apply w).user.length = c.length?.getD w.user.length := by
  cases c <;> rfl

theorem lastLength_snoc (calls : List Call) (c : Call) :
    lastLength (calls ++ [c]) = c.length?.or (lastLength calls) := by
  unfold lastLength
  cases found : c.length? with
  | none => simp [found]
  | some length => simp [found]

/-- The length in memory is the last one set, or the one that was loaded. -/
theorem run_length (known : store.detail info.sid = some ori) (calls : List Call) :
    (run info store calls).user.length = (lastLength calls).getD ori.val.length := by
  induction calls using List.reverseRecOn with
  | nil => simp [run, Solution.init_of_known known, lastLength]
  | append_singleton calls c ih =>
      rw [run_snoc, apply_length, lastLength_snoc, ih]
      cases c.length? with
      | none => rfl
      | some length => rfl

/-- What the last call has stored. -/
theorem run_written (known : store.detail info.sid = some ori) (calls : List Call) {last : Call}
    (writes : last.Writes) :
    (run info store (calls ++ [last])).store.detail info.sid =
      some ((run info store (calls ++ [last])).user.writtenOver ori) := by
  have working := working_run known calls
  rw [run_snoc]
  cases last with
  | updateSolution => exact working.updateSolution.2
  | updateSim getSim =>
      have set : Working info ori { run info store calls with
          user := (run info store calls).user.setSim getSim } := working.set rfl
      exact set.updateSolution.2
  | setResult result => exact writes.elim
  | setResource time mem length => exact writes.elim
  | setErrorInfo text => exact writes.elim

/-- The record after a write agrees when its length does. -/
theorem agrees_iff {user : Solution} {sid : Int} {found : Model.Filed sid}
    (written : store.detail sid = some (user.writtenOver found)) :
    Agrees user store found ↔ found.val.length = user.length := by
  constructor
  · rintro ⟨sol, stored, ⟨-, -, -, length, -⟩, -⟩
    rw [written] at stored
    cases stored
    exact length
  · intro length
    exact ⟨_, written, ⟨rfl, rfl, rfl, length, rfl, rfl, rfl⟩, rfl, rfl, rfl, rfl, rfl, rfl⟩

end Calls

/-- **The stored record agrees with the submission** exactly when the last length that was
set is the one that was stored. -/
theorem writeBack_iff {info : Info} {store : Store} {ori : Model.Filed info.sid}
    (known : store.detail info.sid = some ori) (calls : List Call) {last : Call}
    (writes : last.Writes) :
    Agrees (run info store (calls ++ [last])).user (run info store (calls ++ [last])).store ori ↔
      ∀ length ∈ lastLength calls, length = ori.val.length := by
  rw [agrees_iff (run_written known calls writes), run_length known]
  have none_ : last.length? = none := by
    cases last with
    | setResource time mem length => exact writes.elim
    | _ => rfl
  rw [lastLength_snoc, none_, Option.none_or]
  cases lastLength calls with
  | none => simp
  | some length => simp [eq_comm]

namespace Sample

/-- A record stored without a length. -/
def ori : Model.Filed 1 := ⟨{ Model.Solution.zero with sid := 1 }, rfl⟩

def store : Store := ⟨{1}, fun sid => ⟨{ Model.Solution.zero with sid }, rfl⟩⟩

def info : Info := ⟨1, 7, "ZJGSU", false⟩

theorem known : store.detail info.sid = some ori := by rfl

/-- The setters of a judging that ends in a compile error, and of an accepted one. -/
def refused : List Call := [.setResult Judge.CE.code, .setErrorInfo "error: expected ';'"]

def accepted : List Call :=
  [.setResult Judge.RJ.code, .setResource 15 2048 42, .setResult Judge.AC.code]

theorem writes : (Call.updateSim (0, 0)).Writes := trivial

theorem writeBack_iff_sample :
    Agrees (run info store (refused ++ [.updateSim (0, 0)])).user
      (run info store (refused ++ [.updateSim (0, 0)])).store ori :=
  (writeBack_iff known refused writes).mpr (by decide)

/-- The length of an accepted submission is not stored. -/
theorem length_lost_sample :
    ¬ ∀ (info : Info) (store : Store) (ori : Model.Filed info.sid) (calls : List Call)
      (last : Call), store.detail info.sid = some ori → last.Writes →
      Agrees (run info store (calls ++ [last])).user (run info store (calls ++ [last])).store
        ori := by
  intro agrees
  have held := agrees info store ori accepted _ known writes
  exact absurd ((agrees_iff (run_written known accepted writes)).mp held) (by decide)

end Sample

end RunServer.Dispatch.WriteBack
