/-
# Dispatch.Solution -- the stored record and the judging's copy of it

`model.SolutionModel` reads and writes whole records by `Sid`; a `Store` is what it
keeps.  A judging loads the record into its own `solution`, works on that copy, and
writes six fields of it back into the record it then finds (`updateSolution`).
-/
import Mathlib.Data.Finset.Basic
import Mathlib.Logic.Function.Basic
import RunServer.Config
import RunServer.Dispatch.Queue

namespace RunServer.Dispatch

set_option autoImplicit false

/-! ## `model.SolutionModel` -/

namespace Model

structure Solution where
  sid : Int
  pid : Int
  uid : String
  judge : Int
  time : Int
  memory : Int
  length : Int
  language : Int
  module : Int
  code : String
  error : String
  sim : Int
  simSId : Int
  deriving DecidableEq, Repr

/-- The zero value of Go. -/
def Solution.zero : Solution :=
  { sid := 0, pid := 0, uid := "", judge := 0, time := 0, memory := 0, length := 0, language := 0,
    module := 0, code := "", error := "", sim := 0, simSId := 0 }

/-- A record as it is filed under a `Sid`. -/
abbrev Filed (sid : Int) := { sol : Solution // sol.sid = sid }

end Model

structure Store where
  sids : Finset Int
  record : (sid : Int) → Model.Filed sid

namespace Store

/-- `Detail`; an unknown id is an error. -/
def detail (store : Store) (sid : Int) : Option (Model.Filed sid) :=
  if sid ∈ store.sids then some (store.record sid) else none

/-- `Update` writes the whole record. -/
def update (store : Store) (sid : Int) (sol : Model.Filed sid) : Store :=
  { store with record := Function.update store.record sid sol }

theorem detail_eq_some_iff {store : Store} {sid : Int} {sol : Model.Filed sid} :
    store.detail sid = some sol ↔ sid ∈ store.sids ∧ store.record sid = sol := by
  unfold detail
  split
  · rename_i known
    simp [known]
  · rename_i unknown
    simp [unknown]

theorem detail_update_self {store : Store} {sid : Int} {sol : Model.Filed sid}
    (known : store.detail sid = some sol) (sol' : Model.Filed sid) :
    (store.update sid sol').detail sid = some sol' :=
  detail_eq_some_iff.2 ⟨(detail_eq_some_iff.1 known).1, by simp [update]⟩

theorem detail_update_of_ne {store : Store} {sid other : Int} (differs : other ≠ sid)
    (sol : Model.Filed sid) : (store.update sid sol).detail other = store.detail other := by
  simp [detail, update, Function.update_of_ne differs]

end Store

/-! ## `solution` -/

structure Solution extends Model.Solution where
  vid : Int
  oj : String
  deriving DecidableEq, Repr

namespace Solution

def zero : Solution := { Model.Solution.zero with vid := 0, oj := "" }

/-- `user.Init(info)`; when the record is not found, the zero value stays. -/
def init (info : Info) (store : Store) : Solution :=
  match store.detail info.sid with
  | none => zero
  | some sol => { sol.val with vid := info.pid, oj := info.oj }

def setResult (s : Solution) (result : Int) : Solution := { s with judge := result }

def setResource (s : Solution) (time mem length : Int) : Solution :=
  { s with time, memory := mem, length }

def setErrorInfo (s : Solution) (text : String) : Solution := { s with error := text }

/-- The six fields `UpdateSolution` writes, over the record it has found. -/
def writtenOver (s : Solution) {sid : Int} (ori : Model.Filed sid) : Model.Filed sid :=
  ⟨{ ori.val with
      judge := s.judge
      time := s.time
      memory := s.memory
      sim := s.sim
      simSId := s.simSId
      error := s.error }, ori.property⟩

/-- `UpdateSolution`. -/
def updateSolution (s : Solution) (store : Store) : Store :=
  match store.detail s.sid with
  | none => store
  | some ori => store.update s.sid (s.writtenOver ori)

/-- The similarity result, 0 and 0 unless an accepted contest submission was compared. -/
def setSim (s : Solution) (getSim : Int × Int) : Solution :=
  let sim := if s.judge = Judge.AC.code ∧ s.module = moduleC then getSim else (0, 0)
  { s with sim := sim.1, simSId := sim.2 }

/-- `UpdateSim`, with the answer `get_sim` would give. -/
def updateSim (s : Solution) (getSim : Int × Int) (store : Store) : Solution × Store :=
  (s.setSim getSim, (s.setSim getSim).updateSolution store)

theorem init_of_known {info : Info} {store : Store} {sol : Model.Filed info.sid}
    (known : store.detail info.sid = some sol) :
    init info store = { sol.val with vid := info.pid, oj := info.oj } := by
  simp [init, known]

/-- Writing the six fields twice is writing them once. -/
@[simp] theorem writtenOver_writtenOver (s s' : Solution) {sid : Int} (ori : Model.Filed sid) :
    s.writtenOver (s'.writtenOver ori) = s.writtenOver ori := rfl

theorem detail_updateSolution {s : Solution} {store : Store} {sid : Int} {ori : Model.Filed sid}
    (same : s.sid = sid) (known : store.detail sid = some ori) :
    (s.updateSolution store).detail sid = some (s.writtenOver ori) := by
  subst same
  rw [updateSolution, known]
  exact Store.detail_update_self known _

theorem detail_updateSolution_of_ne {s : Solution} {other : Int} (differs : other ≠ s.sid)
    (store : Store) : (s.updateSolution store).detail other = store.detail other := by
  unfold updateSolution
  split
  · rfl
  · exact Store.detail_update_of_ne differs _

end Solution

end RunServer.Dispatch
