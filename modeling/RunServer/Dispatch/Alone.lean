/-
# Dispatch.Alone -- a submission judged alone

What belongs to one submission is its directory and its copy of the record (`Own`).
Each stage has an equivalent on that part alone, and does just that as long as the
shared judger points at this submission (`Effect`).  A run of all four stages that
nobody interferes with is then `Own.run` (`run_own`), and the stored record it leaves
has one of three forms: compile error, a parsed line of the runner, or a panic.
-/
import RunServer.Dispatch.Judger

namespace RunServer.Dispatch

set_option autoImplicit false

/-! ## What a stage does for its own submission -/

/-- The fields that say which submission this is. -/
def Solution.filing (s : Solution) : Int × Int × Int × String × Int :=
  (s.sid, s.vid, s.pid, s.uid, s.module)

theorem Solution.ids_of_filing {s s' : Solution} (same : s.filing = s'.filing) :
    s.sid = s'.sid ∧ s.vid = s'.vid :=
  ⟨congrArg Prod.fst same, congrArg (fun filing => filing.2.1) same⟩

/-- What belongs to one submission: its directory, and its copy of the record. -/
structure Own where
  dir : Option Dir
  user : Solution

def Shared.own (w : Shared) (user : Solution) : Own := ⟨w.tree (user.sid, user.vid), user⟩

namespace Own

def init (o : Own) : Own := { o with dir := some (files o.user (o.dir.getD fun _ => none)) }

section Programs

variable (progs : Programs)

def compile (o : Own) : Own :=
  let made := progs.compiler o.user.language o.dir
  ⟨made.1, if made.2.failed then o.user.setResult Judge.CE.code else o.user⟩

def copyData (o : Own) : Own :=
  { o with dir := o.dir.map fun dir name => (progs.dataPath o.user.vid name).or (dir name) }

def submit (o : Own) : Own × Ended :=
  let c := o.compile progs
  if c.user.judge ≠ Judge.CE.code then
    ({ c.copyData progs with user := c.user.setResult Judge.RJ.code }, .ok)
  else
    let text := (c.dir.bind fun dir => dir "ce.txt").getD ""
    ({ c with user := c.user.setErrorInfo text }, .err)

def getStatus (limits : Int × Int) (o : Own) : Own × Ended :=
  let ran := progs.runner o.user.language limits.1 limits.2 o.dir
  (⟨ran.1, (readStatus o.user ran.2).1⟩, (readStatus o.user ran.2).2)

end Programs

end Own

/-- A stage has done `after` for its own submission, and nothing to other directories. -/
structure Effect (w : Shared) (user : Solution) (after : Own × Ended)
    (r : Shared × Solution × Ended) : Prop where
  directory : r.1.tree (user.sid, user.vid) = after.1.dir
  solution : r.2.1 = after.1.user
  ended : r.2.2 = after.2
  sid : r.2.1.sid = user.sid
  vid : r.2.1.vid = user.vid
  frame : ∀ path, path ≠ (user.sid, user.vid) → r.1.tree path = w.tree path

theorem Effect.own {w : Shared} {user : Solution} {after : Own × Ended}
    {r : Shared × Solution × Ended} (effect : Effect w user after r) :
    r.1.own r.2.1 = after.1 := by
  unfold Shared.own
  rw [effect.sid, effect.vid, effect.directory, effect.solution]

section Effects

variable (progs : Programs) (w : Shared) (user : Solution)

theorem stageInit_effect : Effect w user ((w.own user).init, .ok) (stageInit w user) where
  directory := by simp [stageInit, Own.init, Shared.own]
  solution := rfl
  ended := rfl
  sid := rfl
  vid := rfl
  frame := fun path other => by simp [stageInit, other]

variable {w user} in
theorem compile_own (own : w.z.workdir = some (user.sid, user.vid)) :
    compile progs w user =
      ({ w with
          tree := Function.update w.tree (user.sid, user.vid) ((w.own user).compile progs).dir },
        ((w.own user).compile progs).user) := by
  unfold compile Shared.workdir Shared.setWorkdir
  rw [own]
  rfl

theorem compile_filing (o : Own) : (o.compile progs).user.filing = o.user.filing := by
  unfold Own.compile
  dsimp only
  split <;> rfl

theorem readStatus_filing (user : Solution) (out : List Char) :
    (readStatus user out).1.filing = user.filing := by
  unfold readStatus
  dsimp only
  split <;> rfl

theorem readStatus_ended (user : Solution) (out : List Char) :
    (readStatus user out).2 = .ok ∨ (readStatus user out).2 = .panicked := by
  unfold readStatus
  dsimp only
  split
  · exact Or.inl rfl
  · exact Or.inr rfl

variable {w user} in
theorem stageSubmit_effect (own : w.z.workdir = some (user.sid, user.vid)) :
    Effect w user ((w.own user).submit progs) (stageSubmit progs w user) := by
  unfold stageSubmit Own.submit
  rw [compile_own progs own]
  dsimp only
  generalize made : (w.own user).compile progs = c
  obtain ⟨sid, vid⟩ : c.user.sid = user.sid ∧ c.user.vid = user.vid :=
    Solution.ids_of_filing (made ▸ compile_filing progs _)
  split
  · refine ⟨?_, rfl, rfl, sid, vid, fun path other => ?_⟩
    · cases left : c.dir <;>
        simp [copyData, Own.copyData, Solution.setResult, sid, vid, left]
    · cases c.dir <;>
        simp [copyData, Solution.setResult, sid, vid, other]
  · refine ⟨?_, ?_, rfl, sid, vid, fun path other => ?_⟩
    · simp
    · simp [Shared.workdir, own]
    · simp [other]

variable {w user} in
theorem stageGetStatus_effect (own : w.z.workdir = some (user.sid, user.vid)) :
    Effect w user ((w.own user).getStatus progs (w.z.time, w.z.mem))
      (stageGetStatus progs w user) := by
  have ran : w.workdir = w.tree (user.sid, user.vid) := by simp [Shared.workdir, own]
  have ids := Solution.ids_of_filing <| readStatus_filing user
    (progs.runner user.language w.z.time w.z.mem (w.tree (user.sid, user.vid))).2
  unfold stageGetStatus Own.getStatus
  rw [ran]
  refine ⟨?_, rfl, rfl, ids.1, ids.2, fun path other => ?_⟩
  · simp [Shared.setWorkdir, Shared.own, own]
  · simp [Shared.setWorkdir, own, other]

/-! ## The judger and the records -/

@[simp] theorem setWorkdir_z (dir : Option Dir) : (w.setWorkdir dir).z = w.z := by
  unfold Shared.setWorkdir
  split <;> rfl

@[simp] theorem setWorkdir_store (dir : Option Dir) : (w.setWorkdir dir).store = w.store := by
  unfold Shared.setWorkdir
  split <;> rfl

@[simp] theorem stageSubmit_z : (stageSubmit progs w user).1.z = w.z := by
  have kept : (compile progs w user).1.z = w.z := setWorkdir_z w _
  unfold stageSubmit
  dsimp only
  split <;> exact kept

@[simp] theorem stageGetStatus_z :
    (stageGetStatus progs w user).1.z = w.z := setWorkdir_z w _

@[simp] theorem stageGetStatus_store :
    (stageGetStatus progs w user).1.store = w.store := setWorkdir_store w _

/-- A submission that compiles is stored as running. -/
theorem stageSubmit_store :
    (stageSubmit progs w user).1.store =
      if (stageSubmit progs w user).2.2 = .ok then
        (stageSubmit progs w user).2.1.updateSolution w.store
      else w.store := by
  have kept : (compile progs w user).1.store = w.store := setWorkdir_store w _
  unfold stageSubmit
  dsimp only
  split
  · rw [kept, if_pos rfl]
  · exact kept

end Effects

/-! ## A whole run -/

theorem applyAll_of_ok {stage : Stage} {w w' : Shared} {user user' : Solution}
    (ok : stage w user = (w', user', .ok)) (rest : List Stage) :
    applyAll (stage :: rest) w user = applyAll rest w' user' := by
  simp [applyAll, ok]

theorem applyAll_cons (stage : Stage) (rest : List Stage) (w : Shared) (user : Solution) :
    applyAll (stage :: rest) w user =
      if (stage w user).2.2 = .ok then applyAll rest (stage w user).1 (stage w user).2.1
      else stage w user := by
  rw [applyAll]
  rcases stage w user with ⟨w', user', ended⟩
  cases ended <;> rfl

theorem applyAll_singleton (stage : Stage) (w : Shared) (user : Solution) :
    applyAll [stage] w user = stage w user := by
  rw [applyAll_cons]
  split
  · rename_i ok
    rw [applyAll, ← ok]
  · rfl

/-- The four stages for one submission, with the limits of its problem. -/
def Own.run (progs : Programs) (limits : Int × Int) (o : Own) : Own × Ended :=
  let submitted := o.init.submit progs
  if submitted.2 = .ok then submitted.1.getStatus progs limits else submitted

section Run

variable {progs : Programs} {w : Shared} {user : Solution} {limits : Int × Int}

variable (user) in
/-- **Judged alone**, a submission gets what the stages make of its own part. -/
theorem run_own (problem : progs.problem user.vid = some limits) :
    let o := w.own (user.setResult Judge.PD.code)
    (run progs w user).2 = ((o.run progs limits).1.user, (o.run progs limits).2) ∧
      ((run progs w user).1.store =
        if (o.init.submit progs).2 = .ok then
          (o.init.submit progs).1.user.updateSolution w.store
        else w.store) ∧
      ∀ vid, (run progs w user).1.tree (user.sid, vid) = none := by
  intro o
  let pending := user.setResult Judge.PD.code
  -- what `Init` and `Login` leave: the judger points at this submission
  let w₂ : Shared := { (stageInit w pending).1 with
    z := { token := "ZJGSU", workdir := some (user.sid, user.vid), time := limits.1,
           mem := limits.2 } }
  have prepared : w₂.own pending = o.init := (stageInit_effect w pending).own
  have submitted : Effect w₂ pending ((w₂.own pending).submit progs)
      (stageSubmit progs w₂ pending) := stageSubmit_effect progs rfl
  have stored := stageSubmit_store progs w₂ pending
  rw [prepared] at submitted
  have applied : applyAll [stageInit, stageLogin progs, stageSubmit progs, stageGetStatus progs] w
      pending = if (stageSubmit progs w₂ pending).2.2 = .ok then
        stageGetStatus progs (stageSubmit progs w₂ pending).1 (stageSubmit progs w₂ pending).2.1
      else stageSubmit progs w₂ pending := by
    have init : stageInit w pending = ((stageInit w pending).1, pending, .ok) := rfl
    have login : stageLogin progs (stageInit w pending).1 pending = (w₂, pending, .ok) := by
      unfold stageLogin
      rw [show progs.problem pending.vid = some limits from problem]
      rfl
    rw [applyAll_of_ok init, applyAll_of_ok login, applyAll_cons, applyAll_singleton]
  have result : run progs w user =
      (let r := applyAll [stageInit, stageLogin progs, stageSubmit progs, stageGetStatus progs] w
        pending
       (r.1.removeAll r.2.1.sid, r.2)) := rfl
  rw [applied] at result
  rw [result, Own.run]
  dsimp only
  rw [← submitted.ended]
  split
  · rename_i ok
    have own : (stageSubmit progs w₂ pending).1.z.workdir =
        some ((stageSubmit progs w₂ pending).2.1.sid,
          (stageSubmit progs w₂ pending).2.1.vid) := by
      rw [stageSubmit_z, submitted.sid, submitted.vid]
      rfl
    have ran := stageGetStatus_effect progs own
    rw [submitted.own, stageSubmit_z] at ran
    refine ⟨Prod.ext ran.solution ran.ended, ?_, fun vid => ?_⟩
    · rw [if_pos ok, submitted.solution] at stored
      exact (stageGetStatus_store progs _ _).trans stored
    · exact if_pos (ran.sid.trans submitted.sid).symm
  · rename_i stopped
    rw [if_neg stopped] at stored
    exact ⟨Prod.ext submitted.solution submitted.ended, stored,
      fun vid => if_pos submitted.sid.symm⟩

end Run

/-! ## The three ends of a run -/

namespace Own

section Ends

variable (progs : Programs) (o : Own)

/-- How the compiler ends on the source of this submission. -/
def compileState : ProcessState := (progs.compiler o.user.language o.init.dir).2

/-- The text of `ce.txt`. -/
def compileMessage : String :=
  ((progs.compiler o.user.language o.init.dir).1.bind fun dir => dir "ce.txt").getD ""

/-- What the runner prints where the compiler has succeeded. -/
def output (limits : Int × Int) : List Char :=
  (progs.runner o.user.language limits.1 limits.2
    (((progs.compiler o.user.language o.init.dir).1).map fun dir name =>
      (progs.dataPath o.user.vid name).or (dir name))).2

variable {progs o} {limits : Int × Int}

theorem submit_of_failed (failed : (o.compileState progs).failed = true) :
    (o.init.submit progs).1.user =
        { o.user with judge := Judge.CE.code, error := o.compileMessage progs } ∧
      (o.init.submit progs).2 = .err := by
  have made : (progs.compiler o.user.language o.init.dir).2.failed = true := failed
  have compiled : o.init.compile progs =
      ⟨(progs.compiler o.user.language o.init.dir).1, o.user.setResult Judge.CE.code⟩ :=
    congrArg (Own.mk _) (if_pos made)
  rw [submit, compiled]
  exact ⟨rfl, rfl⟩

theorem submit_of_compiled (pending : o.user.judge ≠ Judge.CE.code)
    (compiled : (o.compileState progs).failed = false) :
    o.init.submit progs =
      (⟨(progs.compiler o.user.language o.init.dir).1.map fun dir name =>
          (progs.dataPath o.user.vid name).or (dir name),
        o.user.setResult Judge.RJ.code⟩, .ok) := by
  have made : ¬ (progs.compiler o.user.language o.init.dir).2.failed = true := by
    rw [show (progs.compiler o.user.language o.init.dir).2.failed = false from compiled]
    decide
  have own : o.init.compile progs =
      ⟨(progs.compiler o.user.language o.init.dir).1, o.user⟩ :=
    congrArg (Own.mk _) (if_neg made)
  rw [submit, own]
  dsimp only
  rw [if_pos pending]
  rfl

variable (limits) in
theorem run_of_failed (failed : (o.compileState progs).failed = true) :
    (o.run progs limits).1.user =
        { o.user with judge := Judge.CE.code, error := o.compileMessage progs } ∧
      (o.run progs limits).2 = .err := by
  obtain ⟨user, ended⟩ := submit_of_failed failed
  have stops : o.run progs limits = o.init.submit progs := by
    rw [run, if_neg (by rw [ended]; decide)]
  rw [stops]
  exact ⟨user, ended⟩

variable (limits) in
theorem run_of_compiled (pending : o.user.judge ≠ Judge.CE.code)
    (compiled : (o.compileState progs).failed = false) :
    ((o.run progs limits).1.user, (o.run progs limits).2) =
      readStatus (o.user.setResult Judge.RJ.code) (o.output progs limits) := by
  have submitted := submit_of_compiled pending compiled
  rw [run, submitted, if_pos rfl]
  rfl

end Ends

end Own

/-! ## What the stages leave alone -/

theorem Own.submit_filing (progs : Programs) (o : Own) :
    (o.submit progs).1.user.filing = o.user.filing := by
  have compiled := compile_filing progs o
  unfold Own.submit
  dsimp only
  split <;> exact compiled

theorem Own.run_filing (progs : Programs) (limits : Int × Int) (o : Own) :
    (o.run progs limits).1.user.filing = o.user.filing := by
  have submitted : (o.init.submit progs).1.user.filing = o.user.filing :=
    o.init.submit_filing progs
  unfold Own.run
  dsimp only
  split
  · exact (readStatus_filing _ _).trans submitted
  · exact submitted

/-! ## The record a judging leaves -/

section Judging

variable {progs : Programs} {getSim : Int × Int} {info : Info} {w : Shared}
variable {sol : Model.Filed info.sid} {limits : Int × Int}

/-- The submission as its judging has loaded it, before the first stage. -/
def loaded (info : Info) (sol : Model.Solution) (tree : Tree) : Own :=
  let user : Solution := { sol with judge := Judge.PD.code, vid := info.pid, oj := info.oj }
  ⟨tree (user.sid, user.vid), user⟩

/-- What a judging is given: a record, a token of this judger, a problem. -/
structure Given (progs : Programs) (info : Info) (w : Shared) (sol : Model.Filed info.sid)
    (limits : Int × Int) : Prop where
  token : matchesToken info.oj = true
  known : w.store.detail info.sid = some sol
  problem : progs.problem info.pid = some limits

theorem Given.run_eq (given : Given progs info w sol limits) :
    let o := loaded info sol.val w.tree
    (run progs w (Solution.init info w.store)).2 =
        ((o.run progs limits).1.user, (o.run progs limits).2) ∧
      ((run progs w (Solution.init info w.store)).1.store =
        if (o.init.submit progs).2 = .ok then
          (o.init.submit progs).1.user.updateSolution w.store
        else w.store) ∧
      ∀ vid, (run progs w (Solution.init info w.store)).1.tree
        (info.sid, vid) = none := by
  rw [Solution.init_of_known given.known]
  obtain ⟨result, store, gone⟩ := run_own (w := w)
    { sol.val with vid := info.pid, oj := info.oj } given.problem
  exact ⟨result, store, fun vid => by simpa only [sol.property] using gone vid⟩

theorem Given.judge_eq (given : Given progs info w sol limits) :
    let ran := run progs w (Solution.init info w.store)
    judge progs getSim info w =
      if ran.2.2 = .panicked then (ran.1, ran.2.1, .panicked)
      else ({ ran.1 with store := (ran.2.1.setSim getSim).updateSolution ran.1.store },
        ran.2.1.setSim getSim, .ok) := by
  have token : matchesToken (Solution.init info w.store).oj = true := by
    rw [Solution.init_of_known given.known]
    exact given.token
  unfold RunServer.Dispatch.judge
  dsimp only
  rw [if_pos token]
  rfl

variable (getSim) in
/-- A judging comes back with the submission it was given. -/
theorem Given.judge_filing (given : Given progs info w sol limits) :
    (judge progs getSim info w).2.1.filing =
      (info.sid, info.pid, sol.val.pid, sol.val.uid, sol.val.module) := by
  have ran : (run progs w (Solution.init info w.store)).2.1.filing =
      (info.sid, info.pid, sol.val.pid, sol.val.uid, sol.val.module) := by
    rw [given.run_eq.1, Own.run_filing]
    simp only [loaded, Solution.filing, sol.property]
  rw [given.judge_eq]
  dsimp only
  split <;> exact ran

variable (getSim) in
/-- **Compile error**: the verdict and the compiler's text. -/
theorem Given.judge_of_failed (given : Given progs info w sol limits)
    (failed : ((loaded info sol.val w.tree).compileState progs).failed = true) :
    let o := loaded info sol.val w.tree
    let user := { o.user with judge := Judge.CE.code, error := o.compileMessage progs }
    (judge progs getSim info w).2.2 = .ok ∧
      (judge progs getSim info w).1.store.detail info.sid =
        some ((user.setSim getSim).writtenOver sol) := by
  intro o user
  obtain ⟨solution, ended⟩ := Own.run_of_failed limits failed
  obtain ⟨result, store, -⟩ := given.run_eq
  have stopped := (Own.submit_of_failed failed).2
  rw [if_neg (by rw [stopped]; decide)] at store
  rw [solution, ended] at result
  rw [given.judge_eq, result, store, if_neg (by simp)]
  exact ⟨rfl, Solution.detail_updateSolution sol.property given.known⟩

variable (getSim) in
/-- **A compiled submission**: what the runner's line says, or a panic that leaves the
record as running. -/
theorem Given.judge_of_compiled (given : Given progs info w sol limits)
    (compiled : ((loaded info sol.val w.tree).compileState progs).failed = false) :
    let o := loaded info sol.val w.tree
    let running := o.user.setResult Judge.RJ.code
    let status := readStatus running (o.output progs limits)
    (judge progs getSim info w).2.2 = status.2 ∧
      (judge progs getSim info w).1.store.detail info.sid =
        some (if status.2 = .panicked then running.writtenOver sol
          else (status.1.setSim getSim).writtenOver sol) := by
  intro o running status
  have pending : o.user.judge ≠ Judge.CE.code := by
    show Judge.PD.code ≠ Judge.CE.code
    decide
  have ends := Own.run_of_compiled limits pending compiled
  obtain ⟨result, store, -⟩ := given.run_eq
  have submitted := Own.submit_of_compiled pending compiled
  rw [ends] at result
  rw [submitted, if_pos rfl] at store
  have first : (running.updateSolution w.store).detail info.sid = some (running.writtenOver sol) :=
    Solution.detail_updateSolution sol.property given.known
  have sid : status.1.sid = info.sid :=
    (Solution.ids_of_filing (readStatus_filing running _)).1.trans sol.property
  rw [given.judge_eq, result]
  by_cases panicked : status.2 = .panicked
  · rw [if_pos panicked]
    refine ⟨panicked.symm, ?_⟩
    rw [if_pos panicked, store]
    exact first
  · have ok : status.2 = .ok := (readStatus_ended running _).resolve_right panicked
    rw [if_neg panicked]
    refine ⟨ok.symm, ?_⟩
    rw [if_neg panicked, store]
    have second := Solution.detail_updateSolution (s := status.1.setSim getSim) sid first
    rw [Solution.writtenOver_writtenOver] at second
    exact second

end Judging

/-! ## A small server -/

namespace Sample

/-- A compiler that ends like this, and a runner that prints this. -/
def programs (state : ProcessState) (out : List Char) : Programs :=
  { compiler := fun _ dir => (dir, state)
    runner := fun _ _ _ dir => (dir, out)
    dataPath := fun _ _ => none
    problem := fun _ => some (1, 65536)
    others := fun w user => (w, user, .ok) }

def record (sid : Int) : Model.Filed sid :=
  ⟨{ Model.Solution.zero with sid, pid := 1000, language := langC, module := moduleP }, rfl⟩

/-- Submissions 1 and 2 are stored, and nothing has been judged. -/
def shared : Shared :=
  { z := ⟨"", none, 0, 0⟩, tree := fun _ => none, store := ⟨{1, 2}, record⟩ }

def info : Info := ⟨1, 1000, "", false⟩

theorem given {state : ProcessState} {out : List Char} :
    Given (programs state out) info shared (record 1) (1, 65536) :=
  ⟨by decide, by decide, rfl⟩

end Sample

end RunServer.Dispatch
