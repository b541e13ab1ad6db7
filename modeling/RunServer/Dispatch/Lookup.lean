/-
# Dispatch.Lookup -- what a judging does when a lookup fails

`Detail` has nothing to give for an unknown id.  `solution.Init` logs that and
returns, and `Login` drops the error, so a judging goes on with a zero submission or
with no problem.  What it then does to the world is a list of deeds: directories and
files made and removed, programs started, records written, and nil dereferences.

An `Act` is a stage of `Run` with its deeds, and carries the proof that they account
for what the stage does to the shared state (`Explained`).  So a judging without deeds
has changed nothing (`judgeDeeds_explain`), and `harmless_iff` says which lookups must
succeed for a judging to harm nothing.
-/
import RunServer.Dispatch.Alone

namespace RunServer.Dispatch.Lookup

set_option autoImplicit false

/-! ## Deeds -/

inductive Place where
  /-- `runPath/Sid` with everything below it. -/
  | submission (sid : Int)
  /-- `runPath/Sid/Vid`; the empty string when the judger points nowhere. -/
  | workdir (path : Option Path)
  /-- `runPath/Sid/sim_test`. -/
  | simTest (sid : Int)
  /-- `./simfile`. -/
  | simfile
  deriving DecidableEq, Repr

inductive Deed where
  /-- A `Vjudger` of this repository is run. -/
  | judger
  /-- `VJs` is searched on, among the judgers of other repositories. -/
  | others
  | mkdir (dir : Place)
  | create (dir : Place) (name : String)
  | command (name : String) (dir : Place)
  | remove (place : Place)
  | update (sid : Int)
  | recordProblem (pid : Int)
  | recordUser (uid : String)
  /-- A field of a record that `Detail` has not returned. -/
  | nilDereference
  deriving DecidableEq, Repr

/-- The deed is done to this directory. -/
def Deed.Touches (path : Path) : Deed → Prop
  | .mkdir (.workdir dir) | .create (.workdir dir) _ | .command _ (.workdir dir) => dir = some path
  | .remove (.submission sid) => path.1 = sid
  | _ => False

/-- Directories and records are as before where no deed says otherwise. -/
structure Explained (deeds : List Deed) (w w' : Shared) : Prop where
  tree : ∀ path, (∀ deed ∈ deeds, ¬ deed.Touches path) → w'.tree path = w.tree path
  store : (∀ sid, .update sid ∉ deeds) → w'.store = w.store

namespace Explained

variable {deeds deeds' : List Deed} {w w' w'' : Shared}

theorem refl (deeds : List Deed) (w : Shared) : Explained deeds w w :=
  ⟨fun _ _ => rfl, fun _ => rfl⟩

theorem append (first : Explained deeds w w') (second : Explained deeds' w' w'') :
    Explained (deeds ++ deeds') w w'' where
  tree := fun path untouched => by
    rw [second.tree path fun deed done => untouched deed (List.mem_append_right _ done)]
    exact first.tree path fun deed done => untouched deed (List.mem_append_left _ done)
  store := fun kept => by
    rw [second.store fun sid done => kept sid (List.mem_append_right _ done)]
    exact first.store fun sid done => kept sid (List.mem_append_left _ done)

end Explained

/-! ## The stages -/

/-- A stage of `Run` with its deeds. -/
structure Act where
  stage : Stage
  deeds : Shared → Solution → List Deed
  explained : ∀ w user, Explained (deeds w user) w (stage w user).1
  crash : ∀ w user, .nilDereference ∈ deeds w user → (stage w user).2.2 = .panicked
  ids : ∀ w user, (stage w user).2.1.filing = user.filing

/-- `record.Field` on the pointer that `Detail` has returned. -/
def dereference {α : Type} (record : Option α) : List Deed :=
  match record with
  | none => [.nilDereference]
  | some _ => []

theorem mem_dereference_iff {α : Type} {record : Option α} :
    .nilDereference ∈ dereference record ↔ record = none := by
  cases record <;> simp [dereference]

def filesDeeds (user : Solution) : List Deed :=
  match codefilename user.language with
  | none => []
  | some name => [.create (.workdir (some (user.sid, user.vid))) name]

def initDeeds (user : Solution) : List Deed :=
  .mkdir (.workdir (some (user.sid, user.vid))) :: filesDeeds user

/-- `UpdateSolution` looks at its `err` first. -/
def updateSolutionDeeds (s : Solution) (store : Store) : List Deed :=
  match store.detail s.sid with
  | none => []
  | some _ => [.update s.sid]

theorem updateSolution_of_unwritten {s : Solution} {store : Store}
    (unwritten : ∀ sid, .update sid ∉ updateSolutionDeeds s store) :
    s.updateSolution store = store := by
  cases known : store.detail s.sid with
  | none => rw [Solution.updateSolution, known]
  | some ori =>
      rw [updateSolutionDeeds, known] at unwritten
      exact absurd (List.mem_singleton.2 rfl) (unwritten s.sid)

theorem setWorkdir_tree {w : Shared} {path : Path} (dir : Option Dir)
    (other : w.z.workdir ≠ some path) : (w.setWorkdir dir).tree path = w.tree path := by
  unfold Shared.setWorkdir
  split
  · rfl
  · rename_i mine at_
    exact Function.update_of_ne (fun same => other (by rw [at_, same])) _ _

theorem copyData_tree (progs : Programs) {user : Solution} {path : Path}
    (other : (user.sid, user.vid) ≠ path) (tree : Tree) :
    copyData progs user tree path = tree path := by
  unfold copyData
  cases tree (user.sid, user.vid) with
  | none => rfl
  | some _ => exact Function.update_of_ne (Ne.symm other) _ _

section Stages

variable (progs : Programs)

def submitDeeds (w : Shared) (user : Solution) : List Deed :=
  let c := compile progs w user
  .command "compiler" (.workdir w.z.workdir) ::
    if c.2.judge ≠ Judge.CE.code then
      updateSolutionDeeds (c.2.setResult Judge.RJ.code) c.1.store ++
        [.command "cp" (.workdir (some (user.sid, user.vid)))]
    else []

def init : Act where
  stage := stageInit
  deeds := fun _ user => initDeeds user
  explained := fun w user =>
    { tree := fun path untouched => Function.update_of_ne (fun same =>
        untouched _ (List.mem_cons_self ..) (congrArg some same.symm)) _ _
      store := fun _ => rfl }
  crash := fun _ user crashed => by
    unfold initDeeds filesDeeds at crashed
    split at crashed <;> simp at crashed
  ids := fun _ _ => rfl

def login : Act where
  stage := stageLogin progs
  deeds := fun _ user => dereference (progs.problem user.vid)
  explained := fun w user => by
    unfold stageLogin
    split <;> exact ⟨fun _ _ => rfl, fun _ => rfl⟩
  crash := fun _ user crashed => by
    simp [stageLogin, mem_dereference_iff.1 crashed]
  ids := fun w user => by
    unfold stageLogin
    split <;> rfl

theorem compile_ids (w : Shared) (user : Solution) :
    (compile progs w user).2.filing = user.filing := by
  unfold compile
  dsimp only
  split <;> rfl

theorem submit_explained (w : Shared) (user : Solution) :
    Explained (submitDeeds progs w user) w (stageSubmit progs w user).1 := by
  have ids := Solution.ids_of_filing (compile_ids progs w user)
  have store : (compile progs w user).1.store = w.store := setWorkdir_store w _
  have tree (path : Path) (other : w.z.workdir ≠ some path) :
      (compile progs w user).1.tree path = w.tree path := setWorkdir_tree _ other
  unfold submitDeeds stageSubmit
  dsimp only
  split
  · refine ⟨fun path untouched => ?_, fun unwritten => ?_⟩
    · have compiler := untouched _ (List.mem_cons_self ..)
      have cp := untouched (.command "cp" (.workdir (some (user.sid, user.vid)))) (by simp)
      refine (copyData_tree progs (fun same => cp ?_) _).trans (tree path compiler)
      rw [← same]
      exact congrArg some (Prod.ext ids.1.symm ids.2.symm)
    · refine (updateSolution_of_unwritten fun sid written => unwritten sid ?_).trans store
      exact List.mem_cons_of_mem _ (List.mem_append_left _ written)
  · exact ⟨fun path untouched => tree path (untouched _ (List.mem_cons_self ..)), fun _ => store⟩

theorem nilDereference_not_mem_update (s : Solution) (store : Store) :
    .nilDereference ∉ updateSolutionDeeds s store := by
  unfold updateSolutionDeeds
  split <;> simp

theorem submit_alive (w : Shared) (user : Solution) :
    .nilDereference ∉ submitDeeds progs w user := by
  unfold submitDeeds
  dsimp only
  split <;> simp [nilDereference_not_mem_update]

def submit : Act where
  stage := stageSubmit progs
  deeds := submitDeeds progs
  explained := submit_explained progs
  crash := fun w user crashed => absurd crashed (submit_alive progs w user)
  ids := fun w user => by
    unfold stageSubmit
    dsimp only
    split <;> exact compile_ids progs w user

def getStatus : Act where
  stage := stageGetStatus progs
  deeds := fun w _ => [.command "runner" (.workdir w.z.workdir)]
  explained := fun w user =>
    { tree := fun path untouched => setWorkdir_tree _ (untouched _ (List.mem_singleton.2 rfl))
      store := fun _ => setWorkdir_store w _ }
  crash := fun _ _ crashed => by simp at crashed
  ids := fun _ user => readStatus_filing user _

/-! ## `Run` -/

def deedsOf : List Act → Shared → Solution → List Deed
  | [], _, _ => []
  | act :: rest, w, user =>
      act.deeds w user ++
        match act.stage w user with
        | (w, user, .ok) => deedsOf rest w user
        | _ => []

theorem deedsOf_cons (act : Act) (rest : List Act) (w : Shared) (user : Solution) :
    deedsOf (act :: rest) w user =
      act.deeds w user ++
        if (act.stage w user).2.2 = .ok then
          deedsOf rest (act.stage w user).1 (act.stage w user).2.1
        else [] := by
  rw [deedsOf]
  rcases act.stage w user with ⟨w', user', ended⟩
  cases ended <;> rfl

theorem exists_of_mem_deedsOf {deed : Deed} {acts : List Act} {w : Shared} {user : Solution}
    (done : deed ∈ deedsOf acts w user) : ∃ act ∈ acts, ∃ w' user', deed ∈ act.deeds w' user' := by
  induction acts generalizing w user with
  | nil => cases done
  | cons act rest ih =>
      rw [deedsOf_cons, List.mem_append] at done
      rcases done with here | later
      · exact ⟨act, List.mem_cons_self .., w, user, here⟩
      · split at later
        · obtain ⟨other, member, found⟩ := ih later
          exact ⟨other, List.mem_cons_of_mem _ member, found⟩
        · cases later

/-- The deeds of the stages account for what `applyAll` does. -/
theorem deedsOf_explained (acts : List Act) (w : Shared) (user : Solution) :
    Explained (deedsOf acts w user) w (applyAll (acts.map Act.stage) w user).1 := by
  induction acts generalizing w user with
  | nil => exact .refl _ w
  | cons act rest ih =>
      rw [List.map_cons, applyAll_cons, deedsOf_cons]
      split
      · exact (act.explained w user).append (ih _ _)
      · rw [List.append_nil]
        exact act.explained w user

theorem deedsOf_crash (acts : List Act) (w : Shared) (user : Solution)
    (crashed : .nilDereference ∈ deedsOf acts w user) :
    (applyAll (acts.map Act.stage) w user).2.2 = .panicked := by
  induction acts generalizing w user with
  | nil => cases crashed
  | cons act rest ih =>
      rw [deedsOf_cons, List.mem_append] at crashed
      rw [List.map_cons, applyAll_cons]
      split
      · rename_i ok
        rw [if_pos ok] at crashed
        refine crashed.elim (fun here => ?_) (ih _ _)
        exact absurd (ok.symm.trans (act.crash w user here)) (by decide)
      · rename_i stopped
        rw [if_neg stopped] at crashed
        exact crashed.elim (act.crash w user) fun later => by cases later

theorem applyAll_ids (acts : List Act) (w : Shared) (user : Solution) :
    (applyAll (acts.map Act.stage) w user).2.1.filing = user.filing := by
  induction acts generalizing w user with
  | nil => rfl
  | cons act rest ih =>
      rw [List.map_cons, applyAll_cons]
      split
      · exact (ih _ _).trans (act.ids w user)
      · exact act.ids w user

def stages : List Act := [init, login progs, submit progs, getStatus progs]

/-- The argument of the deferred `RemoveAll` is evaluated first. -/
def runDeeds (w : Shared) (user : Solution) : List Deed :=
  .judger ::
    (deedsOf (stages progs) w (user.setResult Judge.PD.code) ++ [.remove (.submission user.sid)])

theorem run_explained (w : Shared) (user : Solution) :
    Explained (runDeeds progs w user) w (run progs w user).1 := by
  let pending := user.setResult Judge.PD.code
  have applied := deedsOf_explained (stages progs) w pending
  have sid := (Solution.ids_of_filing (applyAll_ids (stages progs) w pending)).1
  refine ⟨fun path untouched => ?_, fun unwritten => ?_⟩
  · have removed := untouched (.remove (.submission user.sid)) (by simp [runDeeds])
    refine (if_neg fun mine => removed (mine.trans sid)).trans ?_
    refine applied.tree path fun deed done => ?_
    exact untouched deed (List.mem_cons_of_mem _ (List.mem_append_left _ done))
  · refine applied.store fun sid written => unwritten sid ?_
    exact List.mem_cons_of_mem _ (List.mem_append_left _ written)

theorem run_crash (w : Shared) (user : Solution)
    (crashed : .nilDereference ∈ runDeeds progs w user) :
    (run progs w user).2.2 = .panicked := by
  refine deedsOf_crash (stages progs) w (user.setResult Judge.PD.code) ?_
  simpa [runDeeds] using crashed

variable {progs} in
/-- Of the stages, only `Login` uses what it has not checked. -/
theorem mem_runDeeds_iff (w : Shared) (user : Solution) :
    .nilDereference ∈ runDeeds progs w user ↔ progs.problem user.vid = none := by
  have stages_ : .nilDereference ∈ runDeeds progs w user ↔ .nilDereference ∈
      deedsOf (stages progs) w (user.setResult Judge.PD.code) := by simp [runDeeds]
  have ok : (init.stage w (user.setResult Judge.PD.code)).2.2 = .ok := rfl
  rw [stages_, stages, deedsOf_cons, if_pos ok, List.mem_append]
  constructor
  · rintro (made | later)
    · exact absurd (ok.symm.trans (init.crash _ _ made)) (by decide)
    · rw [deedsOf_cons, List.mem_append] at later
      refine later.elim mem_dereference_iff.1 fun later => ?_
      split at later
      · obtain ⟨act, member, w', user', crashed⟩ := exists_of_mem_deedsOf later
        simp only [List.mem_cons, List.not_mem_nil, or_false] at member
        rcases member with rfl | rfl
        · exact absurd crashed (submit_alive progs w' user')
        · simp [getStatus] at crashed
      · cases later
  · intro unknown
    refine Or.inr ?_
    rw [deedsOf_cons]
    exact List.mem_append_left _ (mem_dereference_iff.2 unknown)

/-! ## `Judge` -/

def extension (lang : Int) : String :=
  if lang = langC then "c"
  else if lang = langCC then "cc"
  else if lang = langJava then "java"
  else ""

/-- `get_sim`, where its commands succeed; `list` is what `List(qry)` has returned. -/
def getSimDeeds (s : Solution) (store : Store) (list : List Int) : List Deed :=
  let ext := extension s.language
  [.mkdir (.simTest s.sid), .create (.submission s.sid) ("Main." ++ ext)] ++
    (list.flatMap fun sid =>
      match store.detail sid with
      | none => []
      | some _ =>
          if sid < s.sid then [.create (.simTest s.sid) (toString sid ++ "." ++ ext)] else []) ++
    [.command "sim.sh" (.simTest s.sid), .remove .simfile, .remove (.submission s.sid)]

def updateSimDeeds (s : Solution) (getSim : Int × Int) (store : Store) (list : List Int) :
    List Deed :=
  (if s.judge = Judge.AC.code ∧ s.module = moduleC then getSimDeeds s store list else []) ++
    updateSolutionDeeds (s.setSim getSim) store

def updateRecordDeeds (s : Solution) : List Deed :=
  if s.module ≠ moduleP then [] else [.recordProblem s.pid, .recordUser s.uid]

def judgeDeeds (getSim : Int × Int) (list : List Int) (info : Info) (w : Shared) : List Deed :=
  let user := Solution.init info w.store
  let deeds := if matchesToken user.oj then runDeeds progs w user else [.others]
  let (w, user, ended) := if matchesToken user.oj then run progs w user else progs.others w user
  if ended = .panicked then deeds
  else deeds ++ updateSimDeeds user getSim w.store list ++ updateRecordDeeds user

theorem alive_after (s : Solution) (getSim : Int × Int) (store : Store) (list : List Int) :
    .nilDereference ∉ updateSimDeeds s getSim store list ++ updateRecordDeeds s := by
  intro crashed
  rcases List.mem_append.1 crashed with crashed | crashed
  · rcases List.mem_append.1 crashed with crashed | crashed
    · split at crashed
      · simp only [getSimDeeds, List.mem_append, List.mem_flatMap] at crashed
        rcases crashed with (crashed | ⟨sid, -, crashed⟩) | crashed
        · simp at crashed
        · -- `err == nil` comes before `sol.Code`
          split at crashed
          · cases crashed
          · split at crashed <;> simp at crashed
        · simp at crashed
      · cases crashed
    · exact nilDereference_not_mem_update _ _ crashed
  · unfold updateRecordDeeds at crashed
    split at crashed <;> simp at crashed

variable {progs} (getSim : Int × Int) (list : List Int) {info : Info} {w : Shared}

theorem mem_judgeDeeds_iff :
    .nilDereference ∈ judgeDeeds progs getSim list info w ↔
      matchesToken (Solution.init info w.store).oj = true ∧
        progs.problem (Solution.init info w.store).vid = none := by
  have before (deeds : List Deed) (r : Shared × Solution × Ended) : .nilDereference ∈
      (if r.2.2 = .panicked then deeds
        else deeds ++ updateSimDeeds r.2.1 getSim r.1.store list ++ updateRecordDeeds r.2.1) ↔
      .nilDereference ∈ deeds := by
    split
    · rfl
    · rw [List.append_assoc, List.mem_append]
      exact or_iff_left (alive_after _ _ _ _)
  refine (before _ _).trans ?_
  split
  · rename_i token
    rw [mem_runDeeds_iff, and_iff_right token]
  · rename_i token
    simp [token]

/-- A nil dereference ends the server. -/
theorem judge_of_crash (crashed : .nilDereference ∈ judgeDeeds progs getSim list info w) :
    (judge progs getSim info w).2.2 = .panicked := by
  obtain ⟨token, unknown⟩ := (mem_judgeDeeds_iff getSim list).1 crashed
  have ended := run_crash progs w _ ((mem_runDeeds_iff w _).2 unknown)
  unfold judge
  dsimp only
  rw [if_pos token, if_pos ended]

/-- **Nothing undeclared**: what a judging here changes is among its deeds. -/
theorem judgeDeeds_explain (token : matchesToken (Solution.init info w.store).oj = true) :
    Explained (judgeDeeds progs getSim list info w) w (judge progs getSim info w).1 := by
  have ran := run_explained progs w (Solution.init info w.store)
  unfold judgeDeeds judge
  dsimp only
  rw [if_pos token, if_pos token]
  split
  · exact ran
  · rw [List.append_assoc]
    refine ran.append ⟨fun _ _ => rfl, fun unwritten => ?_⟩
    refine updateSolution_of_unwritten fun sid written => unwritten sid ?_
    exact List.mem_append_left _ (List.mem_append_right _ written)

/-! ## Failed lookups -/

/-- No nil dereference; and where the solution is unknown, no deed at all. -/
structure Harmless (deeds : List Deed) (info : Info) (store : Store) : Prop where
  alive : .nilDereference ∉ deeds
  untouched : store.detail info.sid = none → deeds = []

variable (progs info w) in
/-- **A judging is harmless exactly when its lookups succeed**: the solution is known,
and so is the problem if it is judged here. -/
theorem harmless_iff :
    Harmless (judgeDeeds progs getSim list info w) info w.store ↔
      (w.store.detail info.sid).isSome = true ∧
        (matchesToken info.oj = true → (progs.problem info.pid).isSome = true) := by
  constructor
  · intro harmless
    cases found : w.store.detail info.sid with
    | none =>
        -- the zero submission has the empty token, which matches
        have deeds := harmless.untouched found
        have zero : Solution.init info w.store = Solution.zero := by simp [Solution.init, found]
        have token : matchesToken Solution.zero.oj = true := rfl
        unfold judgeDeeds at deeds
        dsimp only at deeds
        rw [zero, if_pos token] at deeds
        split at deeds <;> simp [runDeeds] at deeds
    | some sol =>
        refine ⟨rfl, fun token => Option.isSome_iff_ne_none.2 fun unknown => harmless.alive ?_⟩
        rw [mem_judgeDeeds_iff, Solution.init_of_known found]
        exact ⟨token, unknown⟩
  · rintro ⟨known, problem⟩
    obtain ⟨sol, found⟩ := Option.isSome_iff_exists.1 known
    refine ⟨fun crashed => ?_, fun unknown => ?_⟩
    · rw [mem_judgeDeeds_iff, Solution.init_of_known found] at crashed
      have given := problem crashed.1
      rw [show progs.problem info.pid = none from crashed.2] at given
      cases given
    · rw [unknown] at found
      cases found

end Stages

/-! ## Two failed lookups -/

namespace Sample

/-- No problem is known. -/
def programs : Programs :=
  { Dispatch.Sample.programs (.exited 0) [] with problem := fun _ => none }

/-- Nobody has stored submission 3. -/
def unknown : Info := ⟨3, 1000, "", false⟩

/-- A judging of submission 3 makes `runPath/0/0`, asks for problem 0, and takes the
server down; and so does one of submission 1, whose problem is not known. -/
theorem harmful_sample :
    judgeDeeds programs (0, 0) [] unknown Dispatch.Sample.shared =
        [.judger, .mkdir (.workdir (some (0, 0))), .nilDereference, .remove (.submission 0)] ∧
      ¬ Harmless (judgeDeeds programs (0, 0) [] unknown Dispatch.Sample.shared) unknown
        Dispatch.Sample.shared.store ∧
      ¬ Harmless (judgeDeeds programs (0, 0) [] Dispatch.Sample.info Dispatch.Sample.shared)
        Dispatch.Sample.info Dispatch.Sample.shared.store ∧
      (judge programs (0, 0) Dispatch.Sample.info Dispatch.Sample.shared).2.2 = .panicked := by
  refine ⟨by decide, fun harmless => ?_, fun harmless => ?_, by decide⟩
  · exact absurd (harmless.untouched (by decide)) (by decide)
  · exact harmless.alive (by decide)

end Sample

end RunServer.Dispatch.Lookup
