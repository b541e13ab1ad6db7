/-
# Dispatch.Statistics -- the counts of problems and users

After its verdict is stored, a judging in the practice module counts the solutions
of its problem and of its user, and records the counts (`UpdateRecord`).  Every call
of the model is one atomic step here, so other judgings come in between a count and
its record, and the older count may be recorded last.

For each problem, and for each user, the judgings are the parties of
`Theory.Aggregate`: an `Update` writes, the counts read, a `Record` publishes.  So the
recorded counts are those of the final store in every run in which no `Record` with
overtaken counts is the last one (`RecordsCurrent`).
-/
import Mathlib.Data.Finset.Card
import Mathlib.Data.Finset.Image
import RunServer.Theory.Aggregate
import RunServer.Theory.Interleave
import RunServer.Dispatch.Alone

namespace RunServer.Dispatch.Statistics

open RunServer.Theory
open RunServer.Theory.Interleave
open RunServer.Theory.Aggregate (Phase)

set_option autoImplicit false

/-! ## Queries -/

/-- `qry["action"]`. -/
inductive QueryAction where
  | submit
  | solve
  deriving DecidableEq, Repr

/-- What the model selects and lists; it is not part of this repository. -/
structure Queries where
  selects : QueryAction → Model.Solution → Bool
  /-- `Achieve`, from the records of its user. -/
  achieve : Int → Int → Finset Model.Solution → List Int

/-- The map `qry`; `none` for a key it does not have. -/
structure Query where
  module : Option Int
  action : QueryAction
  pid : Option Int
  uid : Option String

def Query.selects (queries : Queries) (qry : Query) (sol : Model.Solution) : Bool :=
  qry.module.all (sol.module = ·) && queries.selects qry.action sol &&
    qry.pid.all (sol.pid = ·) && qry.uid.all (sol.uid = ·)

def select (store : Store) (p : Model.Solution → Bool) : Finset Int :=
  store.sids.filter fun sid => p (store.record sid).val = true

section Queries

variable (queries : Queries) (store : Store)

/-- `solutionModel.Count`. -/
def count (qry : Query) : Nat := (select store (qry.selects queries)).card

/-- `solutionModel.Achieve`. -/
def achieve (uid : String) (module module' : Int) : List Int :=
  queries.achieve module module'
    ((select store fun sol => sol.uid = uid).image fun sid => (store.record sid).val)

def problemQuery (pid : Int) (action : QueryAction) : Query :=
  { module := some moduleP, action, pid := some pid, uid := none }

/-- `pid` and `module` are deleted from `qry`. -/
def userQuery (uid : String) : Query :=
  { module := none, action := .submit, pid := none, uid := some uid }

/-- The arguments of `Record`. -/
structure Stats where
  solve : Nat
  submit : Nat
  deriving DecidableEq, Repr

/-- In the order in which they are counted. -/
def Stats.counted (stats : Stats) : Nat × Nat := (stats.submit, stats.solve)

/-- What a fresh query of the store says of a problem. -/
def problemStats (pid : Int) : Stats :=
  { solve := count queries store (problemQuery pid .solve)
    submit := count queries store (problemQuery pid .submit) }

def userStats (uid : String) : Stats :=
  { solve := (achieve queries store uid moduleP moduleP).length
    submit := count queries store (userQuery uid) }

variable {queries store}

theorem Stats.counted_injective : Function.Injective Stats.counted := by
  rintro ⟨solve, submit⟩ ⟨solve', submit'⟩ same
  cases same
  rfl

/-- A query does not see a record that it selects neither before nor after. -/
theorem select_update {sid : Int} {sol : Model.Filed sid} {p : Model.Solution → Bool}
    (before : p (store.record sid).val = false) (after : p sol.val = false) :
    select (store.update sid sol) p = select store p := by
  refine Finset.filter_congr fun other _ => ?_
  rcases eq_or_ne other sid with rfl | ne
  · simp [Store.update, before, after]
  · simp [Store.update, ne]

theorem count_update {sid : Int} {sol : Model.Filed sid} {qry : Query}
    (before : qry.selects queries (store.record sid).val = false)
    (after : qry.selects queries sol.val = false) :
    count queries (store.update sid sol) qry = count queries store qry :=
  congrArg Finset.card (select_update before after)

theorem achieve_update {sid : Int} {sol : Model.Filed sid} {uid : String}
    (before : (store.record sid).val.uid ≠ uid) (after : sol.val.uid ≠ uid)
    (module module' : Int) :
    achieve queries (store.update sid sol) uid module module' =
      achieve queries store uid module module' := by
  unfold achieve
  rw [select_update (by simpa using before) (by simpa using after)]
  refine congrArg _ (Finset.image_congr fun other selected => ?_)
  rcases eq_or_ne other sid with rfl | ne
  · simp [select, before] at selected
  · simp [Store.update, ne]

/-- An update of a solution of another problem. -/
theorem problemStats_update {sid pid : Int} {sol : Model.Filed sid}
    (before : (store.record sid).val.pid ≠ pid) (after : sol.val.pid ≠ pid) :
    problemStats queries (store.update sid sol) pid = problemStats queries store pid := by
  have unseen (action : QueryAction) :
      count queries (store.update sid sol) (problemQuery pid action) =
        count queries store (problemQuery pid action) :=
    count_update (by simp [Query.selects, problemQuery, before])
      (by simp [Query.selects, problemQuery, after])
  simp only [problemStats, unseen]

/-- An update of a solution of another user. -/
theorem userStats_update {sid : Int} {uid : String} {sol : Model.Filed sid}
    (before : (store.record sid).val.uid ≠ uid) (after : sol.val.uid ≠ uid) :
    userStats queries (store.update sid sol) uid = userStats queries store uid := by
  have unseen : count queries (store.update sid sol) (userQuery uid) =
      count queries store (userQuery uid) :=
    count_update (by simp [Query.selects, userQuery, before])
      (by simp [Query.selects, userQuery, after])
  simp only [userStats, unseen, achieve_update before after]

end Queries

/-! ## The calls of a judging -/

/-- The `solution` of a judging. -/
abbrev Copy (sid : Int) := { user : Solution // user.sid = sid }

/-- The judgings of a run, as far as their calls of the model depend on them. -/
structure Judgings (store : Store) where
  sids : Finset Int
  /-- What `Submit` stores when the source has compiled. -/
  running : (sid : Int) → Option (Copy sid)
  /-- What `UpdateSim` stores, and `UpdateRecord` is called on. -/
  final : (sid : Int) → Copy sid
  pid : ∀ sid ∈ sids, (store.record sid).val.pid = (final sid).val.pid
  uid : ∀ sid ∈ sids, (store.record sid).val.uid = (final sid).val.uid
  practice : ∀ sid ∈ sids, (final sid).val.module = moduleP

/-- What `Judge` comes back with is as `Judgings` asks for. -/
theorem judge_copy {progs : Programs} {getSim : Int × Int} {info : Info} {w : Shared}
    {sol : Model.Filed info.sid} {limits : Int × Int} (given : Given progs info w sol limits) :
    let user := (judge progs getSim info w).2.1
    user.sid = info.sid ∧ (w.store.record info.sid).val.pid = user.pid ∧
      (w.store.record info.sid).val.uid = user.uid ∧ user.module = sol.val.module := by
  intro user
  have filing : user.filing = _ := given.judge_filing getSim
  simp only [Solution.filing, Prod.mk.injEq] at filing
  rw [(Store.detail_eq_some_iff.1 given.known).2]
  exact ⟨filing.1, filing.2.2.1.symm, filing.2.2.2.1.symm, filing.2.2.2.2⟩

/-- What a judging calls next, with what it has read. -/
inductive Point (sid : Int) where
  | detail (user : Copy sid) (rest : List (Copy sid))
  | update (user : Copy sid) (ori : Model.Filed sid) (rest : List (Copy sid))
  | countSubmit
  | countSolve (submit : Nat)
  | recordProblem (submit solve : Nat)
  | countUser
  | achieve (submit : Nat)
  | recordUser (submit solve : Nat)
  | finished

inductive Call where
  | detail
  | update
  | countSubmit
  | countSolve
  | recordProblem
  | countUser
  | achieve
  | recordUser
  deriving DecidableEq, Repr

def Point.call {sid : Int} : Point sid → Option Call
  | .detail .. => some .detail
  | .update .. => some .update
  | .countSubmit => some .countSubmit
  | .countSolve _ => some .countSolve
  | .recordProblem .. => some .recordProblem
  | .countUser => some .countUser
  | .achieve _ => some .achieve
  | .recordUser .. => some .recordUser
  | .finished => none

structure Action where
  sid : Int
  call : Call
  deriving DecidableEq, Repr

structure Server where
  store : Store
  problems : Int → Stats
  users : String → Stats
  points : (sid : Int) → Point sid

def Server.goto (s : Server) (sid : Int) (point : Point sid) : Server :=
  { s with points := Function.update s.points sid point }

/-- `UpdateSolution` of the copies still to be stored, then `UpdateRecord`. -/
def goOn {sid : Int} (final : Copy sid) : List (Copy sid) → Point sid
  | user :: rest => .detail user rest
  | [] => if final.val.module ≠ moduleP then .finished else .countSubmit

section Steps

variable (queries : Queries) {store : Store} (judgings : Judgings store)

def Judgings.pidOf (sid : Int) : Int := (judgings.final sid).val.pid

def Judgings.uidOf (sid : Int) : String := (judgings.final sid).val.uid

/-- The record is about the problem and the user of this judging. -/
def Judgings.Concerns (sid : Int) (sol : Model.Solution) : Prop :=
  sol.pid = judgings.pidOf sid ∧ sol.uid = judgings.uidOf sid

def start (problems : Int → Stats) (users : String → Stats) : Server :=
  { store, problems, users
    points := fun sid =>
      if sid ∈ judgings.sids then
        goOn (judgings.final sid) ((judgings.running sid).toList ++ [judgings.final sid])
      else .finished }

def perform (s : Server) (sid : Int) : Server :=
  match s.points sid with
  | .detail user rest =>
      match s.store.detail sid with
      | none => s.goto sid (goOn (judgings.final sid) rest)
      | some ori => s.goto sid (.update user ori rest)
  | .update user ori rest =>
      { s with store := s.store.update sid (user.val.writtenOver ori) }.goto sid
        (goOn (judgings.final sid) rest)
  | .countSubmit =>
      let submit := count queries s.store (problemQuery (judgings.pidOf sid) .submit)
      s.goto sid (.countSolve submit)
  | .countSolve submit =>
      let solve := count queries s.store (problemQuery (judgings.pidOf sid) .solve)
      s.goto sid (.recordProblem submit solve)
  | .recordProblem submit solve =>
      { s with problems := Function.update s.problems (judgings.pidOf sid) ⟨solve, submit⟩ }.goto
        sid .countUser
  | .countUser =>
      let submit := count queries s.store (userQuery (judgings.uidOf sid))
      s.goto sid (.achieve submit)
  | .achieve submit =>
      let solvelist := Statistics.achieve queries s.store (judgings.uidOf sid) moduleP moduleP
      s.goto sid (.recordUser submit solvelist.length)
  | .recordUser submit solve =>
      { s with users := Function.update s.users (judgings.uidOf sid) ⟨solve, submit⟩ }.goto
        sid .finished
  | .finished => s

def step (s : Server) (a : Action) : Option Server :=
  if (s.points a.sid).call = some a.call then some (perform queries judgings s a.sid) else none

end Steps

/-! ## Parties -/

/-- How far a judging is with the counts of its problem. -/
def Point.problemPhase {sid : Int} : Point sid → Phase Nat Nat
  | .detail .. | .update .. | .countSubmit => .writing
  | .countSolve submit => .half submit
  | .recordProblem submit solve => .full submit solve
  | .countUser | .achieve _ | .recordUser .. | .finished => .done

/-- How far a judging is with the counts of its user. -/
def Point.userPhase {sid : Int} : Point sid → Phase Nat Nat
  | .detail .. | .update .. | .countSubmit | .countSolve _ | .recordProblem .. | .countUser =>
      .writing
  | .achieve submit => .half submit
  | .recordUser submit solve => .full submit solve
  | .finished => .done

/-- One of the two kinds of counts a judging brings up to date. -/
structure Side (γ : Type) where
  /-- The problem, or the user, of a judging. -/
  of : Int → γ
  phase : {sid : Int} → Point sid → Phase Nat Nat
  first : Call
  record : Call
  first_ne : first ≠ .update
  record_ne : record ≠ .update ∧ record ≠ first

section Schedule

variable {store : Store} (judgings : Judgings store)

def Judgings.problem : Side Int :=
  { of := judgings.pidOf
    phase := Point.problemPhase
    first := .countSubmit
    record := .recordProblem
    first_ne := by decide
    record_ne := by decide }

def Judgings.user : Side String :=
  { of := judgings.uidOf
    phase := Point.userPhase
    first := .countUser
    record := .recordUser
    first_ne := by decide
    record_ne := by decide }

section Side

variable {γ : Type} [DecidableEq γ] (side : Side γ)

/-- The first count of a judging. -/
def Side.counts (sid : Int) (a : Action) : Bool := a.sid = sid && a.call = side.first

/-- A verdict is stored that the counts depend on. -/
def Side.updates (key : γ) (a : Action) : Bool := a.call = .update && side.of a.sid = key

/-- A verdict has been stored since this judging began to count. -/
def Side.overtaken (h : List Action) (sid : Int) : Bool :=
  Aggregate.overtaken (side.counts sid) (side.updates (side.of sid)) h

/-- Overtaken counts are recorded only while another judging of the problem, or of the
user, that has not been overtaken has still to record its own. -/
def Side.RecordsCurrent (h : List Action) (s : Server) (a : Action) : Prop :=
  a.call = side.record → side.overtaken h a.sid = true →
    ∃ sid ∈ judgings.sids, sid ≠ a.sid ∧ side.of sid = side.of a.sid ∧
      side.phase (s.points sid) ≠ .done ∧ side.overtaken h sid = false

instance (h : List Action) (s : Server) (a : Action) :
    Decidable (side.RecordsCurrent judgings h s a) := by
  unfold Side.RecordsCurrent
  infer_instance

end Side

def RecordsCurrent (h : List Action) (s : Server) (a : Action) : Prop :=
  judgings.problem.RecordsCurrent judgings h s a ∧ judgings.user.RecordsCurrent judgings h s a

instance (h : List Action) (s : Server) (a : Action) :
    Decidable (RecordsCurrent judgings h s a) := by
  unfold RecordsCurrent
  infer_instance

end Schedule

/-! ## What one call does -/

section Frame

variable {queries : Queries} {store : Store} {judgings : Judgings store} {s t : Server}

theorem of_step {a : Action} (taken : step queries judgings s a = some t) :
    (s.points a.sid).call = some a.call ∧ t = perform queries judgings s a.sid := by
  unfold step at taken
  split at taken
  · rename_i called
    exact ⟨called, (Option.some.inj taken).symm⟩
  · cases taken

/-- What every run keeps of the judgings and their records. -/
structure Kept (judgings : Judgings store) (s : Server) : Prop where
  outside : ∀ sid, sid ∉ judgings.sids → s.points sid = .finished
  record : ∀ sid ∈ judgings.sids, judgings.Concerns sid (s.store.record sid).val
  ori : ∀ sid ∈ judgings.sids, ∀ user ori rest, s.points sid = .update user ori rest →
    judgings.Concerns sid ori.val

theorem Kept.member (kept : Kept judgings s) {a : Action}
    (called : (s.points a.sid).call = some a.call) : a.sid ∈ judgings.sids := by
  by_contra outside
  rw [kept.outside a.sid outside] at called
  cases called

variable (queries judgings s)

theorem perform_points {sid other : Int} (ne : other ≠ sid) :
    (perform queries judgings s sid).points other = s.points other := by
  unfold perform
  split <;> try split
  all_goals simp [Server.goto, ne]

theorem perform_problems {sid pid : Int} (ne : judgings.pidOf sid ≠ pid) :
    (perform queries judgings s sid).problems pid = s.problems pid := by
  unfold perform
  split <;> try split
  all_goals simp [Server.goto, ne.symm]

theorem perform_users {sid : Int} {uid : String} (ne : judgings.uidOf sid ≠ uid) :
    (perform queries judgings s sid).users uid = s.users uid := by
  unfold perform
  split <;> try split
  all_goals simp [Server.goto, ne.symm]

/-- Only `Update` changes the store, and it keeps the record's problem and user. -/
theorem perform_store (sid : Int) :
    (perform queries judgings s sid).store = s.store ∨
      ∃ user ori rest, s.points sid = .update user ori rest ∧
        (perform queries judgings s sid).store = s.store.update sid (user.val.writtenOver ori) := by
  unfold perform
  split <;> try split
  all_goals first | exact Or.inl rfl | skip
  rename_i user ori rest point
  exact Or.inr ⟨user, ori, rest, point, rfl⟩

variable {s}

theorem perform_problemStats (kept : Kept judgings s) {sid pid : Int}
    (member : sid ∈ judgings.sids) (ne : judgings.pidOf sid ≠ pid) :
    problemStats queries (perform queries judgings s sid).store pid =
      problemStats queries s.store pid := by
  rcases perform_store queries judgings s sid with same | ⟨user, ori, rest, point, updated⟩
  · rw [same]
  · rw [updated]
    refine problemStats_update ?_ ?_
    · rwa [(kept.record sid member).1]
    · rwa [← (kept.ori sid member user ori rest point).1] at ne

theorem perform_userStats (kept : Kept judgings s) {sid : Int} {uid : String}
    (member : sid ∈ judgings.sids) (ne : judgings.uidOf sid ≠ uid) :
    userStats queries (perform queries judgings s sid).store uid =
      userStats queries s.store uid := by
  rcases perform_store queries judgings s sid with same | ⟨user, ori, rest, point, updated⟩
  · rw [same]
  · rw [updated]
    refine userStats_update ?_ ?_
    · rwa [(kept.record sid member).2]
    · rwa [← (kept.ori sid member user ori rest point).2] at ne

theorem goOn_ne_update {sid : Int} (final : Copy sid) (copies : List (Copy sid)) (user : Copy sid)
    (ori : Model.Filed sid) (rest : List (Copy sid)) :
    goOn final copies ≠ .update user ori rest := by
  unfold goOn
  split
  · simp
  · split <;> simp

/-- The record read by `Detail` is the stored one. -/
theorem perform_ori {sid : Int} {user : Copy sid} {ori : Model.Filed sid}
    {rest : List (Copy sid)}
    (point : (perform queries judgings s sid).points sid = .update user ori rest) :
    s.store.record sid = ori := by
  unfold perform at point
  split at point
  · split at point
    · exact absurd (by simpa [Server.goto] using point) (goOn_ne_update _ _ user ori rest)
    · rename_i found
      simp only [Server.goto, Function.update_self, Point.update.injEq] at point
      rw [← point.2.1]
      exact (Store.detail_eq_some_iff.1 found).2
  · exact absurd (by simpa [Server.goto] using point) (goOn_ne_update _ _ user ori rest)
  · simp [Server.goto] at point
  · simp [Server.goto] at point
  · simp [Server.goto] at point
  · simp [Server.goto] at point
  · simp [Server.goto] at point
  · simp [Server.goto] at point
  · rename_i finished
    rw [finished] at point
    cases point

variable {queries judgings} in
theorem Kept.next (kept : Kept judgings s) {a : Action}
    (taken : step queries judgings s a = some t) : Kept judgings t := by
  obtain ⟨called, rfl⟩ := of_step taken
  have member := kept.member called
  refine ⟨fun sid outside => ?_, fun sid inside => ?_, fun sid inside user ori rest point => ?_⟩
  · have other : sid ≠ a.sid := fun same => outside (same ▸ member)
    rw [perform_points queries judgings s other]
    exact kept.outside sid outside
  · rcases perform_store queries judgings s a.sid with same | ⟨user, ori, rest, point, updated⟩
    · rw [same]
      exact kept.record sid inside
    · rw [updated]
      rcases eq_or_ne sid a.sid with rfl | other
      · simpa [Store.update, Solution.writtenOver, Judgings.Concerns]
          using kept.ori a.sid member user ori rest point
      · simpa [Store.update, other] using kept.record sid inside
  · rcases eq_or_ne sid a.sid with rfl | other
    · rw [← perform_ori queries judgings point]
      exact kept.record _ inside
    · rw [perform_points queries judgings s other] at point
      exact kept.ori sid inside user ori rest point

end Frame

/-! ## The counts of one problem, or of one user -/

section Side

variable {queries : Queries} {store : Store} {judgings : Judgings store} {s t : Server}
variable {h : List Action} {γ : Type} [DecidableEq γ] {side : Side γ} {key : γ}
variable {stats : Store → γ → Stats} {stored : Server → γ → Stats}

/-- The judgings of a problem, or of a user; the others have nothing to do with it. -/
def Side.phases (judgings : Judgings store) (side : Side γ) (key : γ) (s : Server) (sid : Int) :
    Phase Nat Nat :=
  if sid ∈ judgings.sids ∧ side.of sid = key then side.phase (s.points sid) else .done

def Side.UpToDate (judgings : Judgings store) (side : Side γ) (stats : Store → γ → Stats)
    (stored : Server → γ → Stats) (key : γ) (h : List Action) (s : Server) : Prop :=
  Aggregate.UpToDate side.counts (side.updates key) h (side.phases judgings key s)
    (stats s.store key).counted (stored s key).counted

theorem Side.phases_perform {sid : Int} (member : sid ∈ judgings.sids)
    (mine : side.of sid = key) :
    side.phases judgings key (perform queries judgings s sid) =
      Function.update (side.phases judgings key s) sid
        (side.phase ((perform queries judgings s sid).points sid)) := by
  funext other
  rcases eq_or_ne other sid with rfl | ne
  · simp [phases, member, mine]
  · simp [phases, ne, perform_points queries judgings s ne]

theorem Side.phases_perform_of_ne {sid : Int} (ne : side.of sid ≠ key) :
    side.phases judgings key (perform queries judgings s sid) = side.phases judgings key s := by
  funext other
  rcases eq_or_ne other sid with rfl | apart
  · simp [phases, ne]
  · simp [phases, perform_points queries judgings s apart]

namespace Side.UpToDate

/-- The call of a judging of another problem, or user. -/
theorem other (upToDate : UpToDate judgings side stats stored key h s) {a : Action}
    (ne : side.of a.sid ≠ key)
    (value : stats (perform queries judgings s a.sid).store key = stats s.store key)
    (kept : stored (perform queries judgings s a.sid) key = stored s key) :
    UpToDate judgings side stats stored key (h ++ [a]) (perform queries judgings s a.sid) := by
  unfold UpToDate
  rw [phases_perform_of_ne ne, value, kept]
  refine Aggregate.UpToDate.idle upToDate (by simp [updates, ne]) fun sid read => ?_
  have reader : a.sid = sid := by
    simp only [counts, Bool.and_eq_true, decide_eq_true_eq] at read
    exact read.1
  subst reader
  exact if_neg fun mine => ne mine.2

variable {sid : Int} {call : Call} (member : sid ∈ judgings.sids) (mine : side.of sid = key)
variable (upToDate : UpToDate judgings side stats stored key h s)

include member mine

theorem phase_eq : side.phases judgings key s sid = side.phase (s.points sid) :=
  if_pos ⟨member, mine⟩

include upToDate

/-- A call that the counts do not depend on. -/
theorem idle (quiet : call ≠ .update) (uncounted : call ≠ side.first)
    (phase : side.phase ((perform queries judgings s sid).points sid) =
      side.phase (s.points sid))
    (value : stats (perform queries judgings s sid).store key = stats s.store key)
    (kept : stored (perform queries judgings s sid) key = stored s key) :
    UpToDate judgings side stats stored key (h ++ [⟨sid, call⟩])
      (perform queries judgings s sid) := by
  unfold UpToDate
  rw [phases_perform member mine, phase, ← phase_eq member mine, Function.update_eq_self, value,
    kept]
  exact Aggregate.UpToDate.idle upToDate (by simp [updates, quiet])
    fun other read => by simp [counts, uncounted] at read

theorem write (before : side.phase (s.points sid) = .writing)
    (after : side.phase ((perform queries judgings s sid).points sid) = .writing)
    (kept : stored (perform queries judgings s sid) key = stored s key) :
    UpToDate judgings side stats stored key (h ++ [⟨sid, .update⟩])
      (perform queries judgings s sid) := by
  have phase := (phase_eq (s := s) member mine).trans before
  unfold UpToDate
  rw [phases_perform member mine, after, ← phase, Function.update_eq_self, kept]
  exact Aggregate.UpToDate.write upToDate phase (by simp [updates, mine])
    (fun other => by simp [counts, side.first_ne.symm]) _

theorem readFirst (before : side.phase (s.points sid) = .writing)
    (after : side.phase ((perform queries judgings s sid).points sid) =
      .half (stats s.store key).submit)
    (value : stats (perform queries judgings s sid).store key = stats s.store key)
    (kept : stored (perform queries judgings s sid) key = stored s key) :
    UpToDate judgings side stats stored key (h ++ [⟨sid, side.first⟩])
      (perform queries judgings s sid) := by
  unfold UpToDate
  rw [phases_perform member mine, after, value, kept]
  exact Aggregate.UpToDate.readFirst upToDate ((phase_eq member mine).trans before)
    (by simp [updates, side.first_ne]) (fun other => by simp [counts, eq_comm])

theorem readSecond (submit : Nat) (quiet : call ≠ .update) (uncounted : call ≠ side.first)
    (before : side.phase (s.points sid) = .half submit)
    (after : side.phase ((perform queries judgings s sid).points sid) =
      .full submit (stats s.store key).solve)
    (value : stats (perform queries judgings s sid).store key = stats s.store key)
    (kept : stored (perform queries judgings s sid) key = stored s key) :
    UpToDate judgings side stats stored key (h ++ [⟨sid, call⟩])
      (perform queries judgings s sid) := by
  unfold UpToDate
  rw [phases_perform member mine, after, value, kept]
  exact Aggregate.UpToDate.readSecond upToDate ((phase_eq member mine).trans before)
    (by simp [updates, quiet]) (fun other => by simp [counts, uncounted])

theorem publish (submit solve : Nat)
    (allowed : side.RecordsCurrent judgings h s ⟨sid, side.record⟩)
    (before : side.phase (s.points sid) = .full submit solve)
    (after : side.phase ((perform queries judgings s sid).points sid) = .done)
    (value : stats (perform queries judgings s sid).store key = stats s.store key)
    (recorded : stored (perform queries judgings s sid) key = ⟨solve, submit⟩) :
    UpToDate judgings side stats stored key (h ++ [⟨sid, side.record⟩])
      (perform queries judgings s sid) := by
  unfold UpToDate
  rw [phases_perform member mine, after, value, recorded]
  refine Aggregate.UpToDate.publish upToDate ((phase_eq member mine).trans before)
    (by simp [updates, side.record_ne.1]) (fun other => by simp [counts, side.record_ne.2])
    fun stale => ?_
  rw [← mine] at stale
  obtain ⟨other, inside, ne, same, working, current⟩ := allowed rfl stale
  refine ⟨other, ne, ?_, ?_⟩
  · rwa [phase_eq inside (same.trans mine)]
  · rwa [overtaken, same, mine] at current

end Side.UpToDate

end Side

/-! ## Problems -/

section Runs

variable {queries : Queries} {store : Store} {judgings : Judgings store} {s t : Server}
variable {h : List Action}

/-- `UpdateSolution` is still to come or has just been done. -/
theorem goOn_phases {sid : Int} (member : sid ∈ judgings.sids) (copies : List (Copy sid)) :
    (goOn (judgings.final sid) copies).problemPhase = .writing ∧
      (goOn (judgings.final sid) copies).userPhase = .writing := by
  unfold goOn
  split
  · exact ⟨rfl, rfl⟩
  · rw [if_neg (not_not_intro (judgings.practice sid member))]
    exact ⟨rfl, rfl⟩

variable (queries) in
/-- `Detail` changes nothing but the point, and the judging has still to count. -/
theorem perform_detail {sid : Int} (member : sid ∈ judgings.sids) {user : Copy sid}
    {rest : List (Copy sid)} (point : s.points sid = .detail user rest) :
    let t := perform queries judgings s sid
    t.store = s.store ∧ t.problems = s.problems ∧ t.users = s.users ∧
      (t.points sid).problemPhase = .writing ∧ (t.points sid).userPhase = .writing := by
  simp only [perform, point]
  split
  · simp [Server.goto, goOn_phases member rest]
  · simp [Server.goto, Point.problemPhase, Point.userPhase]

abbrev ProblemUpToDate (queries : Queries) (judgings : Judgings store) :=
  judgings.problem.UpToDate judgings (problemStats queries) Server.problems

theorem problemUpToDate_own {sid pid : Int} {call : Call} (member : sid ∈ judgings.sids)
    (mine : judgings.pidOf sid = pid) (upToDate : ProblemUpToDate queries judgings pid h s)
    (allowed : RecordsCurrent judgings h s ⟨sid, call⟩)
    (called : (s.points sid).call = some call) :
    ProblemUpToDate queries judgings pid (h ++ [⟨sid, call⟩])
      (perform queries judgings s sid) := by
  cases point : s.points sid <;> rw [point] at called <;> cases called
  case detail user rest =>
      obtain ⟨store_, problems, -, after, -⟩ := perform_detail queries member point
      refine upToDate.idle member mine (by simp) (by simp [Judgings.problem]) ?_ ?_ ?_
      · exact after.trans (by simp [Judgings.problem, point, Point.problemPhase])
      · rw [store_]
      · rw [problems]
  case update user ori rest =>
      refine upToDate.write member mine ?_ ?_ ?_
      · simp [Judgings.problem, point, Point.problemPhase]
      · simp [Judgings.problem, perform, point, Server.goto, goOn_phases member rest]
      · simp [perform, point, Server.goto]
  case countSubmit =>
      refine upToDate.readFirst member mine ?_ ?_ ?_ ?_
      · simp [Judgings.problem, point, Point.problemPhase]
      · simp [Judgings.problem, perform, point, Server.goto, Point.problemPhase,
          problemStats, mine]
      all_goals simp [perform, point, Server.goto]
  case countSolve submit =>
      refine upToDate.readSecond member mine submit (by simp) (by simp [Judgings.problem])
        ?_ ?_ ?_ ?_
      · simp [Judgings.problem, point, Point.problemPhase]
      · simp [Judgings.problem, perform, point, Server.goto, Point.problemPhase,
          problemStats, mine]
      all_goals simp [perform, point, Server.goto]
  case recordProblem submit solve =>
      refine upToDate.publish member mine submit solve allowed.1 ?_ ?_ ?_ ?_
      · simp [Judgings.problem, point, Point.problemPhase]
      · simp [Judgings.problem, perform, point, Server.goto, Point.problemPhase]
      · simp [perform, point, Server.goto]
      · simp [perform, point, Server.goto, mine]
  -- the counts of the user are no part of this
  case countUser =>
      refine upToDate.idle member mine ?_ ?_ ?_ ?_ ?_ <;>
        simp [Judgings.problem, perform, point, Server.goto, Point.problemPhase]
  case achieve submit =>
      refine upToDate.idle member mine ?_ ?_ ?_ ?_ ?_ <;>
        simp [Judgings.problem, perform, point, Server.goto, Point.problemPhase]
  case recordUser submit solve =>
      refine upToDate.idle member mine ?_ ?_ ?_ ?_ ?_ <;>
        simp [Judgings.problem, perform, point, Server.goto, Point.problemPhase]

theorem problemUpToDate_next {pid : Int} (kept : Kept judgings s)
    (upToDate : ProblemUpToDate queries judgings pid h s) {a : Action}
    (allowed : RecordsCurrent judgings h s a) (taken : step queries judgings s a = some t) :
    ProblemUpToDate queries judgings pid (h ++ [a]) t := by
  obtain ⟨called, rfl⟩ := of_step taken
  have member := kept.member called
  by_cases mine : judgings.pidOf a.sid = pid
  · exact problemUpToDate_own member mine upToDate allowed called
  · exact upToDate.other mine (perform_problemStats queries judgings kept member mine)
      (perform_problems queries judgings s mine)

/-! ## Users -/

abbrev UserUpToDate (queries : Queries) (judgings : Judgings store) :=
  judgings.user.UpToDate judgings (userStats queries) Server.users

theorem userUpToDate_own {sid : Int} {uid : String} {call : Call} (member : sid ∈ judgings.sids)
    (mine : judgings.uidOf sid = uid) (upToDate : UserUpToDate queries judgings uid h s)
    (allowed : RecordsCurrent judgings h s ⟨sid, call⟩)
    (called : (s.points sid).call = some call) :
    UserUpToDate queries judgings uid (h ++ [⟨sid, call⟩])
      (perform queries judgings s sid) := by
  cases point : s.points sid <;> rw [point] at called <;> cases called
  case detail user rest =>
      obtain ⟨store_, -, users, -, after⟩ := perform_detail queries member point
      refine upToDate.idle member mine (by simp) (by simp [Judgings.user]) ?_ ?_ ?_
      · exact after.trans (by simp [Judgings.user, point, Point.userPhase])
      · rw [store_]
      · rw [users]
  case update user ori rest =>
      refine upToDate.write member mine ?_ ?_ ?_
      · simp [Judgings.user, point, Point.userPhase]
      · simp [Judgings.user, perform, point, Server.goto, goOn_phases member rest]
      · simp [perform, point, Server.goto]
  -- the counts of the problem come before those of the user
  case countSubmit =>
      refine upToDate.idle member mine ?_ ?_ ?_ ?_ ?_ <;>
        simp [Judgings.user, perform, point, Server.goto, Point.userPhase]
  case countSolve submit =>
      refine upToDate.idle member mine ?_ ?_ ?_ ?_ ?_ <;>
        simp [Judgings.user, perform, point, Server.goto, Point.userPhase]
  case recordProblem submit solve =>
      refine upToDate.idle member mine ?_ ?_ ?_ ?_ ?_ <;>
        simp [Judgings.user, perform, point, Server.goto, Point.userPhase]
  case countUser =>
      refine upToDate.readFirst member mine ?_ ?_ ?_ ?_
      · simp [Judgings.user, point, Point.userPhase]
      · simp [Judgings.user, perform, point, Server.goto, Point.userPhase, userStats, mine]
      all_goals simp [perform, point, Server.goto]
  case achieve submit =>
      refine upToDate.readSecond member mine submit (by simp) (by simp [Judgings.user]) ?_ ?_ ?_ ?_
      · simp [Judgings.user, point, Point.userPhase]
      · simp [Judgings.user, perform, point, Server.goto, Point.userPhase, userStats, mine]
      all_goals simp [perform, point, Server.goto]
  case recordUser submit solve =>
      refine upToDate.publish member mine submit solve allowed.2 ?_ ?_ ?_ ?_
      · simp [Judgings.user, point, Point.userPhase]
      · simp [Judgings.user, perform, point, Server.goto, Point.userPhase]
      · simp [perform, point, Server.goto]
      · simp [perform, point, Server.goto, mine]

theorem userUpToDate_next {uid : String} (kept : Kept judgings s)
    (upToDate : UserUpToDate queries judgings uid h s) {a : Action}
    (allowed : RecordsCurrent judgings h s a) (taken : step queries judgings s a = some t) :
    UserUpToDate queries judgings uid (h ++ [a]) t := by
  obtain ⟨called, rfl⟩ := of_step taken
  have member := kept.member called
  by_cases mine : judgings.uidOf a.sid = uid
  · exact userUpToDate_own member mine upToDate allowed called
  · exact upToDate.other mine (perform_userStats queries judgings kept member mine)
      (perform_users queries judgings s mine)

/-! ## Whole runs -/

section Start

variable {problems : Int → Stats} {users : String → Stats}

theorem kept_start : Kept judgings (start judgings problems users) where
  outside := fun _ outside => if_neg outside
  record := fun sid inside => ⟨judgings.pid sid inside, judgings.uid sid inside⟩
  ori := fun _ inside user ori rest point =>
    absurd ((if_pos inside).symm.trans point) (goOn_ne_update _ _ user ori rest)

theorem start_phases {sid : Int} (inside : sid ∈ judgings.sids) :
    ((start judgings problems users).points sid).problemPhase = .writing ∧
      ((start judgings problems users).points sid).userPhase = .writing := by
  simp only [start, if_pos inside]
  exact goOn_phases inside _

theorem upToDate_start {γ : Type} [DecidableEq γ] {side : Side γ}
    {stats : Store → γ → Stats} {stored : Server → γ → Stats} {sid : Int}
    (inside : sid ∈ judgings.sids) (writing : ∀ sid ∈ judgings.sids,
      side.phase ((start judgings problems users).points sid) = .writing) :
    side.UpToDate judgings stats stored (side.of sid) [] (start judgings problems users) := by
  refine Aggregate.UpToDate.start (i := sid) ?_ fun other => ?_
  · exact (if_pos ⟨inside, rfl⟩).trans (writing sid inside)
  · by_cases member : other ∈ judgings.sids ∧ side.of other = side.of sid
    · exact Or.inl ((if_pos member).trans (writing other member.1))
    · exact Or.inr (if_neg member)

theorem upToDate_of_run
    (run : Run (step queries judgings) (RecordsCurrent judgings)
      (start judgings problems users) h s)
    {sid : Int} (touched : sid ∈ judgings.sids) :
    Kept judgings s ∧ ProblemUpToDate queries judgings (judgings.pidOf sid) h s ∧
      UserUpToDate queries judgings (judgings.uidOf sid) h s := by
  induction run with
  | start =>
      exact ⟨kept_start, upToDate_start touched fun _ inside => (start_phases inside).1,
        upToDate_start touched fun _ inside => (start_phases inside).2⟩
  | step _ allowed taken ih =>
      obtain ⟨kept, problem, user⟩ := ih
      exact ⟨kept.next taken, problemUpToDate_next kept problem allowed taken,
        userUpToDate_next kept user allowed taken⟩

theorem phases_finished {γ : Type} [DecidableEq γ] {side : Side γ} {key : γ}
    (finished : ∀ sid ∈ judgings.sids, side.phase (s.points sid) = .done) (sid : Int) :
    side.phases judgings key s sid = .done := by
  unfold Side.phases
  split
  · rename_i member
    exact finished sid member.1
  · rfl

/-- **No lost update**: a run in which overtaken counts are never recorded last ends with
the counts that a fresh query of the final store returns. -/
theorem stats_current
    (run : Run (step queries judgings) (RecordsCurrent judgings)
      (start judgings problems users) h t)
    (finished : ∀ sid ∈ judgings.sids, t.points sid = .finished) {sid : Int}
    (touched : sid ∈ judgings.sids) :
    t.problems (judgings.pidOf sid) = problemStats queries t.store (judgings.pidOf sid) ∧
      t.users (judgings.uidOf sid) = userStats queries t.store (judgings.uidOf sid) := by
  obtain ⟨-, problem, user⟩ := upToDate_of_run run touched
  refine ⟨Stats.counted_injective (problem.finish fun other => ?_),
    Stats.counted_injective (user.finish fun other => ?_)⟩
  · exact phases_finished (fun sid inside => by rw [finished sid inside]; rfl) other
  · exact phases_finished (fun sid inside => by rw [finished sid inside]; rfl) other

end Start

end Runs

/-! ## Two judgings -/

namespace Sample

def accepted (sol : Model.Solution) : Bool := sol.judge = Judge.AC.code

/-- A user's list has each problem once, and there is only one problem. -/
def queries : Queries :=
  { selects := fun action sol => match action with
      | .submit => true
      | .solve => accepted sol
    achieve := fun _ _ sols => if ∃ sol ∈ sols, accepted sol = true then [1000] else [] }

def final (sid : Int) : Copy sid :=
  ⟨{ (Dispatch.Sample.record sid).val with judge := Judge.AC.code, vid := 1000, oj := "" }, rfl⟩

/-- Submissions 1 and 2 are accepted on the same problem, for the same user. -/
def judgings : Judgings Dispatch.Sample.shared.store :=
  { sids := {1, 2}
    running := fun _ => none
    final
    pid := fun _ _ => rfl
    uid := fun _ _ => rfl
    practice := fun _ _ => rfl }

def begin : Server := start judgings (fun _ => ⟨0, 0⟩) fun _ => ⟨0, 0⟩

/-- From the verdict to the counts of the problem. -/
def judged (sid : Int) : List Action :=
  [⟨sid, .detail⟩, ⟨sid, .update⟩, ⟨sid, .countSubmit⟩, ⟨sid, .countSolve⟩]

def recorded (sid : Int) : List Action :=
  [⟨sid, .recordProblem⟩, ⟨sid, .countUser⟩, ⟨sid, .achieve⟩, ⟨sid, .recordUser⟩]

end Sample

theorem stats_current_sample :
    ∃ t, Run (step Sample.queries Sample.judgings) (RecordsCurrent Sample.judgings) Sample.begin
        (Sample.judged 1 ++ Sample.judged 2 ++ Sample.recorded 1 ++ Sample.recorded 2) t ∧
      t.problems 1000 = problemStats Sample.queries t.store 1000 ∧
      t.users "" = userStats Sample.queries t.store "" := by
  -- submission 1 is overtaken, but does not record last
  have leads : ∃ t, follow (step Sample.queries Sample.judgings) (RecordsCurrent Sample.judgings)
      [] Sample.begin
        (Sample.judged 1 ++ Sample.judged 2 ++ Sample.recorded 1 ++ Sample.recorded 2) = some t ∧
      t.points 1 = .finished ∧ t.points 2 = .finished := ⟨_, rfl, rfl, rfl⟩
  obtain ⟨t, leads, first, second⟩ := leads
  have run := Run.of_follow leads
  refine ⟨t, run, stats_current run (fun sid inside => ?_)
    (show (1 : Int) ∈ Sample.judgings.sids by decide)⟩
  rcases Finset.mem_insert.1 inside with rfl | last
  · exact first
  · rw [Finset.mem_singleton.1 last]
    exact second

/-- Submission 1 counts before submission 2 is accepted, and records after it. -/
theorem stats_stale_sample :
    ∃ t, Run (step Sample.queries Sample.judgings) Free Sample.begin
        (Sample.judged 1 ++ Sample.judged 2 ++ Sample.recorded 2 ++ Sample.recorded 1) t ∧
      t.points 1 = .finished ∧ t.points 2 = .finished ∧
      (t.problems 1000).solve = 1 ∧ (problemStats Sample.queries t.store 1000).solve = 2 := by
  exact ⟨_, Run.of_follow rfl, rfl, rfl, rfl, rfl⟩

end RunServer.Dispatch.Statistics
