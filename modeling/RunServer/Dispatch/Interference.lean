/-
# Dispatch.Interference -- judgings side by side on one judger

`JudgeForever` starts every judging in its own goroutine, and all of them use the one
`ZJGSUJudger` in `VJs`.  A stage is one atomic step here, and any stages of any
submissions may come in between.  `Init` points the judger at its submission's
directory and `Login` gives it its problem's limits; `Submit` and `GetStatus` use
what they find there.

`Progressed` says what a submission has at each of its program points, as if it were
alone.  A run keeps that for every submission as long as its programs get their own
directory and limits (`OwnResources`), and that is a matter of the schedule alone
(`OwnsJudger`).
-/
import RunServer.Theory.History
import RunServer.Theory.Interleave
import RunServer.Dispatch.Alone

namespace RunServer.Dispatch.Interference

open RunServer.Theory
open RunServer.Theory.Interleave

set_option autoImplicit false

/-! ## The goroutines -/

/-- What a judging does next; the last is the deferred `RemoveAll`. -/
inductive Stage where
  | init
  | login
  | submit
  | getStatus
  | removeAll
  deriving DecidableEq, Repr

inductive Point where
  | before (stage : Stage)
  | finished
  | panicked
  deriving DecidableEq, Repr

/-- A stage of `Run` that comes after `Init`. -/
def Stage.afterInit : Stage → Prop
  | .login | .submit | .getStatus => True
  | .init | .removeAll => False

/-- A stage of `Run` that comes after `Login`. -/
def Stage.afterLogin : Stage → Prop
  | .submit | .getStatus => True
  | .init | .login | .removeAll => False

structure Action where
  sid : Int
  stage : Stage
  deriving DecidableEq, Repr

structure Server where
  shared : Shared
  users : Int → Solution
  points : Int → Point
  /-- A panic that is not recovered ends the process. -/
  crashed : Bool

/-- The submissions of a run, by `Sid`. -/
abbrev Submissions := (sid : Int) → { user : Solution // user.sid = sid }

def start (shared : Shared) (submissions : Submissions) : Server :=
  { shared
    users := fun sid => (submissions sid).val.setResult Judge.PD.code
    points := fun _ => .before .init
    crashed := false }

section Steps

variable (progs : Programs)

/-- The next stage follows, or the loop of `Run` is left. -/
def afterStage (next : Stage) : Ended → Point
  | .ok => .before next
  | .err => .before .removeAll
  | .panicked => .panicked

def Server.advance (s : Server) (sid : Int) (next : Stage)
    (r : Shared × Solution × Ended) : Server :=
  { shared := r.1
    users := Function.update s.users sid r.2.1
    points := Function.update s.points sid (afterStage next r.2.2)
    crashed := r.2.2 = .panicked }

def perform (s : Server) (a : Action) : Server :=
  match a.stage with
  | .init => s.advance a.sid .login (stageInit s.shared (s.users a.sid))
  | .login => s.advance a.sid .submit (stageLogin progs s.shared (s.users a.sid))
  | .submit => s.advance a.sid .getStatus (stageSubmit progs s.shared (s.users a.sid))
  | .getStatus => s.advance a.sid .removeAll (stageGetStatus progs s.shared (s.users a.sid))
  | .removeAll =>
      { s with
        shared := s.shared.removeAll a.sid
        points := Function.update s.points a.sid .finished }

def step (s : Server) (a : Action) : Option Server :=
  if s.crashed = false ∧ s.points a.sid = .before a.stage then some (perform progs s a) else none

variable {progs}

theorem of_step {s t : Server} {a : Action} (taken : step progs s a = some t) :
    s.crashed = false ∧ s.points a.sid = .before a.stage ∧ t = perform progs s a := by
  unfold step at taken
  split at taken
  · rename_i possible
    exact ⟨possible.1, possible.2, (Option.some.inj taken).symm⟩
  · cases taken

theorem point_of_removeAll {s : Server} {sid other : Int} {stage : Stage}
    (before : (perform progs s ⟨sid, .removeAll⟩).points other = .before stage) :
    s.points other = .before stage := by
  by_cases mine : other = sid
  · simp [perform, mine] at before
  · simpa [perform, mine] using before

end Steps

/-! ## The schedule -/

/-- Whose turn the last `stage` of a run was. -/
def lastOf (stage : Stage) (h : List Action) : Option Int :=
  ((h.filter fun a => a.stage = stage).getLast?).map Action.sid

theorem lastOf_snoc (stage : Stage) (h : List Action) (a : Action) :
    lastOf stage (h ++ [a]) = if a.stage = stage then some a.sid else lastOf stage h := by
  by_cases same : a.stage = stage
  · simp [lastOf, same]
  · simp [lastOf, same]

theorem lastOf_isSome_snoc {stage : Stage} {h : List Action} {a : Action}
    (some_ : (lastOf stage h).isSome) : (lastOf stage (h ++ [a])).isSome := by
  rw [lastOf_snoc]
  split
  · rfl
  · exact some_

/-- `Submit` and `GetStatus` come only when no other submission has been at `Init` since
this one was, and `GetStatus` only when the last `Login` was for limits like its own. -/
def OwnsJudger (progs : Programs) (submissions : Submissions) (h : List Action) (_ : Server)
    (a : Action) : Prop :=
  (a.stage = .submit ∨ a.stage = .getStatus → lastOf .init h = some a.sid) ∧
    (a.stage = .getStatus → ∃ last ∈ lastOf .login h,
      progs.problem (submissions last).val.vid = progs.problem (submissions a.sid).val.vid)

instance (progs : Programs) (submissions : Submissions) (h : List Action) (s : Server)
    (a : Action) : Decidable (OwnsJudger progs submissions h s a) := by
  unfold OwnsJudger
  infer_instance

/-- The programs of a stage get the submission's own directory and limits. -/
def OwnResources (progs : Programs) (submissions : Submissions) (s : Server) (a : Action) :
    Prop :=
  (a.stage = .submit ∨ a.stage = .getStatus →
      s.shared.z.workdir = some (a.sid, (submissions a.sid).val.vid)) ∧
    (a.stage = .getStatus →
      progs.problem (submissions a.sid).val.vid = some (s.shared.z.time, s.shared.z.mem))

/-! ## What a submission has, as if alone -/

/-- What the stages before `point` make of a submission's own part. -/
def Progressed (progs : Programs) (o : Own) (now : Own) : Point → Prop
  | .before .init => now = o
  | .before .login => now = o.init
  | .before .submit => now = o.init ∧ (progs.problem o.user.vid).isSome
  | .before .getStatus => o.init.submit progs = (now, .ok) ∧ (progs.problem o.user.vid).isSome
  | .before .removeAll | .finished =>
      ∃ limits, progs.problem o.user.vid = some limits ∧ now.user = (o.run progs limits).1.user
  | .panicked => True

theorem stageLogin_effect (progs : Programs) (w : Shared) (user : Solution) :
    Effect w user (w.own user, (stageLogin progs w user).2.2) (stageLogin progs w user) := by
  unfold stageLogin
  split <;> exact ⟨rfl, rfl, rfl, rfl, rfl, fun _ _ => rfl⟩

theorem stageLogin_user (progs : Programs) (w : Shared) (user : Solution) :
    (stageLogin progs w user).2.1 = user := by
  unfold stageLogin
  split <;> rfl

theorem stageLogin_workdir (progs : Programs) (w : Shared) (user : Solution) :
    (stageLogin progs w user).1.z.workdir = w.z.workdir := by
  unfold stageLogin
  split <;> rfl

theorem stageSubmit_filing (progs : Programs) (w : Shared) (user : Solution) :
    (stageSubmit progs w user).2.1.filing = user.filing := by
  have compiled : (compile progs w user).2.filing = user.filing := by
    unfold compile
    dsimp only
    split <;> rfl
  unfold stageSubmit
  dsimp only
  split <;> exact compiled

section Runs

variable (progs : Programs) (shared : Shared) (submissions : Submissions)

/-- Where the stages of a submission start from. -/
def ownAtStart (sid : Int) : Own :=
  shared.own ((submissions sid).val.setResult Judge.PD.code)

/-- What every run keeps: the judger is as the last `Init` and the last `Login` left it. -/
structure Tracked (h : List Action) (s : Server) : Prop where
  sid : ∀ sid, (s.users sid).sid = sid
  vid : ∀ sid, (s.users sid).vid = (submissions sid).val.vid
  workdir : ∀ sid, lastOf .init h = some sid →
    s.shared.z.workdir = some (sid, (submissions sid).val.vid)
  limits : s.crashed = false → ∀ sid, lastOf .login h = some sid →
    progs.problem (submissions sid).val.vid = some (s.shared.z.time, s.shared.z.mem)
  initialised : ∀ sid stage, s.points sid = .before stage → stage.afterInit →
    (lastOf .init h).isSome
  loggedIn : ∀ sid stage, s.points sid = .before stage → stage.afterLogin →
    (lastOf .login h).isSome

variable {progs shared submissions}

theorem tracked_start : Tracked progs submissions [] (start shared submissions) where
  sid := fun sid => (submissions sid).property
  vid := fun _ => rfl
  workdir := fun sid none_ => by cases none_
  limits := fun _ sid none_ => by cases none_
  initialised := fun sid stage point after => by cases point; cases after
  loggedIn := fun sid stage point after => by cases point; cases after

theorem Tracked.advance {h : List Action} {s : Server} {a : Action} {next : Stage}
    {r : Shared × Solution × Ended} (tracked : Tracked progs submissions h s)
    (sid : r.2.1.sid = (s.users a.sid).sid) (vid : r.2.1.vid = (s.users a.sid).vid)
    (workdir : ∀ sid, lastOf .init (h ++ [a]) = some sid →
      r.1.z.workdir = some (sid, (submissions sid).val.vid))
    (limits : r.2.2 ≠ .panicked → ∀ sid, lastOf .login (h ++ [a]) = some sid →
      progs.problem (submissions sid).val.vid = some (r.1.z.time, r.1.z.mem))
    (initialised : (lastOf .init (h ++ [a])).isSome)
    (loggedIn : next.afterLogin → (lastOf .login (h ++ [a])).isSome) :
    Tracked progs submissions (h ++ [a]) (s.advance a.sid next r) := by
  refine ⟨fun other => ?_, fun other => ?_, workdir, fun alive => limits fun panicked => ?_,
    fun other stage point after => initialised, fun other stage point after => ?_⟩
  · by_cases mine : other = a.sid
    · subst mine
      simpa [Server.advance] using sid.trans (tracked.sid _)
    · simpa [Server.advance, mine] using tracked.sid other
  · by_cases mine : other = a.sid
    · subst mine
      simpa [Server.advance] using vid.trans (tracked.vid _)
    · simpa [Server.advance, mine] using tracked.vid other
  · simp [Server.advance, panicked] at alive
  · by_cases mine : other = a.sid
    · subst mine
      simp only [Server.advance, Function.update_self] at point
      cases ended : r.2.2 <;> rw [ended] at point <;> cases point
      · exact loggedIn after
      · cases after
    · simp only [Server.advance, Function.update_of_ne mine] at point
      exact lastOf_isSome_snoc (tracked.loggedIn other stage point after)

theorem Tracked.next {h : List Action} {s t : Server} {a : Action}
    (tracked : Tracked progs submissions h s) (taken : step progs s a = some t) :
    Tracked progs submissions (h ++ [a]) t := by
  obtain ⟨alive, point, rfl⟩ := of_step taken
  have initialised (after : a.stage.afterInit) : (lastOf .init (h ++ [a])).isSome :=
    lastOf_isSome_snoc (tracked.initialised _ _ point after)
  have workdir (later : a.stage ≠ .init) (sid : Int) (last : lastOf .init (h ++ [a]) = some sid) :
      s.shared.z.workdir = some (sid, (submissions sid).val.vid) := by
    rw [lastOf_snoc, if_neg later] at last
    exact tracked.workdir sid last
  have limits (other : a.stage ≠ .login) (sid : Int)
      (last : lastOf .login (h ++ [a]) = some sid) :
      progs.problem (submissions sid).val.vid = some (s.shared.z.time, s.shared.z.mem) := by
    rw [lastOf_snoc, if_neg other] at last
    exact tracked.limits alive sid last
  obtain ⟨sid, stage⟩ := a
  cases stage with
  | init =>
      refine tracked.advance rfl rfl ?_ (fun _ => limits (by simp)) ?_ (fun after => by cases after)
      · intro other last
        rw [lastOf_snoc, if_pos rfl] at last
        cases last
        show some ((s.users sid).sid, (s.users sid).vid) = _
        rw [tracked.sid, tracked.vid]
      · rw [lastOf_snoc, if_pos rfl]
        rfl
  | login =>
      refine tracked.advance ?_ ?_ ?_ ?_ (initialised trivial) ?_
      · rw [stageLogin_user]
      · rw [stageLogin_user]
      · rw [stageLogin_workdir]
        exact workdir (by simp)
      · intro ended other last
        rw [lastOf_snoc, if_pos rfl] at last
        cases last
        rw [← tracked.vid]
        cases found : progs.problem (s.users sid).vid with
        | none => simp [stageLogin, found] at ended
        | some limits => simp [stageLogin, found]
      · intro _
        rw [lastOf_snoc, if_pos rfl]
        rfl
  | submit =>
      have ids := Solution.ids_of_filing (stageSubmit_filing progs s.shared (s.users sid))
      refine tracked.advance ids.1 ids.2 ?_ ?_ (initialised trivial) fun _ =>
        lastOf_isSome_snoc (tracked.loggedIn _ _ point trivial)
      · rw [stageSubmit_z]
        exact workdir (by simp)
      · rw [stageSubmit_z]
        exact fun _ => limits (by simp)
  | getStatus =>
      have ids := Solution.ids_of_filing <| readStatus_filing (s.users sid)
        (progs.runner (s.users sid).language s.shared.z.time s.shared.z.mem s.shared.workdir).2
      refine tracked.advance ids.1 ids.2 ?_ ?_ (initialised trivial) fun after => by cases after
      · rw [stageGetStatus_z]
        exact workdir (by simp)
      · rw [stageGetStatus_z]
        exact fun _ => limits (by simp)
  | removeAll =>
      refine ⟨tracked.sid, tracked.vid, workdir (by simp), fun _ => limits (by simp),
        fun other stage before after => ?_, fun other stage before after => ?_⟩
      · have kept := point_of_removeAll before
        exact lastOf_isSome_snoc (tracked.initialised other stage kept after)
      · have kept := point_of_removeAll before
        exact lastOf_isSome_snoc (tracked.loggedIn other stage kept after)

/-! ## Own resources, own schedule -/

/-- **The schedule decides the resources**: a step that is taken has its own directory and
limits just when the judger is owned. -/
theorem Tracked.ownsJudger_iff {h : List Action} {s t : Server} {a : Action}
    (tracked : Tracked progs submissions h s) (taken : step progs s a = some t) :
    OwnsJudger progs submissions h s a ↔ OwnResources progs submissions s a := by
  obtain ⟨alive, point, -⟩ := of_step taken
  refine and_congr (imp_congr_right fun stage => ?_) (imp_congr_right fun stage => ?_)
  · have after : a.stage.afterInit := by
      rcases stage with is | is <;> rw [is] <;> trivial
    obtain ⟨last, turn⟩ := Option.isSome_iff_exists.1 (tracked.initialised _ _ point after)
    rw [turn, tracked.workdir last turn]
    refine ⟨fun same => ?_, fun same => ?_⟩
    · cases same
      rfl
    · exact congrArg some (congrArg Prod.fst (Option.some.inj same))
  · have after : a.stage.afterLogin := by
      rw [stage]
      trivial
    obtain ⟨last, turn⟩ := Option.isSome_iff_exists.1 (tracked.loggedIn _ _ point after)
    rw [← tracked.limits alive last turn, turn]
    refine ⟨?_, fun same => ⟨last, rfl, same.symm⟩⟩
    rintro ⟨_, same, problem⟩
    cases same
    exact problem.symm

/-- A stage that only touches its own submission keeps what the others have. -/
theorem progressed_advance {h : List Action} {s : Server} (a : Action) (next : Stage)
    {after : Own × Ended} {r : Shared × Solution × Ended}
    (tracked : Tracked progs submissions h s)
    (own : ∀ sid, Progressed progs (ownAtStart shared submissions sid)
      (s.shared.own (s.users sid)) (s.points sid))
    (effect : Effect s.shared (s.users a.sid) after r)
    (progressed : Progressed progs (ownAtStart shared submissions a.sid) after.1
      (afterStage next after.2)) (sid : Int) :
    Progressed progs (ownAtStart shared submissions sid)
      ((s.advance a.sid next r).shared.own ((s.advance a.sid next r).users sid))
      ((s.advance a.sid next r).points sid) := by
  by_cases mine : sid = a.sid
  · subst mine
    simp only [Server.advance, Function.update_self]
    rw [effect.own, effect.ended]
    exact progressed
  · have other : r.1.tree ((s.users sid).sid, (s.users sid).vid) =
        s.shared.tree ((s.users sid).sid, (s.users sid).vid) := by
      refine effect.frame _ fun same => mine ?_
      have first := congrArg Prod.fst same
      rwa [tracked.sid, tracked.sid] at first
    have kept := own sid
    unfold Shared.own at kept ⊢
    simpa [Server.advance, mine, other] using kept

theorem progressed_next {h : List Action} {s t : Server} {a : Action}
    (tracked : Tracked progs submissions h s)
    (allowed : OwnResources progs submissions s a) (taken : step progs s a = some t)
    (own : ∀ sid, Progressed progs (ownAtStart shared submissions sid)
      (s.shared.own (s.users sid)) (s.points sid)) (sid : Int) :
    Progressed progs (ownAtStart shared submissions sid) (t.shared.own (t.users sid))
      (t.points sid) := by
  obtain ⟨-, point, rfl⟩ := of_step taken
  have mine := own a.sid
  rw [point] at mine
  have path : ((s.users a.sid).sid, (s.users a.sid).vid) =
      (a.sid, (submissions a.sid).val.vid) := by rw [tracked.sid, tracked.vid]
  obtain ⟨turn, stage⟩ := a
  cases stage with
  | init =>
      exact progressed_advance ⟨turn, .init⟩ .login tracked own (stageInit_effect s.shared _)
        (congrArg Own.init mine) sid
  | login =>
      refine progressed_advance ⟨turn, .login⟩ .submit tracked own
        (stageLogin_effect progs s.shared _) ?_ sid
      cases found : progs.problem (s.users turn).vid with
      | none =>
          have ended : (stageLogin progs s.shared (s.users turn)).2.2 = .panicked := by
            simp [stageLogin, found]
          rw [ended]
          trivial
      | some limits =>
          have ended : (stageLogin progs s.shared (s.users turn)).2.2 = .ok := by
            simp [stageLogin, found]
          rw [ended]
          rw [tracked.vid] at found
          exact ⟨mine, Option.isSome_iff_exists.2 ⟨limits, found⟩⟩
  | submit =>
      have effect := stageSubmit_effect progs
        ((allowed.1 (Or.inl rfl)).trans (congrArg some path.symm))
      obtain ⟨now, known⟩ := mine
      rw [now] at effect
      refine progressed_advance ⟨turn, .submit⟩ .getStatus tracked own effect ?_ sid
      cases ended : ((ownAtStart shared submissions turn).init.submit progs).2 with
      | ok => exact ⟨Prod.ext rfl ended, known⟩
      | err =>
          obtain ⟨limits, problem⟩ := Option.isSome_iff_exists.1 known
          refine ⟨limits, problem, ?_⟩
          rw [Own.run, if_neg (by rw [ended]; decide)]
      | panicked => trivial
  | getStatus =>
      have effect := stageGetStatus_effect progs
        ((allowed.1 (Or.inr rfl)).trans (congrArg some path.symm))
      obtain ⟨submitted, -⟩ := mine
      have ran : (ownAtStart shared submissions turn).run progs
            (s.shared.z.time, s.shared.z.mem) =
          (s.shared.own (s.users turn)).getStatus progs (s.shared.z.time, s.shared.z.mem) := by
        rw [Own.run, submitted, if_pos rfl]
      rw [← ran] at effect
      refine progressed_advance ⟨turn, .getStatus⟩ .removeAll tracked own effect ?_ sid
      cases ((ownAtStart shared submissions turn).run progs
          (s.shared.z.time, s.shared.z.mem)).2 with
      | ok => exact ⟨_, allowed.2 rfl, rfl⟩
      | err => exact ⟨_, allowed.2 rfl, rfl⟩
      | panicked => trivial
  | removeAll =>
      by_cases same : sid = turn
      · subst same
        obtain ⟨limits, problem, user⟩ := mine
        simpa [perform] using ⟨limits, problem, user⟩
      · have theirs : (s.shared.removeAll turn).own (s.users sid) =
            s.shared.own (s.users sid) := by
          simp [Shared.own, Shared.removeAll, tracked.sid, same]
        simpa [perform, same, theirs] using own sid

/-! ## Judged as if alone -/

theorem tracked_of_run {guard : List Action → Server → Action → Prop} {h : List Action}
    {s : Server} (run : Run (step progs) guard (start shared submissions) h s) :
    Tracked progs submissions h s :=
  run.invariant tracked_start fun _ _ _ _ _ tracked _ taken => tracked.next taken

theorem progressed_of_run {h : List Action} {s : Server}
    (run : Run (step progs) (fun _ => OwnResources progs submissions) (start shared submissions)
      h s) (sid : Int) :
    Progressed progs (ownAtStart shared submissions sid) (s.shared.own (s.users sid))
      (s.points sid) := by
  induction run generalizing sid with
  | start => rfl
  | step before allowed taken ih =>
      exact progressed_next (tracked_of_run before) allowed taken ih sid

theorem finished_alone {s : Server} {sid : Int}
    (progressed : Progressed progs (ownAtStart shared submissions sid)
      (s.shared.own (s.users sid)) .finished) :
    s.users sid = (RunServer.Dispatch.run progs shared (submissions sid).val).2.1 := by
  obtain ⟨limits, problem, user⟩ := progressed
  exact user.trans (congrArg Prod.fst (run_own _ problem).1).symm

variable (progs shared submissions) in
/-- **Side by side as alone.**  All programs of a run have had their own directories and
limits, and all judgings that have finished have the record they would have alone, just
when every step of the run was taken by the owner of the judger. -/
theorem judged_as_alone_iff (h : List Action) (t : Server) :
    Run (step progs) (fun _ => OwnResources progs submissions) (start shared submissions) h t ∧
        (∀ sid, t.points sid = .finished →
          t.users sid = (RunServer.Dispatch.run progs shared (submissions sid).val).2.1) ↔
      Run (step progs) (OwnsJudger progs submissions) (start shared submissions) h t := by
  refine ⟨fun ⟨resources, _⟩ => ?_, fun owned => ?_⟩
  · refine resources.reguard fun h s a t before allowed taken => ?_
    exact ((tracked_of_run before).ownsJudger_iff taken).2 allowed
  · have resources : Run (step progs) (fun _ => OwnResources progs submissions)
        (start shared submissions) h t := by
      refine owned.reguard fun h s a t before allowed taken => ?_
      exact ((tracked_of_run before).ownsJudger_iff taken).1 allowed
    refine ⟨resources, fun sid finished => ?_⟩
    have progressed := progressed_of_run resources sid
    rw [finished] at progressed
    exact finished_alone progressed

end Runs

/-! ## Two submissions -/

namespace Sample

/-- The compiler refuses the source `"bad"`; the runner accepts. -/
def programs : Programs :=
  { Dispatch.Sample.programs (.exited 0) "3 15 2048".toList with
    compiler := fun _ dir =>
      (dir, if (dir.bind fun dir => dir "Main.c") = some "bad" then .exited 1 else .exited 0) }

/-- Submission 2 does not compile; the others do. -/
def submissions : Submissions := fun sid =>
  ⟨{ (Dispatch.Sample.record sid).val with
      code := if sid = 2 then "bad" else "good", vid := 1000, oj := "" }, rfl⟩

/-- Submission 2 is initialised before submission 1 is compiled. -/
def schedule : List Action :=
  [⟨1, .init⟩, ⟨1, .login⟩, ⟨2, .init⟩, ⟨1, .submit⟩, ⟨1, .removeAll⟩]

/-- Submission 2 is initialised while submission 1 has only its directory left to remove. -/
def sideBySide : List Action :=
  [⟨1, .init⟩, ⟨1, .login⟩, ⟨1, .submit⟩, ⟨1, .getStatus⟩, ⟨2, .init⟩, ⟨1, .removeAll⟩,
    ⟨2, .login⟩, ⟨2, .submit⟩, ⟨2, .removeAll⟩]

end Sample

example :
    ∃ t, Run (step Sample.programs) (OwnsJudger Sample.programs Sample.submissions)
        (start Dispatch.Sample.shared Sample.submissions) Sample.sideBySide t ∧
      t.points 1 = .finished ∧ t.points 2 = .finished :=
  ⟨_, Run.of_follow rfl, rfl, rfl⟩

/-- Submission 1 would be accepted alone, and gets the compile error of submission 2. -/
theorem interfered_sample :
    ∃ t, Run (step Sample.programs) Free
        (start Dispatch.Sample.shared Sample.submissions) Sample.schedule t ∧
      t.points 1 = .finished ∧
      (t.users 1).judge = Judge.CE.code ∧
      (RunServer.Dispatch.run Sample.programs Dispatch.Sample.shared
        (Sample.submissions 1).val).2.1.judge = Judge.AC.code := by
  refine ⟨_, Run.of_follow rfl, ?_, ?_, ?_⟩ <;> decide

end RunServer.Dispatch.Interference
