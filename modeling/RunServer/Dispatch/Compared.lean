/-
# Dispatch.Compared -- the judgings side by side, up to the second `UpdateSolution`

In `Judge`, `UpdateSim` follows `Run`: for an accepted contest submission `get_sim` asks
for the list of the earlier ones, compares itself with them (`Dispatch.Finding`) and
leaves its answer in `./simfile` (`Dispatch.Similarity`), and `UpdateSolution` writes what
it has read there with the verdict.  Here the steps of all of these follow the stages of
`Dispatch.Interference`, and again anything may come in between.

* `getSims_of_run`: seen through its `get_sim` calls alone, every run is one of
  `Dispatch.Similarity`, with findings that do not depend on the moment, since no judging writes
  what `get_sim` reads of a record (`outcome_congr`); only the list does;
* `stored_finding`: where no call is disturbed, a stored similarity is a finding, and none is
  missing for an accepted copy, also where judgings have got into each other's directories;
* `compared_as_alone`: where they have not, the whole record is that of a judging alone which is
  given the same list.
-/
import RunServer.Dispatch.Finding
import RunServer.Dispatch.Interference

namespace RunServer.Dispatch.Compared

open RunServer.Theory.Interleave
open RunServer.Dispatch.Finding
open RunServer.Dispatch.Similarity (Outcome own)
open RunServer.Dispatch.Interference (Submissions Tracked Progressed OwnResources ownAtStart)
open RunServer.Sim

set_option autoImplicit false

/-! ## What no judging writes -/

/-- A record without what `UpdateSolution` writes. -/
def unjudged {sid : Int} (sol : Model.Filed sid) : Model.Filed sid := Solution.zero.writtenOver sol

/-- Of the record that is written over, only what is not written is left. -/
theorem map_writtenOver (s : Solution) (store : Store) (sid : Int) :
    (store.detail sid).map s.writtenOver =
      ((store.detail sid).map unjudged).map s.writtenOver := by
  rw [Option.map_map]
  rfl

theorem detail_updateSolution_self (s : Solution) (store : Store) :
    (s.updateSolution store).detail s.sid = (store.detail s.sid).map s.writtenOver := by
  cases known : store.detail s.sid with
  | none => rw [Solution.updateSolution, known, known, Option.map_none]
  | some sol => exact Solution.detail_updateSolution rfl known

theorem unjudged_updateSolution (s : Solution) (store : Store) (other : Int) :
    ((s.updateSolution store).detail other).map unjudged =
      (store.detail other).map unjudged := by
  by_cases mine : other = s.sid
  · subst mine
    rw [detail_updateSolution_self, Option.map_map]
    rfl
  · rw [Solution.detail_updateSolution_of_ne mine]

section Congruence

variable {tryCalloc : Nat → Bool} {s s' : Solution} {store store' : Store} {list : List Int}

/-- Only the code of the submission counts, and what is not written of the earlier records. -/
theorem outcome_congr (sid : s.sid = s'.sid) (code : s.code = s'.code)
    (same : ∀ other, (store.detail other).map unjudged = (store'.detail other).map unjudged) :
    outcome tryCalloc s store list = outcome tryCalloc s' store' list := by
  have file (store : Store) (other : Int) :
      ((store.detail other).bind fun sol =>
          if other < s.sid then some (other, bytes sol.val.code) else none) =
        ((store.detail other).map unjudged).bind fun sol =>
          if other < s.sid then some (other, bytes sol.val.code) else none := by
    cases store.detail other <;> rfl
  have files : simTest s store list = simTest s' store' list := by
    refine List.filterMap_congr fun other _ => ?_
    rw [file, same, ← file, sid]
  rw [outcome, outcome, files, code]

end Congruence

/-! ## The judgings -/

/-- Where a judging is behind its `Run`. -/
inductive Point where
  | running
  /-- In `get_sim`, behind `List(qry)`. -/
  | comparing
  /-- `get_sim` is not called. -/
  | skipped
  | updated
  deriving DecidableEq, Repr

structure Server where
  judging : Interference.Server
  getSim : Similarity.Server
  /-- What `List(qry)` has returned in each `get_sim`. -/
  lists : Int → List Int
  points : Int → Point

def start (shared : Shared) (submissions : Submissions) : Server :=
  { judging := Interference.start shared submissions
    getSim := Similarity.start
    lists := fun _ => []
    points := fun _ => .running }

inductive Action where
  | stage (a : Interference.Action)
  | updateSim (sid : Int)
  | getSim (a : Similarity.Action)
  | updateSolution (sid : Int)
  deriving DecidableEq, Repr

/-- What `List(qry)` and `calloc` return in a judging; the list depends on the records, and so on
the verdicts that are stored when it is asked for. -/
structure Surroundings where
  list : Store → List Int
  tryCalloc : Nat → Bool

/-- The condition of `UpdateSim`. -/
def Compares (user : Solution) : Prop := user.judge = Judge.AC.code ∧ user.module = moduleC

instance (user : Solution) : Decidable (Compares user) := by
  unfold Compares
  infer_instance

theorem setSim_of_compares {s : Solution} (compares : Compares s) (answer : Int × Int) :
    ((s.setSim answer).sim, (s.setSim answer).simSId) = answer := by
  have both : s.judge = Judge.AC.code ∧ s.module = moduleC := compares
  rw [Solution.setSim, if_pos both]

theorem compares_of_said {s : Solution} {answer : Int × Int} (said : (s.setSim answer).sim ≠ 0) :
    Compares s := by
  by_contra skipped
  have not_both : ¬ (s.judge = Judge.AC.code ∧ s.module = moduleC) := skipped
  rw [Solution.setSim, if_neg not_both] at said
  exact said rfl

theorem setSim_of_not {s : Solution} (skipped : ¬ Compares s) {answer answer' : Int × Int} :
    s.setSim answer = s.setSim answer' := by
  have not_both : ¬ (s.judge = Judge.AC.code ∧ s.module = moduleC) := skipped
  rw [Solution.setSim, Solution.setSim, if_neg not_both, if_neg not_both]

section Steps

variable (progs : Programs) (around : Int → Surroundings)

/-- What the judgings compare with what, as the records are now. -/
def Server.asked (s : Server) (sid : Int) : Asked where
  user := s.judging.users sid
  store := s.judging.shared.store
  list := s.lists sid
  tryCalloc := (around sid).tryCalloc

def Server.updateSim (s : Server) (sid : Int) : Server :=
  if Compares (s.judging.users sid) then
    { s with
      lists := Function.update s.lists sid ((around sid).list s.judging.shared.store)
      points := Function.update s.points sid .comparing }
  else { s with points := Function.update s.points sid .skipped }

/-- What `sim, Sim_s_id` are set to, once that is known. -/
def Server.answer (s : Server) (sid : Int) : Option (Int × Int) :=
  match s.points sid, s.getSim.points sid with
  | .skipped, _ => some (0, 0)
  | .comparing, .returned result => some result
  | _, _ => none

def Server.updateSolution (s : Server) (sid : Int) (answer : Int × Int) : Server :=
  let store := ((s.judging.users sid).setSim answer).updateSolution s.judging.shared.store
  { s with
    judging := { s.judging with shared := { s.judging.shared with store } }
    points := Function.update s.points sid .updated }

/-- A panic ends all judgings. -/
def step (s : Server) (a : Action) : Option Server :=
  match s.judging.crashed, a with
  | true, _ => none
  | false, .stage a => (Interference.step progs s.judging a).map fun judging => { s with judging }
  | false, .updateSim sid =>
      if s.judging.points sid = .finished ∧ s.points sid = .running then
        some (s.updateSim around sid)
      else none
  | false, .getSim a =>
      if s.points a.sid = .comparing then
        (Similarity.step (outcomes (s.asked around)) s.getSim a).map fun getSim => { s with getSim }
      else none
  | false, .updateSolution sid => (s.answer sid).map (s.updateSolution sid)

/-- The four kinds of steps. -/
inductive Steps (s : Server) : Action → Server → Prop where
  | stage {a : Interference.Action} {judging : Interference.Server}
      (taken : Interference.step progs s.judging a = some judging) :
      Steps s (.stage a) { s with judging }
  | updateSim {sid : Int} (finished : s.judging.points sid = .finished)
      (running : s.points sid = .running) : Steps s (.updateSim sid) (s.updateSim around sid)
  | getSim {a : Similarity.Action} {getSim : Similarity.Server}
      (compares : s.points a.sid = .comparing)
      (taken : Similarity.step (outcomes (s.asked around)) s.getSim a = some getSim) :
      Steps s (.getSim a) { s with getSim }
  | updateSolution {sid : Int} {answer : Int × Int} (answered : s.answer sid = some answer) :
      Steps s (.updateSolution sid) (s.updateSolution sid answer)

variable {progs around}

theorem steps_of_step {s t : Server} {a : Action} (taken : step progs around s a = some t) :
    Steps progs around s a t := by
  unfold step at taken
  split at taken
  · cases taken
  · obtain ⟨judging, ran, rfl⟩ := Option.map_eq_some_iff.1 taken
    exact .stage ran
  · split at taken
    · rename_i possible
      cases taken
      exact .updateSim possible.1 possible.2
    · cases taken
  · split at taken
    · rename_i compares
      obtain ⟨getSim, ran, rfl⟩ := Option.map_eq_some_iff.1 taken
      exact .getSim compares ran
    · cases taken
  · obtain ⟨answer, answered, rfl⟩ := Option.map_eq_some_iff.1 taken
    exact .updateSolution answered

variable (around) in
theorem updateSim_judging (s : Server) (sid : Int) :
    (s.updateSim around sid).judging = s.judging ∧
      (s.updateSim around sid).getSim = s.getSim := by
  unfold Server.updateSim
  split <;> exact ⟨rfl, rfl⟩

variable (around) in
theorem updateSim_self (s : Server) (sid : Int) :
    (s.updateSim around sid).points sid =
      if Compares (s.judging.users sid) then .comparing else .skipped := by
  unfold Server.updateSim
  split <;> exact Function.update_self ..

variable (around) in
theorem updateSim_of_ne {sid other : Int} (theirs : other ≠ sid) (s : Server) :
    (s.updateSim around sid).points other = s.points other ∧
      (s.updateSim around sid).lists other = s.lists other := by
  unfold Server.updateSim
  split
  · exact ⟨Function.update_of_ne theirs _ _, Function.update_of_ne theirs _ _⟩
  · exact ⟨Function.update_of_ne theirs _ _, rfl⟩

theorem updateSolution_of_ne {sid other : Int} (theirs : other ≠ sid) (s : Server)
    (answer : Int × Int) : (s.updateSolution sid answer).points other = s.points other :=
  Function.update_of_ne theirs _ _

/-- An answer is that of a call that has returned, if one was made. -/
theorem of_answer {s : Server} {sid : Int} {answer : Int × Int}
    (answered : s.answer sid = some answer) :
    s.points sid = .skipped ∨
      s.points sid = .comparing ∧ s.getSim.points sid = .returned answer := by
  unfold Server.answer at answered
  split at answered
  · rename_i skipped
    exact Or.inl skipped
  · rename_i compares returned
    cases answered
    exact Or.inr ⟨compares, returned⟩
  · cases answered

end Steps

/-! ## What every run keeps -/

/-- What of a submission no stage changes. -/
def fixed (user : Solution) : Int × String × Int := (user.sid, user.code, user.module)

section Stages

variable (progs : Programs)

theorem fixed_readStatus (user : Solution) (out : List Char) :
    fixed (readStatus user out).1 = fixed user := by
  unfold readStatus
  dsimp only
  split <;> rfl

theorem fixed_stageSubmit (w : Shared) (user : Solution) :
    fixed (stageSubmit progs w user).2.1 = fixed user := by
  have compiled : fixed (compile progs w user).2 = fixed user := by
    unfold compile
    dsimp only
    split <;> rfl
  unfold stageSubmit
  dsimp only
  split <;> exact compiled

theorem fixed_perform (s : Interference.Server) (a : Interference.Action) (sid : Int) :
    fixed ((Interference.perform progs s a).users sid) = fixed (s.users sid) := by
  have advanced {next : Interference.Stage} {r : Shared × Solution × Ended}
      (same : fixed r.2.1 = fixed (s.users a.sid)) :
      fixed ((s.advance a.sid next r).users sid) = fixed (s.users sid) := by
    by_cases mine : sid = a.sid
    · subst mine
      simpa [Interference.Server.advance] using same
    · simp [Interference.Server.advance, mine]
  unfold Interference.perform
  cases a.stage with
  | init => exact advanced rfl
  | login => exact advanced (by rw [Interference.stageLogin_user])
  | submit => exact advanced (fixed_stageSubmit progs _ _)
  | getStatus => exact advanced (fixed_readStatus _ _)
  | removeAll => rfl

/-- A stage writes its own submission's record, or none. -/
theorem store_perform (s : Interference.Server) (a : Interference.Action) :
    (Interference.perform progs s a).shared.store = s.shared.store ∨
      ∃ user, fixed user = fixed (s.users a.sid) ∧
        (Interference.perform progs s a).shared.store = user.updateSolution s.shared.store := by
  unfold Interference.perform
  cases a.stage with
  | init => exact Or.inl rfl
  | login =>
      refine Or.inl ?_
      show (stageLogin progs s.shared (s.users a.sid)).1.store = _
      unfold stageLogin
      split <;> rfl
  | submit =>
      have stored := stageSubmit_store progs s.shared (s.users a.sid)
      split at stored
      · exact Or.inr ⟨_, fixed_stageSubmit progs _ _, stored⟩
      · exact Or.inl stored
  | getStatus => exact Or.inl (stageGetStatus_store progs _ _)
  | removeAll => exact Or.inl rfl

theorem others_perform {s : Interference.Server} {a : Interference.Action} {sid : Int}
    (other : sid ≠ a.sid) :
    (Interference.perform progs s a).users sid = s.users sid ∧
      (Interference.perform progs s a).points sid = s.points sid := by
  unfold Interference.perform
  cases a.stage <;> simp [Interference.Server.advance, other]

end Stages

section Runs

variable (around : Int → Surroundings) (shared : Shared) (submissions : Submissions)

/-- What the judgings compare with what, the records as they were in the beginning. -/
def askedAtStart (lists : Int → List Int) (sid : Int) : Asked where
  user := (submissions sid).val
  store := shared.store
  list := lists sid
  tryCalloc := (around sid).tryCalloc

structure Kept (s : Server) : Prop where
  fixed : ∀ sid, fixed (s.judging.users sid) = fixed (submissions sid).val
  records : ∀ sid, (s.judging.shared.store.detail sid).map unjudged =
    (shared.store.detail sid).map unjudged
  finished : ∀ sid, s.points sid ≠ .running → s.judging.points sid = .finished
  skipped : ∀ sid, s.points sid = .skipped → ¬ Compares (s.judging.users sid)
  updated : ∀ sid, s.points sid = .updated → ∃ answer,
    (Compares (s.judging.users sid) → s.getSim.points sid = .returned answer) ∧
    s.judging.shared.store.detail sid = (shared.store.detail sid).map
      ((s.judging.users sid).setSim answer).writtenOver

variable {around shared submissions} {progs : Programs}

theorem kept_start : Kept shared submissions (start shared submissions) where
  fixed := fun _ => rfl
  records := fun _ => rfl
  finished := fun _ running => absurd rfl running
  skipped := fun _ none_ => by cases none_
  updated := fun _ none_ => by cases none_

theorem Kept.sid {s : Server} (kept : Kept shared submissions s) (sid : Int) :
    (s.judging.users sid).sid = sid :=
  (congrArg Prod.fst (kept.fixed sid)).trans (submissions sid).property

/-- `sim.sh` ends as it would have ended in the beginning. -/
theorem Kept.outcomes {s : Server} (kept : Kept shared submissions s) (sid : Int) :
    outcomes (s.asked around) sid =
      outcomes (askedAtStart around shared submissions s.lists) sid := by
  have same := kept.fixed sid
  exact outcome_congr (congrArg (fun fixed => fixed.1) same)
    (congrArg (fun fixed => fixed.2.1) same) kept.records

theorem Kept.stage {s : Server} (kept : Kept shared submissions s)
    {a : Interference.Action} {judging : Interference.Server}
    (taken : Interference.step progs s.judging a = some judging) :
    Kept shared submissions { s with judging } := by
  obtain ⟨-, point, rfl⟩ := Interference.of_step taken
  have other (sid : Int) (ran : s.points sid ≠ .running) : sid ≠ a.sid := by
    rintro rfl
    rw [kept.finished _ ran] at point
    cases point
  refine ⟨?_, ?_, ?_, ?_, ?_⟩
  · intro sid
    exact (fixed_perform progs _ a sid).trans (kept.fixed sid)
  · intro sid
    refine Eq.trans ?_ (kept.records sid)
    rcases store_perform progs s.judging a with same | ⟨user, -, written⟩
    · rw [same]
    · rw [written, unjudged_updateSolution]
  · intro sid ran
    exact (others_perform progs (other sid ran)).2.trans (kept.finished sid ran)
  · intro sid is
    have theirs := other sid (by rw [is]; simp)
    rw [(others_perform progs theirs).1]
    exact kept.skipped sid is
  · intro sid is
    have theirs := other sid (by rw [is]; simp)
    obtain ⟨answer, returned, written⟩ := kept.updated sid is
    rw [(others_perform progs theirs).1]
    refine ⟨answer, returned, Eq.trans ?_ written⟩
    rcases store_perform progs s.judging a with same | ⟨user, filed, written⟩
    · rw [same]
    · have is : user.sid = a.sid := (congrArg Prod.fst filed).trans (kept.sid a.sid)
      rw [written, Solution.detail_updateSolution_of_ne (by rwa [is])]

theorem Kept.updateSim {s : Server} (kept : Kept shared submissions s) {turn : Int}
    (finished : s.judging.points turn = .finished) :
    Kept shared submissions (s.updateSim around turn) := by
  obtain ⟨judging, getSim⟩ := updateSim_judging around s turn
  have turns := updateSim_self around s turn
  refine ⟨?_, ?_, ?_, ?_, ?_⟩
  · rw [judging]
    exact kept.fixed
  · rw [judging]
    exact kept.records
  · intro sid ran
    rw [judging]
    by_cases mine : sid = turn
    · rw [mine]
      exact finished
    · rw [(updateSim_of_ne around mine s).1] at ran
      exact kept.finished sid ran
  · intro sid is
    rw [judging]
    by_cases mine : sid = turn
    · subst mine
      intro compares
      rw [turns, if_pos compares] at is
      cases is
    · rw [(updateSim_of_ne around mine s).1] at is
      exact kept.skipped sid is
  · intro sid is
    rw [judging, getSim]
    by_cases mine : sid = turn
    · subst mine
      rw [turns] at is
      split at is <;> cases is
    · rw [(updateSim_of_ne around mine s).1] at is
      exact kept.updated sid is

/-- A call that has returned does not go on. -/
theorem Kept.getSim {s : Server} (kept : Kept shared submissions s) {a : Similarity.Action}
    {getSim : Similarity.Server} {outcomes : Int → Outcome}
    (taken : Similarity.step outcomes s.getSim a = some getSim) :
    Kept shared submissions { s with getSim } := by
  refine ⟨kept.fixed, kept.records, kept.finished, kept.skipped, ?_⟩
  intro sid is
  obtain ⟨answer, returned, written⟩ := kept.updated sid is
  refine ⟨answer, fun compares => ?_, written⟩
  obtain ⟨called, rfl⟩ := Similarity.of_step taken
  have theirs : sid ≠ a.sid := by
    rintro rfl
    rw [returned compares] at called
    cases called
  exact (Similarity.perform_points theirs).trans (returned compares)

theorem Kept.updateSolution {s : Server} (kept : Kept shared submissions s) {turn : Int}
    {answer : Int × Int} (answered : s.answer turn = some answer) :
    Kept shared submissions (s.updateSolution turn answer) := by
  have ran : s.points turn ≠ .running := by
    rcases of_answer answered with is | ⟨is, -⟩ <;> rw [is] <;> decide
  have sid : ((s.judging.users turn).setSim answer).sid = turn := kept.sid turn
  refine ⟨kept.fixed, ?_, ?_, ?_, ?_⟩
  · intro other
    exact (unjudged_updateSolution _ _ _).trans (kept.records other)
  · intro other ran'
    by_cases mine : other = turn
    · rw [mine]
      exact kept.finished turn ran
    · rw [updateSolution_of_ne mine] at ran'
      exact kept.finished other ran'
  · intro other is
    have theirs : other ≠ turn := by
      rintro rfl
      simp [Server.updateSolution] at is
    rw [updateSolution_of_ne theirs] at is
    exact kept.skipped other is
  · intro other is
    by_cases mine : other = turn
    · subst mine
      refine ⟨answer, ?_, ?_⟩
      · intro compares
        rcases of_answer answered with skipped | ⟨-, returned⟩
        · exact absurd compares (kept.skipped other skipped)
        · exact returned
      · have written := detail_updateSolution_self ((s.judging.users other).setSim answer)
          s.judging.shared.store
        rw [sid, map_writtenOver, kept.records, ← map_writtenOver] at written
        exact written
    · rw [updateSolution_of_ne mine] at is
      obtain ⟨answer', returned, written⟩ := kept.updated other is
      have theirs : other ≠ ((s.judging.users turn).setSim answer).sid := by rwa [sid]
      refine ⟨answer', returned, Eq.trans ?_ written⟩
      exact Solution.detail_updateSolution_of_ne theirs s.judging.shared.store

theorem Kept.next {s t : Server} {a : Action} (kept : Kept shared submissions s)
    (taken : step progs around s a = some t) : Kept shared submissions t := by
  cases steps_of_step taken with
  | stage ran => exact kept.stage ran
  | updateSim finished _ => exact kept.updateSim finished
  | getSim _ ran => exact kept.getSim ran
  | updateSolution answered => exact kept.updateSolution answered

theorem kept_of_run {guard : List Action → Server → Action → Prop} {h : List Action} {t : Server}
    (run : Run (step progs around) guard (start shared submissions) h t) :
    Kept shared submissions t :=
  run.invariant (I := fun _ => Kept shared submissions) kept_start
    fun _ _ _ _ _ kept _ taken => kept.next taken

end Runs

/-! ## The calls of `get_sim` -/

def Action.getSim? : Action → Option Similarity.Action
  | .getSim a => some a
  | _ => none

/-- The steps in `get_sim` of a run. -/
def getSims (h : List Action) : List Similarity.Action := h.filterMap Action.getSim?

section Calls

variable {progs : Programs} {around : Int → Surroundings} {shared : Shared}
variable {submissions : Submissions} {guard : List Action → Server → Action → Prop}
variable {h : List Action} {s t : Server} {a : Action}

theorem getSims_snoc (h : List Action) (a : Action) :
    getSims (h ++ [a]) = getSims h ++ a.getSim?.toList := by
  rw [getSims, List.filterMap_append]
  cases a <;> rfl

/-- The calls of a run, whatever list is returned to those that come later. -/
def Calls (around : Int → Surroundings) (shared : Shared) (submissions : Submissions)
    (h : List Action) (s : Server) : Prop :=
  ∀ lists, (∀ sid, s.points sid ≠ .running → lists sid = s.lists sid) →
    Run (Similarity.step (outcomes (askedAtStart around shared submissions lists))) Free
      Similarity.start (getSims h) s.getSim

theorem Calls.next (calls : Calls around shared submissions h s)
    (kept : Kept shared submissions s) (taken : step progs around s a = some t) :
    Calls around shared submissions (h ++ [a]) t := by
  intro lists listed
  rw [getSims_snoc]
  cases steps_of_step taken with
  | stage _ => exact (List.append_nil (getSims h)).symm ▸ calls lists listed
  | @updateSim turn _ running =>
      rw [(updateSim_judging around s turn).2]
      refine (List.append_nil (getSims h)).symm ▸ calls lists ?_
      intro sid ran
      have theirs : sid ≠ turn := by
        rintro rfl
        exact ran running
      obtain ⟨points, same⟩ := updateSim_of_ne around theirs s
      rw [← same]
      exact listed sid (points ▸ ran)
  | @getSim a _ compares ran =>
      have same : outcomes (s.asked around) a.sid =
          outcomes (askedAtStart around shared submissions lists) a.sid := by
        rw [kept.outcomes, outcomes, outcomes]
        simp only [askedAtStart]
        rw [listed a.sid (by rw [compares]; decide)]
      rw [Similarity.step_congr same] at ran
      exact .step (calls lists listed) trivial ran
  | @updateSolution turn _ answered =>
      refine (List.append_nil (getSims h)).symm ▸ calls lists ?_
      intro sid ran
      apply listed sid
      by_cases mine : sid = turn
      · simp [Server.updateSolution, mine]
      · rwa [updateSolution_of_ne mine]

/-- **The calls of a run are a run of calls**: what is found depends on the lists and on the
records as they were in the beginning. -/
theorem getSims_of_run (run : Run (step progs around) guard (start shared submissions) h t) :
    Run (Similarity.step (outcomes (askedAtStart around shared submissions t.lists))) Free
      Similarity.start (getSims h) t.getSim := by
  have calls : Calls around shared submissions h t :=
    run.invariant (I := fun h s => Calls around shared submissions h s) (fun _ _ => .start)
      fun _ _ _ _ before calls _ taken => calls.next (kept_of_run before) taken
  exact calls t.lists fun _ _ => rfl

/-- No step in `get_sim` was disturbed by one of another submission. -/
def Undisturbed (asked : Int → Asked) (h : List Action) : Prop :=
  ∀ before s a after, getSims h = before ++ a :: after →
    Similarity.Undisturbed (outcomes asked) before s a

/-- The answer of a call that was not disturbed is what it has found itself. -/
theorem own_of_updated (run : Run (step progs around) guard (start shared submissions) h t)
    (undisturbed : Undisturbed (askedAtStart around shared submissions t.lists) h) {sid : Int}
    (updated : t.points sid = .updated) :
    t.judging.shared.store.detail sid = (shared.store.detail sid).map
      ((t.judging.users sid).setSim
        (own (outcomes (askedAtStart around shared submissions t.lists)) sid)).writtenOver := by
  obtain ⟨answer, returned, written⟩ := (kept_of_run run).updated sid updated
  by_cases compares : Compares (t.judging.users sid)
  · have calls := (getSims_of_run run).constrain undisturbed
    rw [← own_of_run calls sid answer (by rw [returned compares]; rfl)]
    exact written
  · rw [written, setSim_of_not compares]

/-- A call goes on, whatever the others do. -/
theorem run_getSims (run : Run (step progs around) guard (start shared submissions) h s)
    (free : ∀ h s a, guard h s (.getSim a)) (alive : s.judging.crashed = false)
    (outcomes' : Int → Outcome) {calls : List Similarity.Action} {getSim : Similarity.Server}
    (called : Run (Similarity.step outcomes') Free s.getSim calls getSim)
    (compare : ∀ a ∈ calls, s.points a.sid = .comparing ∧
      outcomes (s.asked around) a.sid = outcomes' a.sid) :
    Run (step progs around) guard (start shared submissions) (h ++ calls.map .getSim)
      { s with getSim } := by
  induction called with
  | start => simpa using run
  | @step calls getSim getSim' a before _ taken ih =>
      have earlier := ih fun a member => compare a (List.mem_append_left _ member)
      obtain ⟨compares, same⟩ := compare a (by simp)
      rw [List.map_append, ← List.append_assoc]
      refine .step earlier (free _ _ _) ?_
      rw [← Similarity.step_congr same] at taken
      have ran : Similarity.step (outcomes (Server.asked around { s with getSim })) getSim a =
        some getSim' := taken
      simp only [step, alive, compares, if_true, ran, Option.map_some]

end Calls

/-! ## The finding that is stored -/

section Stored

variable {around : Int → Surroundings} {shared : Shared} {submissions : Submissions}
variable {progs : Programs} {info : Info} {sol : Model.Filed info.sid}
variable {guard : List Action → Server → Action → Prop} {h : List Action} {t : Server}

/-- **In every run** whose calls were not disturbed, a stored similarity is that of an accepted
contest submission, of which more than half of the tokens are in blocks that the stored program
has, too; and an accepted one with an earlier copy has one stored. -/
theorem stored_finding (run : Run (step progs around) guard (start shared submissions) h t)
    (undisturbed : Undisturbed (askedAtStart around shared submissions t.lists) h)
    (known : shared.store.detail info.sid = some sol)
    (loaded : (submissions info.sid).val = Solution.init info shared.store)
    (updated : t.points info.sid = .updated) :
    let user := Solution.init info shared.store
    let tryCalloc := (around info.sid).tryCalloc
    let list := t.lists info.sid
    ∃ stored, t.judging.shared.store.detail info.sid = some stored ∧
      (stored.val.sim ≠ 0 →
        stored.val.judge = Judge.AC.code ∧ stored.val.module = moduleC ∧
        Similar tryCalloc user shared.store list stored.val.simSId stored.val.sim ∧
        InBlocks stored.val.code (shared.store.record stored.val.simSId).val.code ∧
        ∀ other sim, Similar tryCalloc user shared.store list other sim →
          stored.val.simSId ≤ other) ∧
      (stored.val.judge = Judge.AC.code → stored.val.module = moduleC →
        (∀ length, (initHashTable tryCalloc length).isSome) →
        ∀ copy, Copied user shared.store list copy →
          50 < stored.val.sim ∧ stored.val.simSId ≤ copy) := by
  intro user tryCalloc list
  have is := own_of_updated run undisturbed updated
  rw [known, Option.map_some] at is
  have module_ : (t.judging.users info.sid).module = sol.val.module := by
    have same := congrArg (fun fixed => fixed.2.2) ((kept_of_run run).fixed info.sid)
    rw [loaded, Solution.init_of_known known] at same
    exact same
  have code : user.code = sol.val.code := by
    rw [show user = _ from Solution.init_of_known known]
  have asked : askedAtStart around shared submissions t.lists info.sid =
      ⟨user, shared.store, list, tryCalloc⟩ := by
    rw [askedAtStart, loaded]
  refine ⟨_, is, ?_, ?_⟩
  · intro said
    have compares := compares_of_said said
    have finds := blocks_of_own (setSim_of_compares compares _).symm said
    rw [asked] at finds
    obtain ⟨similar, inside, least⟩ := finds
    exact ⟨compares.1, module_.symm.trans compares.2, similar, code ▸ inside, least⟩
  · intro accepted contest obtained copy copied
    have compares : Compares (t.judging.users info.sid) := ⟨accepted, module_.trans contest⟩
    have finds := setSim_of_compares compares
      (own (outcomes (askedAtStart around shared submissions t.lists)) info.sid)
    exact above_of_own finds.symm (by rwa [asked]) (by rwa [asked])

end Stored

/-! ## The schedule -/

def Action.stage? : Action → Option Interference.Action
  | .stage a => some a
  | _ => none

/-- The stages of a run. -/
def stages (h : List Action) : List Interference.Action := h.filterMap Action.stage?

/-- The judger is its submission's at each stage; `UpdateSim` does not use it. -/
def Owns (progs : Programs) (submissions : Submissions) (h : List Action) (s : Server) :
    Action → Prop
  | .stage a => Interference.OwnsJudger progs submissions (stages h) s.judging a
  | _ => True

instance (progs : Programs) (submissions : Submissions) (h : List Action) (s : Server)
    (a : Action) : Decidable (Owns progs submissions h s a) := by
  unfold Owns
  cases a <;> infer_instance

namespace Sample

open RunServer.Dispatch.Similarity.Sample (reading)

/-- Two submissions, the second in a contest, and the runner accepts both; the first has a line
more. -/
def shared : Shared :=
  { Dispatch.Sample.shared with
    store :=
      { sids := {1, 2}
        record := fun sid =>
          ⟨{ Model.Solution.zero with
              sid
              module := if sid = 1 then 0 else moduleC
              code := if sid = 1 then (Finding.Sample.asked.store.record 1).val.code
                else Finding.Sample.asked.user.code }, rfl⟩ } }

def programs : Programs := Dispatch.Sample.programs (.exited 0) "3 15 2048".toList

def submissions : Submissions := fun sid =>
  ⟨{ (shared.store.record sid).val with vid := 1000, oj := "" }, rfl⟩

/-- `List` returns those that are accepted by then. -/
def around (_ : Int) : Surroundings where
  list := fun store => [1, 2].filter fun sid => (store.record sid).val.judge = Judge.AC.code
  tryCalloc := fun _ => true

def info : Info := ⟨2, 1000, "", false⟩

/-- Submission 2 is judged while submission 1 is; by its `List` the first is accepted. -/
def sideBySide : List Action :=
  [.stage ⟨1, .init⟩, .stage ⟨1, .login⟩, .stage ⟨1, .submit⟩, .stage ⟨1, .getStatus⟩,
    .stage ⟨2, .init⟩, .stage ⟨1, .removeAll⟩, .updateSim 1, .stage ⟨2, .login⟩,
    .stage ⟨2, .submit⟩, .updateSolution 1, .stage ⟨2, .getStatus⟩, .stage ⟨2, .removeAll⟩,
    .updateSim 2]

def schedule : List Action := sideBySide ++ (reading 2).map .getSim ++ [.updateSolution 2]

def lists : Int → List Int := Function.update (fun _ => []) 2 [1]

theorem loaded : (submissions 2).val = Solution.init info shared.store := rfl

theorem shared_copied : Copied (submissions 2).val shared.store [1] 1 where
  listed := List.mem_cons_self
  earlier := by decide
  known := by decide
  long := Sim.Sample.contained_lines.1
  contained := Sim.Sample.contained_lines.2

def found (sid : Int) : Outcome := if sid = 2 then .ran [(1, some 100)] else .ran []

theorem outcomes_eq : outcomes (askedAtStart around shared submissions lists) = found := by
  funext sid
  rw [outcomes, found]
  split
  · rename_i second
    subst second
    exact outcome_of_copied shared_copied (initHashTable_isSome fun _ => rfl)
  · rename_i other
    have none_ : lists sid = [] := Function.update_of_ne other _ _
    simp [askedAtStart, none_, outcome, simTest]

theorem run_schedule : ∃ t,
    Run (step programs around) (Owns programs submissions) (start shared submissions) schedule t ∧
      Undisturbed (askedAtStart around shared submissions t.lists) schedule ∧
      t.points 2 = .updated ∧ t.lists = lists ∧
      (t.judging.users 2).judge = Judge.AC.code ∧ (t.judging.users 2).module = moduleC := by
  have first : ∃ s, Run (step programs around) (Owns programs submissions)
      (start shared submissions) sideBySide s ∧ s.judging.crashed = false ∧
      s.getSim = Similarity.start ∧ s.points 2 = .comparing ∧ s.lists = lists ∧
      (s.judging.users 2).judge = Judge.AC.code ∧ (s.judging.users 2).module = moduleC :=
    ⟨_, Run.of_follow rfl, rfl, rfl, rfl, rfl, rfl, rfl⟩
  have called : ∃ getSim, Run (Similarity.step found) (Similarity.Undisturbed found)
      Similarity.start (reading 2) getSim ∧ getSim.points 2 = .returned (100, 1) :=
    ⟨_, Run.of_follow rfl, rfl⟩
  obtain ⟨s, run, alive, none_, compares, listed, accepted, contest⟩ := first
  obtain ⟨getSim, called, returned⟩ := called
  have both := run_getSims run (fun _ _ _ => trivial) alive found
    (none_ ▸ called.reguard fun _ _ _ _ _ _ _ => trivial) fun a member => by
      have second : a.sid = 2 := by
        simp only [reading, List.mem_cons, List.not_mem_nil, or_false] at member
        rcases member with rfl | rfl | rfl | rfl | rfl <;> rfl
      rw [second, (kept_of_run run).outcomes, listed, outcomes_eq]
      exact ⟨compares, rfl⟩
  have answered : Server.answer { s with getSim } 2 = some (100, 1) := by
    simp only [Server.answer, compares, returned]
  have last : step programs around { s with getSim } (.updateSolution 2) =
      some (Server.updateSolution { s with getSim } 2 (100, 1)) := by
    simp only [step, alive, answered, Option.map_some]
  have same : (Server.updateSolution { s with getSim } 2 (100, 1)).lists = lists := listed
  refine ⟨_, both.step trivial last, ?_, by simp [Server.updateSolution], same, accepted, contest⟩
  intro before s' a after split
  have calls : getSims schedule = reading 2 := rfl
  obtain ⟨s'', passed⟩ := called.passed (calls.symm.trans split)
  rw [same, outcomes_eq]
  exact passed

theorem stored_finding_sample : ∃ (t : Server) (stored : Model.Filed 2),
    t.judging.shared.store.detail 2 = some stored ∧ 50 < stored.val.sim ∧
      stored.val.simSId ≤ 1 ∧
      InBlocks stored.val.code (shared.store.record stored.val.simSId).val.code := by
  obtain ⟨t, run, undisturbed, updated, listed, accepted, contest⟩ := run_schedule
  have known : shared.store.detail info.sid = some (shared.store.record 2) := rfl
  obtain ⟨stored, is, finding, copied⟩ := stored_finding run undisturbed known loaded updated
  have written := own_of_updated run undisturbed updated
  rw [show shared.store.detail 2 = _ from known, Option.map_some] at written
  have same := Option.some.inj (is.symm.trans written)
  have above := copied (by rw [same]; exact accepted) (by rw [same]; rfl)
    (initHashTable_isSome fun _ => rfl) 1 (listed ▸ shared_copied)
  exact ⟨t, stored, is, above.1, above.2, (finding (by omega)).2.2.2.1⟩

end Sample

/-! ## The record that is stored -/

section Returns

variable (progs : Programs) (shared : Shared) (submissions : Submissions)

/-- A `Run` that has left its loop does so alone, too. -/
def Returned (s : Interference.Server) : Prop :=
  ∀ sid, s.points sid = .before .removeAll ∨ s.points sid = .finished →
    ∀ limits, progs.problem (submissions sid).val.vid = some limits →
      ((ownAtStart shared submissions sid).run progs limits).2 ≠ .panicked

variable {progs shared submissions}

theorem returned_next {h : List Interference.Action} {s t : Interference.Server}
    {a : Interference.Action} (tracked : Tracked progs submissions h s)
    (allowed : OwnResources progs submissions s a)
    (taken : Interference.step progs s a = some t)
    (own : ∀ sid, Progressed progs (ownAtStart shared submissions sid)
      (s.shared.own (s.users sid)) (s.points sid))
    (returned : Returned progs shared submissions s) :
    Returned progs shared submissions t := by
  obtain ⟨-, point, rfl⟩ := Interference.of_step taken
  intro sid left limits problem
  by_cases theirs : sid ≠ a.sid
  · rw [(others_perform progs theirs).2] at left
    exact returned sid left limits problem
  obtain rfl := not_not.1 theirs
  have mine := own a.sid
  rw [point] at mine
  have path : ((s.users a.sid).sid, (s.users a.sid).vid) =
      (a.sid, (submissions a.sid).val.vid) := by rw [tracked.sid, tracked.vid]
  obtain ⟨turn, stage⟩ := a
  have ended {next : Interference.Stage} {r : Shared × Solution × Ended}
      (left : (s.advance turn next r).points turn = .before .removeAll ∨
        (s.advance turn next r).points turn = .finished) :
      next = .removeAll ∧ r.2.2 = .ok ∨ r.2.2 = .err := by
    simp only [Interference.Server.advance, Function.update_self] at left
    cases is : r.2.2 with
    | ok => simpa [Interference.afterStage, is] using left
    | err => exact Or.inr rfl
    | panicked => simp [Interference.afterStage, is] at left
  cases stage with
  | init => simpa [stageInit] using ended left
  | login =>
      have is := ended left
      simp only [reduceCtorEq, false_and, false_or] at is
      unfold stageLogin at is
      split at is <;> cases is
  | submit =>
      have effect := stageSubmit_effect progs
        ((allowed.1 (Or.inl rfl)).trans (congrArg some path.symm))
      have is := ended left
      simp only [reduceCtorEq, false_and, false_or] at is
      rw [effect.ended, mine.1] at is
      rw [Own.run, if_neg (by rw [is]; decide), is]
      decide
  | getStatus =>
      have effect := stageGetStatus_effect progs
        ((allowed.1 (Or.inr rfl)).trans (congrArg some path.symm))
      have same := Option.some.inj (problem.symm.trans (allowed.2 rfl))
      have ran : (ownAtStart shared submissions turn).run progs limits =
          (s.shared.own (s.users turn)).getStatus progs (s.shared.z.time, s.shared.z.mem) := by
        rw [Own.run, mine.1, if_pos rfl, same]
      rw [ran, ← effect.ended]
      rcases ended left with ⟨-, is⟩ | is <;> rw [is] <;> decide
  | removeAll => exact returned turn (Or.inl point) limits problem

end Returns

section Alone

variable {progs : Programs} {around : Int → Surroundings} {shared : Shared}
variable {submissions : Submissions}

/-- What a run keeps where each stage has its own directory and limits. -/
structure Alone (progs : Programs) (shared : Shared) (submissions : Submissions)
    (h : List Action) (s : Server) : Prop where
  tracked : Tracked progs submissions (stages h) s.judging
  own : ∀ sid, Progressed progs (ownAtStart shared submissions sid)
    (s.judging.shared.own (s.judging.users sid)) (s.judging.points sid)
  returned : Returned progs shared submissions s.judging

theorem stages_snoc (h : List Action) (a : Action) :
    stages (h ++ [a]) = stages h ++ a.stage?.toList := by
  rw [stages, List.filterMap_append]
  cases a <;> rfl

/-- What `UpdateSim` does is no matter to the stages. -/
theorem Alone.passes {h : List Action} {s t : Server} {a : Action}
    (alone : Alone progs shared submissions h s) (other : a.stage? = none)
    (z : t.judging.shared.z = s.judging.shared.z)
    (own : ∀ user, t.judging.shared.own user = s.judging.shared.own user)
    (users : t.judging.users = s.judging.users) (points : t.judging.points = s.judging.points)
    (crashed : t.judging.crashed = s.judging.crashed) :
    Alone progs shared submissions (h ++ [a]) t := by
  have same : stages (h ++ [a]) = stages h := by
    rw [stages_snoc, other, Option.toList_none, List.append_nil]
  have kept := alone.tracked
  refine ⟨?_, ?_, ?_⟩
  · rw [same]
    refine ⟨?_, ?_, ?_, ?_, ?_, ?_⟩
    · rw [users]
      exact kept.sid
    · rw [users]
      exact kept.vid
    · rw [z]
      exact kept.workdir
    · rw [crashed, z]
      exact kept.limits
    · rw [points]
      exact kept.initialised
    · rw [points]
      exact kept.loggedIn
  · intro sid
    rw [own, users, points]
    exact alone.own sid
  · intro sid left
    rw [points] at left
    exact alone.returned sid left

theorem Alone.next {h : List Action} {s t : Server} {a : Action}
    (alone : Alone progs shared submissions h s) (allowed : Owns progs submissions h s a)
    (taken : step progs around s a = some t) :
    Alone progs shared submissions (h ++ [a]) t := by
  cases steps_of_step taken with
  | @stage a _ ran =>
      have owned := (alone.tracked.ownsJudger_iff ran).1 allowed
      refine ⟨?_, Interference.progressed_next alone.tracked owned ran alone.own,
        returned_next alone.tracked owned ran alone.own alone.returned⟩
      rw [stages_snoc]
      exact alone.tracked.next ran
  | @updateSim sid _ _ =>
      have judging := (updateSim_judging around s sid).1
      exact alone.passes rfl (by rw [judging]) (fun _ => by rw [judging]) (by rw [judging])
        (by rw [judging]) (by rw [judging])
  | getSim _ _ => exact alone.passes rfl rfl (fun _ => rfl) rfl rfl rfl
  | updateSolution _ => exact alone.passes rfl rfl (fun _ => rfl) rfl rfl rfl

theorem alone_of_run {h : List Action} {t : Server}
    (run : Run (step progs around) (Owns progs submissions) (start shared submissions) h t) :
    Alone progs shared submissions h t := by
  refine run.invariant ⟨Interference.tracked_start, fun _ => rfl, fun sid left => ?_⟩
    fun _ _ _ _ _ alone allowed taken => alone.next allowed taken
  rcases left with left | left <;> cases left

theorem fixed_run (progs : Programs) (limits : Int × Int) (o : Own) :
    fixed (o.run progs limits).1.user = fixed o.user := by
  have submitted : fixed (o.init.submit progs).1.user = fixed o.user := by
    have compiled : fixed (o.init.compile progs).user = fixed o.user := by
      unfold Own.compile
      dsimp only
      split <;> rfl
    unfold Own.submit
    dsimp only
    split <;> exact compiled
  unfold Own.run
  dsimp only
  split
  · exact (fixed_readStatus _ _).trans submitted
  · exact submitted

variable {info : Info} {sol : Model.Filed info.sid} {limits : Int × Int}

/-- What `get_sim` answers in a judging alone, where `List(qry)` returns `list`. -/
def answer (progs : Programs) (tryCalloc : Nat → Bool) (list : List Int) (info : Info)
    (w : Shared) : Int × Int :=
  let ran := run progs w (Solution.init info w.store)
  (outcome tryCalloc ran.2.1 ran.1.store list).own

/-- A judging alone finds what there was before it, and writes that. -/
theorem judge_alone {w : Shared} (given : Given progs info w sol limits)
    (tryCalloc : Nat → Bool) (list : List Int)
    (ended : (run progs w (Solution.init info w.store)).2.2 ≠ .panicked) :
    let user := Solution.init info w.store
    let alone := judge progs (answer progs tryCalloc list info w) info w
    alone.2.2 = .ok ∧ alone.1.store.detail info.sid = (w.store.detail info.sid).map
      ((run progs w user).2.1.setSim (outcome tryCalloc user w.store list).own).writtenOver := by
  intro user alone
  obtain ⟨result, store, -⟩ := given.run_eq
  have same : fixed (run progs w user).2.1 = fixed user := by
    rw [congrArg Prod.fst result, show user = _ from Solution.init_of_known given.known]
    exact fixed_run progs limits (Dispatch.loaded info sol.val w.tree)
  have records (other : Int) : ((run progs w user).1.store.detail other).map unjudged =
      (w.store.detail other).map unjudged := by
    rw [store]
    split
    · exact unjudged_updateSolution _ _ _
    · rfl
  have finds : answer progs tryCalloc list info w = (outcome tryCalloc user w.store list).own :=
    congrArg Outcome.own (outcome_congr (congrArg (fun fixed => fixed.1) same)
      (congrArg (fun fixed => fixed.2.1) same) records)
  have sid : ((run progs w user).2.1.setSim (answer progs tryCalloc list info w)).sid =
      info.sid := by
    refine (congrArg (fun fixed => fixed.1) same).trans ?_
    rw [show user = _ from Solution.init_of_known given.known]
    exact sol.property
  have is : alone = ({ (run progs w user).1 with
        store := ((run progs w user).2.1.setSim
          (answer progs tryCalloc list info w)).updateSolution (run progs w user).1.store },
      (run progs w user).2.1.setSim (answer progs tryCalloc list info w), .ok) :=
    given.judge_eq.trans (if_neg ended)
  rw [is]
  refine ⟨rfl, ?_⟩
  have written := detail_updateSolution_self
    ((run progs w user).2.1.setSim (answer progs tryCalloc list info w))
    (run progs w user).1.store
  rw [sid, map_writtenOver, records, ← map_writtenOver, finds] at written
  rw [finds]
  exact written

/-- **Side by side as alone**, with the finding: where the judger is its submission's at each
stage and no call of `get_sim` is disturbed, a judging leaves the record that it leaves alone,
before all others, if it is given the list that it has been given. -/
theorem compared_as_alone {h : List Action} {t : Server}
    (run : Run (step progs around) (Owns progs submissions) (start shared submissions) h t)
    (undisturbed : Undisturbed (askedAtStart around shared submissions t.lists) h)
    (given : Given progs info shared sol limits)
    (loaded : (submissions info.sid).val = Solution.init info shared.store)
    (updated : t.points info.sid = .updated) {list : List Int}
    (listed : Compares (t.judging.users info.sid) → t.lists info.sid = list) :
    let alone := judge progs (answer progs (around info.sid).tryCalloc list info shared) info shared
    alone.2.2 = .ok ∧
      t.judging.shared.store.detail info.sid = alone.1.store.detail info.sid := by
  intro alone
  have kept := kept_of_run run
  have alone_ := alone_of_run run
  have finished := kept.finished info.sid (by rw [updated]; simp)
  have vid : (submissions info.sid).val.vid = info.pid := by
    rw [loaded, Solution.init_of_known given.known]
  have problem : progs.problem (submissions info.sid).val.vid = some limits := by
    rw [vid]
    exact given.problem
  have ended : (Dispatch.run progs shared (Solution.init info shared.store)).2.2 ≠ .panicked := by
    rw [← loaded, (run_own (w := shared) (submissions info.sid).val problem).1]
    exact alone_.returned info.sid (Or.inr finished) limits problem
  have progressed := alone_.own info.sid
  rw [finished] at progressed
  have user := Interference.finished_alone progressed
  obtain ⟨ok, written⟩ := judge_alone given (around info.sid).tryCalloc list ended
  have answered : (t.judging.users info.sid).setSim
      (own (outcomes (askedAtStart around shared submissions t.lists)) info.sid) =
      (t.judging.users info.sid).setSim (outcome (around info.sid).tryCalloc
        (Solution.init info shared.store) shared.store list).own := by
    by_cases compares : Compares (t.judging.users info.sid)
    · rw [own, outcomes, askedAtStart, loaded, listed compares]
    · exact setSim_of_not compares
  refine ⟨ok, (own_of_updated run undisturbed updated).trans ?_⟩
  rw [answered, user, loaded]
  exact written.symm

end Alone

theorem Sample.compared_as_alone_sample : ∃ t : Server,
    t.judging.shared.store.detail 2 =
      (judge programs (answer programs (fun _ => true) [1] info shared) info
        shared).1.store.detail 2 := by
  obtain ⟨t, run, undisturbed, updated, listed, -⟩ := run_schedule
  have given : Given programs info shared (shared.store.record 2) (1, 65536) :=
    ⟨by decide, rfl, rfl⟩
  exact ⟨t, (compared_as_alone run undisturbed given loaded updated
    fun _ => congrFun listed 2).2⟩

end RunServer.Dispatch.Compared
