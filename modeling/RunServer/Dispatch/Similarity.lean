/-
# Dispatch.Similarity -- the file in which `sim.sh` leaves its answer

`get_sim` runs `sim.sh`, which writes `./simfile` when it finds a similar program, and
then looks for that file, opens it, reads it and at last removes it.  All judgings do
this in one working directory, so the file is a mailbox under one name for all of
them (`Theory.Naming`).

Whose answer a submission reads is decided by the order of the steps.  `Undisturbed`
asks at the steps that look at the name, or read the open file, that the last to write
it was the right one; and `results_own_iff` says that every submission gets what its
own run has found just when that holds all along.
-/
import RunServer.Theory.Interleave
import RunServer.Theory.Naming
import RunServer.Dispatch.Alone

namespace RunServer.Dispatch.Similarity

open RunServer.Theory
open RunServer.Theory.Interleave
open RunServer.Theory.Naming (Event Files Tracked writer reaching)

set_option autoImplicit false

/-! ## `sim.sh` -/

/-- The files of `ls -v`, each with the percentage `sim_text` prints, if any.  The first
above 50 is written, and ends the script. -/
def simSh : List (Int × Option Int) → Option (Int × Int)
  | [] => none
  | (_, none) :: rest => simSh rest
  | (simSId, some sim) :: rest => if 50 < sim then some (sim, simSId) else simSh rest

theorem simSh_gt {compared : List (Int × Option Int)} {found : Int × Int}
    (similar : simSh compared = some found) : 50 < found.1 := by
  induction compared with
  | nil => cases similar
  | cons file rest ih =>
      obtain ⟨simSId, sim⟩ := file
      cases sim with
      | none => exact ih similar
      | some sim =>
          rw [simSh] at similar
          split at similar
          · rename_i above
            cases similar
            exact above
          · exact ih similar

/-- How `cmd.Run()` of `sim.sh` ends. -/
inductive Outcome where
  | failed
  | ran (compared : List (Int × Option Int))

/-- What the run of `sim.sh` has found. -/
def Outcome.found : Outcome → Option (Int × Int)
  | .failed => none
  | .ran compared => simSh compared

def Outcome.own (outcome : Outcome) : Int × Int := outcome.found.getD (0, 0)

theorem Outcome.found_gt {outcome : Outcome} {found : Int × Int}
    (similar : outcome.found = some found) : 50 < found.1 := by
  cases outcome with
  | failed => cases similar
  | ran compared => exact simSh_gt similar

/-- 0 and 0 is nothing that `sim.sh` writes. -/
theorem Outcome.own_eq_iff {outcome outcome' : Outcome} (similar : outcome'.found.isSome) :
    outcome'.own = outcome.own ↔ outcome'.found = outcome.found := by
  obtain ⟨found', similar⟩ := Option.isSome_iff_exists.1 similar
  have above := found_gt similar
  cases none_ : outcome.found with
  | none =>
      simp only [own, similar, none_, Option.getD_some, Option.getD_none, reduceCtorEq, iff_false]
      rintro rfl
      exact absurd above (by decide)
  | some found => simp [own, similar, none_]

/-! ## `get_sim` -/

inductive Point where
  | simSh
  | stat
  | open_
  | read
  /-- The deferred `os.Remove`, with the results that are set. -/
  | remove (result : Int × Int)
  | returned (result : Int × Int)
  deriving DecidableEq, Repr

inductive Call where
  | simSh
  | stat
  | open_
  | read
  | remove
  deriving DecidableEq, Repr

def Point.call : Point → Option Call
  | .simSh => some .simSh
  | .stat => some .stat
  | .open_ => some .open_
  | .read => some .read
  | .remove _ => some .remove
  | .returned _ => none

/-- `sim, Sim_s_id`, once they are what `get_sim` will return. -/
def Point.result : Point → Option (Int × Int)
  | .remove result | .returned result => some result
  | .simSh | .stat | .open_ | .read => none

/-- The file has not been opened yet. -/
def Point.Early : Point → Prop
  | .simSh | .stat | .open_ => True
  | .read | .remove _ | .returned _ => False

structure Action where
  sid : Int
  call : Call
  deriving DecidableEq, Repr

structure Server where
  simfile : Files Int (Int × Int)
  points : Int → Point

def Server.goto (s : Server) (sid : Int) (point : Point) : Server :=
  { s with points := Function.update s.points sid point }

def start : Server :=
  { simfile := { named := none, contents := fun _ => (0, 0), fresh := 0, opened := fun _ => none }
    points := fun _ => .simSh }

section Steps

-- how `sim.sh` ends for each submission
variable (outcomes : Int → Outcome)

def perform (s : Server) (sid : Int) : Server :=
  match s.points sid with
  | .simSh =>
      match outcomes sid with
      | .failed => s.goto sid (.returned (0, 0))
      | .ran compared =>
          match simSh compared with
          | none => s.goto sid .stat
          | some found => { s with simfile := s.simfile.write found }.goto sid .stat
  | .stat => s.goto sid (if s.simfile.stat then .open_ else .remove (0, 0))
  | .open_ =>
      { s with simfile := s.simfile.open_ sid }.goto sid
        (if s.simfile.stat then .read else .remove (0, 0))
  | .read => s.goto sid (.remove ((s.simfile.read sid).getD (0, 0)))
  | .remove result => { s with simfile := s.simfile.unlink }.goto sid (.returned result)
  | .returned _ => s

def step (s : Server) (a : Action) : Option Server :=
  if (s.points a.sid).call = some a.call then some (perform outcomes s a.sid) else none

variable {outcomes}

theorem of_step {s t : Server} {a : Action} (taken : step outcomes s a = some t) :
    (s.points a.sid).call = some a.call ∧ t = perform outcomes s a.sid := by
  unfold step at taken
  split at taken
  · rename_i called
    exact ⟨called, (Option.some.inj taken).symm⟩
  · cases taken

/-- A call asks for the outcome of its own submission only. -/
theorem step_congr {outcomes' : Int → Outcome} {a : Action}
    (same : outcomes a.sid = outcomes' a.sid) (s : Server) :
    step outcomes s a = step outcomes' s a := by
  unfold step perform
  rw [same]

theorem perform_points {s : Server} {sid other : Int} (ne : other ≠ sid) :
    (perform outcomes s sid).points other = s.points other := by
  unfold perform
  split <;> try split
  all_goals try split
  all_goals simp [Server.goto, ne]

end Steps

/-! ## The schedule -/

section Schedule

variable (outcomes : Int → Outcome)

/-- What an action does to the name `./simfile`. -/
def event (a : Action) : Option (Event Int) :=
  match a.call with
  | .simSh => if (outcomes a.sid).found.isSome then some (.write a.sid) else none
  | .open_ => some (.open_ a.sid)
  | .remove => some .unlink
  | .stat | .read => none

def events (h : List Action) : List (Event Int) := h.filterMap (event outcomes)

/-- A submission with a finding looks at the name while somebody's finding is there; and
the file it reads was last written with what it has found itself. -/
def Undisturbed (h : List Action) (_ : Server) (a : Action) : Prop :=
  match a.call with
  | .stat | .open_ =>
      (outcomes a.sid).found.isSome → (writer (events outcomes h)).isSome
  | .read => ∃ last ∈ writer (reaching a.sid (events outcomes h)),
      (outcomes last).found = (outcomes a.sid).found
  | .simSh | .remove => True

instance (h : List Action) (s : Server) (a : Action) : Decidable (Undisturbed outcomes h s a) := by
  unfold Undisturbed
  split <;> infer_instance

theorem events_snoc (h : List Action) (a : Action) :
    events outcomes (h ++ [a]) = events outcomes h ++ (event outcomes a).toList := by
  cases found : event outcomes a <;> simp [events, found]

end Schedule

/-! ## What a run keeps -/

section Runs

variable {outcomes : Int → Outcome} {h : List Action} {s t : Server} {a : Action}

abbrev own (outcomes : Int → Outcome) (sid : Int) : Int × Int := (outcomes sid).own

/-- Each call does to the name what its event says. -/
theorem perform_simfile (called : (s.points a.sid).call = some a.call) :
    (perform outcomes s a.sid).simfile =
      (event outcomes a).elim s.simfile (s.simfile.apply (own outcomes)) := by
  obtain ⟨sid, call⟩ := a
  unfold perform
  cases point : s.points sid <;> simp only [point] at called ⊢ <;> cases called
  case simSh =>
      cases ended : outcomes sid with
      | failed => simp [event, ended, Outcome.found, Server.goto]
      | ran compared =>
          cases similar : simSh compared with
          | none => simp [event, ended, Outcome.found, similar, Server.goto]
          | some found =>
              simp [event, ended, Outcome.found, similar, Server.goto, Files.apply, Outcome.own]
  all_goals simp [event, Server.goto, Files.apply]

structure Kept (outcomes : Int → Outcome) (h : List Action) (s : Server) : Prop where
  simfile : Tracked (own outcomes) (events outcomes h) s.simfile
  early : ∀ sid, (s.points sid).Early → .open_ sid ∉ events outcomes h
  opened : ∀ sid, s.points sid = .read → (s.simfile.opened sid).isSome
  found : ∀ sid, .write sid ∈ events outcomes h → (outcomes sid).found.isSome

theorem kept_start : Kept outcomes [] start where
  simfile := .start _
  early := fun _ _ member => by cases member
  opened := fun sid point => by cases point
  found := fun sid member => by cases member

theorem event_eq_open_iff {sid : Int} :
    event outcomes a = some (.open_ sid) ↔ a.call = .open_ ∧ a.sid = sid := by
  unfold event
  split <;> rename_i call <;> simp [call]

theorem found_of_event {sid : Int} (write : event outcomes a = some (.write sid)) :
    (outcomes sid).found.isSome := by
  unfold event at write
  split at write
  · split at write
    · rename_i found
      cases write
      exact found
    · cases write
  all_goals cases write

theorem mem_events_snoc {e : Event Int} :
    e ∈ events outcomes (h ++ [a]) ↔ e ∈ events outcomes h ∨ event outcomes a = some e := by
  rw [events_snoc, List.mem_append, Option.mem_toList]

/-- Who has still to open the file is not opening it now. -/
theorem early_of_perform {sid : Int}
    (early : ((perform outcomes s sid).points sid).Early) :
    (s.points sid).Early ∧ (s.points sid).call ≠ some .open_ := by
  unfold perform at early
  cases point : s.points sid <;> simp only [point] at early
  case simSh => exact ⟨trivial, by decide⟩
  case stat => exact ⟨trivial, by decide⟩
  case open_ => cases there : s.simfile.stat <;> simp [there, Server.goto, Point.Early] at early
  all_goals simp [Server.goto, Point.Early] at early

/-- A file is read by those who have found it under its name. -/
theorem opened_of_perform {sid : Int}
    (reads : (perform outcomes s sid).points sid = .read) :
    ((perform outcomes s sid).simfile.opened sid).isSome := by
  unfold perform at reads ⊢
  cases point : s.points sid <;> simp only [point] at reads ⊢
  case simSh =>
      split at reads
      · simp [Server.goto] at reads
      · split at reads <;> simp [Server.goto] at reads
  case stat => split at reads <;> simp [Server.goto] at reads
  case open_ =>
      cases there : s.simfile.stat with
      | true => simpa [Server.goto, Naming.Files.open_, Naming.Files.stat] using there
      | false => simp [there, Server.goto] at reads
  all_goals simp [Server.goto] at reads

theorem Kept.next (kept : Kept outcomes h s) (taken : step outcomes s a = some t) :
    Kept outcomes (h ++ [a]) t := by
  obtain ⟨called, rfl⟩ := of_step taken
  refine ⟨?_, fun sid early member => ?_, fun sid reads => ?_, fun sid member => ?_⟩
  · rw [events_snoc, perform_simfile called]
    cases does : event outcomes a with
    | none => simpa using kept.simfile
    | some e =>
        refine kept.simfile.apply fun sid opens => ?_
        obtain ⟨call, rfl⟩ := event_eq_open_iff.1 (does.trans (congrArg some opens))
        refine kept.early a.sid ?_
        cases point : s.points a.sid <;> rw [point, call] at called <;> cases called
        trivial
  · rcases mem_events_snoc.1 member with before | opens
    · by_cases mine : sid = a.sid
      · subst mine
        exact kept.early _ (early_of_perform early).1 before
      · rw [perform_points mine] at early
        exact kept.early sid early before
    · obtain ⟨call, rfl⟩ := event_eq_open_iff.1 opens
      exact (early_of_perform early).2 (called.trans (congrArg some call))
  · by_cases mine : sid = a.sid
    · subst mine
      exact opened_of_perform reads
    · rw [perform_points mine] at reads
      have opened := kept.opened sid reads
      rw [perform_simfile called]
      cases does : event outcomes a with
      | none => exact opened
      | some e =>
          have other : e ≠ .open_ sid := fun same =>
            mine (event_eq_open_iff.1 (does.trans (congrArg some same))).2.symm
          rwa [Option.elim_some, Naming.Files.apply_opened other]
  · rcases mem_events_snoc.1 member with before | writes
    · exact kept.found sid before
    · exact found_of_event writes

theorem kept_of_run {guard : List Action → Server → Action → Prop}
    (run : Run (step outcomes) guard start h s) : Kept outcomes h s :=
  run.invariant kept_start fun _ _ _ _ _ kept _ taken => kept.next taken

/-! ## Own results -/

/-- Every result that is set is what the submission's own run has found. -/
def OwnResults (outcomes : Int → Outcome) (s : Server) : Prop :=
  ∀ sid result, (s.points sid).result = some result → result = own outcomes sid

/-- A result that is set stays. -/
theorem result_perform {sid other : Int} {result : Int × Int}
    (set_ : (s.points other).result = some result) :
    ((perform outcomes s sid).points other).result = some result := by
  by_cases mine : other = sid
  · subst mine
    unfold perform
    cases point : s.points other <;> rw [point] at set_ <;> cases set_
    · simp [Server.goto, Point.result]
    · simp [point, Point.result]
  · rwa [perform_points mine]

theorem ownResults_perform_iff (before : OwnResults outcomes s) (sid : Int) :
    OwnResults outcomes (perform outcomes s sid) ↔
      ∀ result, ((perform outcomes s sid).points sid).result = some result →
        result = own outcomes sid := by
  refine ⟨fun results => results sid, fun mine other result set_ => ?_⟩
  by_cases same : other = sid
  · subst same
    exact mine result set_
  · rw [perform_points same] at set_
    exact before other result set_

/-- A look at the name gives the submission its own result, or none yet. -/
theorem look_iff {sid : Int} {there : Bool} {later : Point} (none_ : later.result = none) :
    ((outcomes sid).found.isSome → there = true) ↔
      ∀ result, (if there then later else .remove (0, 0)).result = some result →
        result = own outcomes sid := by
  cases there with
  | true => simp [none_]
  | false =>
      have set_ : (if false = true then later else .remove (0, 0)).result = some (0, 0) := rfl
      rw [set_]
      cases similar : (outcomes sid).found with
      | none => simp [own, Outcome.own, similar]
      | some found =>
          have above := Outcome.found_gt similar
          simp only [Option.isSome_some, Bool.false_eq_true, imp_false, not_true_eq_false,
            false_iff]
          intro same
          have zero : (0, 0) = found := by simpa [own, Outcome.own, similar] using same
          rw [← zero] at above
          exact absurd above (by decide)

/-- What is read is what the last writer of the open file has found. -/
theorem Kept.read_eq (kept : Kept outcomes h s) {sid : Int} (reads : s.points sid = .read) :
    ∃ last, writer (reaching sid (events outcomes h)) = some last ∧
      (outcomes last).found.isSome ∧ s.simfile.read sid = some (own outcomes last) := by
  obtain ⟨n, opened⟩ := Option.isSome_iff_exists.1 (kept.opened sid reads)
  obtain ⟨-, last, wrote, holds⟩ := kept.simfile.opened sid n opened
  refine ⟨last, wrote, kept.found last ?_, ?_⟩
  · exact Naming.reaching_subset _ _ (Naming.mem_of_writer wrote)
  · rw [Naming.Files.read, opened, Option.map_some, holds]

theorem Kept.undisturbed_iff (kept : Kept outcomes h s) (before : OwnResults outcomes s)
    (taken : step outcomes s a = some t) :
    Undisturbed outcomes h s a ↔ OwnResults outcomes t := by
  obtain ⟨called, rfl⟩ := of_step taken
  obtain ⟨sid, call⟩ := a
  rw [ownResults_perform_iff before]
  cases point : s.points sid <;> simp only [point] at called <;> cases called
  case simSh =>
      refine iff_of_true trivial fun result set_ => ?_
      simp only [perform, point] at set_
      split at set_
      · rename_i failed
        simp only [Server.goto, Function.update_self, Point.result, Option.some.injEq] at set_
        rw [← set_, own, Outcome.own, failed]
        rfl
      · split at set_ <;> simp [Server.goto, Point.result] at set_
  case stat =>
      have after : (perform outcomes s sid).points sid =
          if s.simfile.stat then .open_ else .remove (0, 0) := by simp [perform, point, Server.goto]
      rw [after, ← look_iff rfl, kept.simfile.stat_eq]
      rfl
  case open_ =>
      have after : (perform outcomes s sid).points sid =
          if s.simfile.stat then .read else .remove (0, 0) := by simp [perform, point, Server.goto]
      rw [after, ← look_iff rfl, kept.simfile.stat_eq]
      rfl
  case read =>
      obtain ⟨last, wrote, similar, reads⟩ := kept.read_eq point
      have after : (perform outcomes s sid).points sid = .remove (own outcomes last) := by
        simp [perform, point, Server.goto, reads]
      rw [after]
      simp only [Undisturbed, wrote, Option.mem_some_iff, exists_eq_left', Point.result,
        Option.some.injEq, forall_eq']
      exact (Outcome.own_eq_iff similar).symm
  case remove result =>
      refine iff_of_true trivial fun result set_ => before sid result ?_
      simpa [perform, point, Server.goto, Point.result] using set_

/-- **No result of another**: every `get_sim` that has come to its result has what its own
run has found, just when no step on the way was disturbed. -/
theorem results_own_iff (outcomes : Int → Outcome) (h : List Action) (t : Server) :
    Run (step outcomes) Free start h t ∧ OwnResults outcomes t ↔
      Run (step outcomes) (Undisturbed outcomes) start h t := by
  constructor
  · rintro ⟨run, results⟩
    induction run with
    | start => exact .start
    | step before allowed taken ih =>
        obtain ⟨-, rfl⟩ := of_step taken
        have earlier : OwnResults outcomes _ := fun sid result set_ =>
          results sid result (result_perform set_)
        have undisturbed := ((kept_of_run before).undisturbed_iff earlier taken).2 results
        exact .step (ih earlier) undisturbed taken
  · intro run
    refine ⟨run.reguard fun _ _ _ _ _ _ _ => trivial, ?_⟩
    induction run with
    | start =>
        intro sid result set_
        cases set_
    | step before allowed taken results =>
        exact ((kept_of_run before).undisturbed_iff results taken).1 allowed

end Runs

/-! ## Two submissions -/

namespace Sample

/-- Submission 1 is like submission 7; submission 2 is like none. -/
def outcomes (sid : Int) : Outcome :=
  if sid = 1 then .ran [(5, some 12), (7, some 80)] else .ran [(1, some 12)]

/-- `get_sim` from `sim.sh` to the deferred `Remove`, where a file is there. -/
def reading (sid : Int) : List Action :=
  [⟨sid, .simSh⟩, ⟨sid, .stat⟩, ⟨sid, .open_⟩, ⟨sid, .read⟩, ⟨sid, .remove⟩]

/-- And where none is. -/
def missing (sid : Int) : List Action := [⟨sid, .stat⟩, ⟨sid, .remove⟩]

end Sample

example :
    ∃ t, Run (step Sample.outcomes) (Undisturbed Sample.outcomes) start
        (Sample.reading 1 ++ ⟨2, .simSh⟩ :: Sample.missing 2) t ∧
      t.points 1 = .returned (80, 7) ∧ t.points 2 = .returned (0, 0) :=
  ⟨_, Run.of_follow rfl, rfl, rfl⟩

/-- Submission 2 reads and removes what submission 1 has found. -/
theorem crossed_sample :
    ∃ t, Run (step Sample.outcomes) Free start
        (⟨1, .simSh⟩ :: Sample.reading 2 ++ Sample.missing 1) t ∧
      t.points 1 = .returned (0, 0) ∧ own Sample.outcomes 1 = (80, 7) ∧
      t.points 2 = .returned (80, 7) ∧ own Sample.outcomes 2 = (0, 0) :=
  ⟨_, Run.of_follow rfl, rfl, rfl, rfl, rfl⟩

end RunServer.Dispatch.Similarity
