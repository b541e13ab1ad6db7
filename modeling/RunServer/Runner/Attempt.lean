/-
# Runner.Attempt -- the parent's part of a test

What a pass of `watch_solution` is fed is a `Feed`: processes that do something to the
files of the work directory up to their next report.  `Feed.run` is the body of the test
loop over any such feed, from a directory in which the files are open; the children of
`Runner.Directory` are one (`runCase_eq`).  What it takes to be accepted is the same for
all of them (`Feed.run_accepted`).
-/
import RunServer.Runner.Directory

namespace RunServer.Runner

open RunServer.Theory
open RunServer.Theory.Loop

set_option autoImplicit false

/-! ## What a pass is fed -/

structure Feed (α : Type) where
  write : α → Directory → Directory
  observe : TestFiles → α → Directory → Observation
  status : α → Nat
  ruse : α → Rusage
  observe_status : ∀ files e d, (observe files e d).status = status e
  observe_ruse : ∀ files e d, (observe files e d).ruse = ruse e

namespace Feed

def child : Feed Event where
  write := Event.write
  observe := fun files e d => e.observe files d
  status := Event.status
  ruse := Event.ruse
  observe_status := fun _ _ _ => rfl
  observe_ruse := fun _ _ _ => rfl

section Run

variable {α : Type} (feed : Feed α) (strsignal : Nat → String) (b : Build) (p : Parameters)

/-- One pass of `watch_solution`. -/
def pass (files : TestFiles) (usedtime : Int) (r : Running) (e : α) :
    Except Undefined (Turn Running) :=
  let d := feed.write e r.dir
  match iteration b.recordCall p usedtime r.watch (feed.observe files e d) with
  | .error err => .error err
  | .ok (.leave w) => .ok (.leave ⟨w, w.requests.foldl (Request.write strsignal) d⟩)
  | .ok (.again w) => .ok (.again ⟨w, w.requests.foldl (Request.write strsignal) d⟩)

/-- The parent's part of the test loop, from a directory in which the files are open. -/
def run (d : Directory) (s : Progress) (files : TestFiles) (reports : List α) :
    Except Stuck (Directory × Progress) :=
  let start : Running := ⟨startWatch s.topmemory (initSyscallsLimits b.recordCall p.lang), d⟩
  match drive (feed.pass strsignal b p files s.usedtime) start reports with
  | .waiting _ => .error .unfinished
  | .failed _ => .error .undefined
  | .left r last =>
      let usedtime := chargeTime s.usedtime (feed.ruse last)
      let s' : Progress :=
        { judgeFlag := r.watch.judgeFlag, usedtime, topmemory := r.watch.topmemory,
          count := s.count + 1, callCounter := r.watch.callCounter }
      if r.watch.judgeFlag = .AC then
        match judgeSolution p usedtime r.watch.topmemory (r.dir files.outfile)
            (r.dir files.userfile) with
        | none => .error .unfinished
        | some judgeFlag => .ok (r.dir, { s' with judgeFlag })
      else .ok (r.dir, s')

/-- The reports up to an exit. -/
def life (reports : List α) : List α := upTo (fun e => wifexited (feed.status e)) reports

/-- The directory after these reports. -/
def after (reports : List α) (d : Directory) : Directory :=
  reports.foldl (fun d e => feed.write e d) d

end Run

end Feed

/-- `Runner.Directory` is the case of a child that has started. -/
theorem runCase_eq (strsignal : Nat → String) (b : Build) (p : Parameters) (d : Directory)
    (s : Progress) (c : Case) :
    runCase strsignal b p d s c =
      Feed.child.run strsignal b p (openFiles d) s c.files c.events := by
  have pass : iterationIn strsignal b.recordCall p c.files s.usedtime =
      Feed.child.pass strsignal b p c.files s.usedtime := by
    funext r e
    rfl
  unfold runCase Feed.run
  rw [pass]
  dsimp only
  cases drive (Feed.child.pass strsignal b p c.files s.usedtime) _ c.events with
  | waiting r => rfl
  | failed err => rfl
  | left r last => rfl

/-! ## Accepted tests -/

/-- What `main` holds while tests are accepted: enough for the next one to start in. -/
structure Ready (p : Parameters) (s : Progress) : Prop where
  accepted : s.judgeFlag = .AC
  time : s.usedtime < p.timeLimit
  stored : int32 s.usedtime = s.usedtime
  memory : s.topmemory ≤ p.memoryLimit

theorem ready_start {p : Parameters} : Ready p startProgress := by
  have time := p.timeLimit_range
  have memory := p.memoryLimit_range
  unfold stdMB at memory
  refine ⟨rfl, ?_, rfl, ?_⟩
  · show (0 : Int) < p.timeLimit
    omega
  · show (0 : Int) ≤ p.memoryLimit
    omega

/-- A pass that leaves the flag at `JudgeAC` reports no error. -/
theorem quiet_of_again {recordCall : Bool} {p : Parameters} {usedtime : Int} {w w' : Watch}
    {o : Observation} (turn : iteration recordCall p usedtime w o = .ok (.again w'))
    (accepted : w'.judgeFlag = .AC) : w'.requests = [.ptraceGetregs, .ptraceSyscall] := by
  obtain ⟨-, checks⟩ := passable_of_again turn
  unfold checkSyscall at checks
  split at checks
  · dsimp only at checks
    split at checks
    · cases checks
      cases accepted
    · cases checks
      rfl
  · cases checks

theorem judgeSolution_of_accepted {p : Parameters} {usedtime topmemory : Int}
    {outfile userfile : Option (List UInt8)}
    (accepted : judgeSolution p usedtime topmemory outfile userfile = some .AC) :
    compare outfile userfile = some .AC := by
  unfold judgeSolution at accepted
  split at accepted
  · cases accepted
  · split at accepted
    · cases accepted
    · exact accepted

namespace Feed

section Accepted

variable {α : Type} {feed : Feed α} {strsignal : Nat → String} {b : Build} {p : Parameters}
variable {files : TestFiles}

theorem pass_again {usedtime : Int} {r r' : Running} {e : α}
    (turn : feed.pass strsignal b p files usedtime r e = .ok (.again r')) :
    wifexited (feed.status e) = false ∧
      (r'.watch.judgeFlag = .AC → r.watch.judgeFlag = .AC ∧ r'.dir = feed.write e r.dir) := by
  unfold pass at turn
  dsimp only at turn
  split at turn
  · cases turn
  · cases turn
  · rename_i w again
    cases turn
    have running := (passable_of_again again).1.running
    rw [feed.observe_status] at running
    refine ⟨running, fun accepted => ⟨?_, ?_⟩⟩
    · rcases (again_variables again).2.2 with same | flagged
      · exact same.symm.trans accepted
      · exact absurd (flagged.symm.trans accepted) (by decide)
    · simp only [quiet_of_again again accepted, List.foldl_cons, List.foldl_nil, Request.write]

theorem pass_leave {usedtime : Int} {r r' : Running} {e : α}
    (turn : feed.pass strsignal b p files usedtime r e = .ok (.leave r'))
    (accepted : r'.watch.judgeFlag = .AC) :
    r.watch.judgeFlag = .AC ∧ r'.dir = feed.write e r.dir ∧
      wifexited (feed.status e) = true ∧ chargeTime usedtime (feed.ruse e) < p.timeLimit ∧
      r'.watch.topmemory ≤ p.memoryLimit := by
  unfold pass at turn
  dsimp only at turn
  split at turn
  · cases turn
  · rename_i w leaves
    cases turn
    rcases exits_of_leave leaves with ⟨exits, rfl⟩ | blamed
    · have exited := exits.exited
      have time := exits.time
      rw [feed.observe_status] at exited
      rw [feed.observe_ruse] at time
      exact ⟨accepted, rfl, exited, time, exits.memory⟩
    · exact absurd accepted blamed.ne_AC
  · cases turn

/-- While the flag is `JudgeAC`, only the child has written, and it is alive. -/
theorem passes_accepted {usedtime : Int} {start r : Running} {reports : List α}
    (run : Passes (feed.pass strsignal b p files usedtime) start reports r)
    (accepted : r.watch.judgeFlag = .AC) :
    r.dir = feed.after reports start.dir ∧
      ∀ e ∈ reports, wifexited (feed.status e) = false := by
  refine run.invariant
    (I := fun reports r => r.watch.judgeFlag = .AC →
      r.dir = feed.after reports start.dir ∧
        ∀ e ∈ reports, wifexited (feed.status e) = false)
    (fun _ => ⟨rfl, by simp⟩) ?_ accepted
  intro read m e m' _ held turn flag
  obtain ⟨running, quiet⟩ := pass_again turn
  obtain ⟨before, written⟩ := quiet flag
  obtain ⟨dir, earlier⟩ := held before
  refine ⟨by rw [written, dir, after, after, List.foldl_append]; rfl, fun x member => ?_⟩
  rcases List.mem_append.1 member with inside | here
  · exact earlier x inside
  · rw [List.mem_singleton.1 here]
    exact running

/-- What an accepted test leaves. -/
structure Accepted (feed : Feed α) (p : Parameters) (d : Directory) (s : Progress)
    (files : TestFiles) (reports : List α) (d' : Directory) (s' : Progress) : Prop where
  ready : Ready p s'
  count : s'.count = s.count + 1
  dir : d' = feed.after (feed.life reports) d
  compared : compare (d' files.outfile) (d' files.userfile) = some .AC

/-- **An accepted test**: the child's writes until its exit, and a comparison that accepts. -/
theorem run_accepted {d d' : Directory} {s s' : Progress} {reports : List α}
    (ran : feed.run strsignal b p d s files reports = .ok (d', s'))
    (accepted : s'.judgeFlag = .AC) : Accepted feed p d s files reports d' s' := by
  unfold run at ran
  dsimp only at ran
  split at ran
  · cases ran
  · cases ran
  · rename_i r last ended
    obtain ⟨pre, post, before, split_, passes, leaves⟩ := drive_left_iff.1 ended
    split at ran
    · rename_i flag
      split at ran
      · cases ran
      · rename_i judged
        cases ran
        cases accepted
        obtain ⟨untouched, written, exited, time, memory⟩ := pass_leave leaves flag
        obtain ⟨dir, running⟩ := passes_accepted passes untouched
        have life : feed.life reports = pre ++ [last] := by
          rw [split_]
          exact upTo_append running exited
        refine ⟨⟨rfl, time, int32_int32 _, memory⟩, rfl, ?_, judgeSolution_of_accepted judged⟩
        rw [written, dir, life, after, after, List.foldl_append]
        rfl
    · rename_i refused
      cases ran
      exact absurd accepted refused

end Accepted

end Feed

end RunServer.Runner
