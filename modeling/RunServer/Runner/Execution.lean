/-
# Runner.Execution -- tests whose program may not have been started

For each test `fork` and `execl` succeed or fail, and the parent watches whatever there
is: a child whose program may do anything to the files of the work directory (`Deed`), a
child that has exited behind a failed `execl`, or nobody.  An `Attempt` is one such
test, and `runAttempts` the test loop over them.

Which attempts are all accepted is a matter of what the processes do alone
(`AllPassed`, `runAttempts_accepted_iff`).  An attempt is `Executed` when its child has
become the given image of the program and the output compared is that child's.
-/
import RunServer.Runner.Attempt
import RunServer.Runner.Outside

namespace RunServer.Runner

open RunServer.Theory
open RunServer.Theory.Loop

set_option autoImplicit false

/-! ## What processes do -/

/-- What a process does to the files of its directory up to its next report, and the
report. -/
structure Deed where
  write : Directory → Directory
  status : Nat
  ruse : Rusage
  vmPeak : Int
  origRax : UInt64

def Feed.process : Feed Deed where
  write := Deed.write
  observe := fun files e d =>
    { status := e.status
      ruse := e.ruse
      vmPeak := e.vmPeak
      errorOut := d.size errorOutName
      userOut := d.size files.userfile
      answer := d.size files.outfile
      origRax := e.origRax }
  status := Deed.status
  ruse := Deed.ruse
  observe_status := fun _ _ _ => rfl
  observe_ruse := fun _ _ _ => rfl

/-- What the variables of a pass hold when `wait4` has failed. -/
structure Leftover where
  status : Nat
  ruse : Rusage
  vmPeak : Int
  origRax : UInt64
  deriving DecidableEq, Repr

def Event.deed (e : Event) : Deed :=
  { write := e.write, status := e.status, ruse := e.ruse, vmPeak := e.vmPeak
    origRax := e.origRax }

def Leftover.deed (l : Leftover) : Deed :=
  { write := id, status := l.status, ruse := l.ruse, vmPeak := l.vmPeak, origRax := l.origRax }

/-- `exit(0)` of `run_solution`, behind an `execl` that has failed. -/
def silentExit (ruse : Rusage) (vmPeak : Int) : Deed :=
  { write := id, status := 0, ruse, vmPeak, origRax := 0 }

/-! ## Attempts -/

inductive Child where
  /-- There is no child, and the variables of the watch hold these. -/
  | notForked (leftovers : List Leftover)
  | notExecuted (ruse : Rusage) (vmPeak : Int)
  | started (deeds : List Deed)

namespace Child

def deeds : Child → List Deed
  | .notForked leftovers => leftovers.map Leftover.deed
  | .notExecuted ruse vmPeak => [silentExit ruse vmPeak]
  | .started deeds => deeds

/-- Without a child nobody opens the files. -/
def opens (d : Directory) : Child → Directory
  | .notForked _ => d
  | .notExecuted .. => openFiles d
  | .started _ => openFiles d

end Child

structure Attempt where
  files : TestFiles
  child : Child
  prepared : ∃ dName, prepareFiles dName = .fellOff files

/-- The directory behind the test when nobody but the child has written. -/
def Attempt.leaves (a : Attempt) (d : Directory) : Directory :=
  Feed.process.after (Feed.process.life a.child.deeds) (a.child.opens d)

section Runs

variable (strsignal : Nat → String) (b : Build) (p : Parameters)

/-- The body of the test loop. -/
def runAttempt (d : Directory) (s : Progress) (a : Attempt) :
    Except Stuck (Directory × Progress) :=
  Feed.process.run strsignal b p (a.child.opens d) s a.files a.child.deeds

def runAttempts : Directory → Progress → List Attempt → Except Stuck (Directory × Progress)
  | d, s, [] => .ok (d, s)
  | d, s, a :: rest =>
      if s.judgeFlag = .AC then
        match runAttempt strsignal b p d s a with
        | .error stuck => .error stuck
        | .ok (d', s') => runAttempts d' s' rest
      else .ok (d, s)

variable {strsignal b p} in
theorem runAttempts_of_refused {s : Progress} (refused : s.judgeFlag ≠ .AC) (d : Directory)
    (attempts : List Attempt) : runAttempts strsignal b p d s attempts = .ok (d, s) := by
  cases attempts with
  | nil => rfl
  | cons a rest => rw [runAttempts, if_neg refused]

/-- A test of `Runner.Directory` is one whose program has been started, and writes to two
files only. -/
def Case.attempt (c : Case) : Attempt := ⟨c.files, .started (c.events.map Event.deed), c.prepared⟩

theorem runAttempt_started (d : Directory) (s : Progress) (c : Case) :
    runAttempt strsignal b p d s c.attempt = runCase strsignal b p d s c := by
  have pass : ∀ r e, Feed.process.pass strsignal b p c.files s.usedtime r (Event.deed e) =
      Feed.child.pass strsignal b p c.files s.usedtime r e := fun _ _ => rfl
  rw [runCase_eq]
  unfold runAttempt Feed.run Case.attempt Child.deeds Child.opens
  dsimp only
  rw [drive_map pass]
  cases drive (Feed.child.pass strsignal b p c.files s.usedtime) _ c.events with
  | waiting r => rfl
  | failed err => rfl
  | left r last => rfl

theorem runAttempts_started (d : Directory) (s : Progress) (cases_ : List Case) :
    runAttempts strsignal b p d s (cases_.map Case.attempt) =
      runCases strsignal b p d s cases_ := by
  induction cases_ generalizing d s with
  | nil => rfl
  | cons c rest ih =>
      rw [List.map_cons, runAttempts, runCases, runAttempt_started]
      split
      · cases runCase strsignal b p d s c with
        | error stuck => rfl
        | ok r => exact ih r.1 r.2
      · rfl

end Runs

/-! ## Accepted tests -/

/-- What the parent reads with each report while nobody but the child writes. -/
def observations (files : TestFiles) : Directory → List Deed → List Observation
  | _, [] => []
  | d, e :: rest =>
      Feed.process.observe files e (e.write d) :: observations files (e.write d) rest

/-- The child makes allowed stops and exits within the limits, with `usedtime` and
`topmemory` before it, and these after. -/
structure Passed (recordCall : Bool) (p : Parameters) (usedtime topmemory : Int) (d : Directory)
    (a : Attempt) (usedtime' topmemory' : Int) : Prop where
  watched : ∃ stops e post, a.child.deeds = stops ++ e :: post ∧
    EachAfter (Allowed recordCall p usedtime topmemory)
      (observations a.files (a.child.opens d) stops) ∧
    Exits p usedtime
      (runningMax topmemory
        ((observations a.files (a.child.opens d) stops).map (tempmemory p.lang)))
      (Feed.process.observe a.files e
        (e.write (Feed.process.after stops (a.child.opens d)))) ∧
    usedtime' = chargeTime usedtime e.ruse ∧
    topmemory' = runningMax topmemory
      ((observations a.files (a.child.opens d) (stops ++ [e])).map (tempmemory p.lang))
  compared : compare (a.leaves d a.files.outfile) (a.leaves d a.files.userfile) = some .AC

/-- Every test is passed, one after the other. -/
inductive AllPassed (recordCall : Bool) (p : Parameters) :
    Int → Int → Directory → List Attempt → Prop
  | nil {usedtime topmemory : Int} {d : Directory} : AllPassed recordCall p usedtime topmemory d []
  | cons {usedtime topmemory usedtime' topmemory' : Int} {d : Directory} {a : Attempt}
      {rest : List Attempt} :
      Passed recordCall p usedtime topmemory d a usedtime' topmemory' →
      AllPassed recordCall p usedtime' topmemory' (a.leaves d) rest →
      AllPassed recordCall p usedtime topmemory d (a :: rest)

theorem observations_snoc (files : TestFiles) (d : Directory) (stops : List Deed) (e : Deed) :
    observations files d (stops ++ [e]) =
      observations files d stops ++
        [Feed.process.observe files e (e.write (Feed.process.after stops d))] := by
  induction stops generalizing d with
  | nil => rfl
  | cons first stops ih =>
      rw [List.cons_append, observations, ih]
      rfl

section Watched

variable {strsignal : Nat → String} {b : Build} {p : Parameters} {files : TestFiles}
variable {usedtime : Int} {r r' : Running} {e : Deed}

theorem iteration_of_again
    (turn : Feed.process.pass strsignal b p files usedtime r e = .ok (.again r')) :
    iteration b.recordCall p usedtime r.watch (Feed.process.observe files e (e.write r.dir)) =
      .ok (.again r'.watch) := by
  unfold Feed.pass at turn
  dsimp only at turn
  split at turn
  · cases turn
  · cases turn
  · rename_i w again
    cases turn
    exact again

theorem iteration_of_leave
    (turn : Feed.process.pass strsignal b p files usedtime r e = .ok (.leave r')) :
    iteration b.recordCall p usedtime r.watch (Feed.process.observe files e (e.write r.dir)) =
      .ok (.leave r'.watch) := by
  unfold Feed.pass at turn
  dsimp only at turn
  split at turn
  · cases turn
  · rename_i w leaves
    cases turn
    exact leaves
  · cases turn

/-- A flag that ends as `JudgeAC` has never been anything else. -/
theorem passes_untouched {w w' : Watch} {stops : List Observation}
    (run : Passes (iteration b.recordCall p usedtime) w stops w') (accepted : w'.judgeFlag = .AC) :
    w.judgeFlag = .AC := by
  rcases passes_judgeFlag run with same | flagged
  · exact same.symm.trans accepted
  · rw [flagged] at accepted
    cases accepted

/-- **Passes in the directory** that keep the flag are passes over what the parent reads. -/
theorem passes_deeds_iff {w w' : Watch} {d d' : Directory} {stops : List Deed}
    (accepted : w'.judgeFlag = .AC) :
    Passes (Feed.process.pass strsignal b p files usedtime) ⟨w, d⟩ stops ⟨w', d'⟩ ↔
      Passes (iteration b.recordCall p usedtime) w (observations files d stops) w' ∧
        d' = Feed.process.after stops d := by
  induction stops generalizing w d with
  | nil =>
      constructor
      · intro run
        cases run
        exact ⟨.nil _, rfl⟩
      · rintro ⟨run, rfl⟩
        cases run
        exact .nil _
  | cons e stops ih =>
      constructor
      · intro run
        cases run with
        | @cons _ r _ _ _ turn tail =>
            obtain ⟨w₁, d₁⟩ := r
            have reads := iteration_of_again turn
            have later := ih.1 tail
            have untouched := passes_untouched later.1 accepted
            obtain rfl : d₁ = e.write d := ((Feed.pass_again turn).2 untouched).2
            exact ⟨.cons reads later.1, later.2⟩
      · rintro ⟨run, rfl⟩
        cases run with
        | @cons _ w₁ _ _ _ turn tail =>
            have quiet := quiet_of_again turn (passes_untouched tail accepted)
            refine .cons (t := ⟨w₁, e.write d⟩) ?_ (ih.2 ⟨tail, rfl⟩)
            have reads : iteration b.recordCall p usedtime w
                (Feed.process.observe files e (Feed.process.write e d)) = .ok (.again w₁) := turn
            simp only [Feed.pass, reads, quiet, List.foldl_cons, List.foldl_nil, Request.write]
            rfl

end Watched

section Accepted

variable {strsignal : Nat → String} {b : Build} {p : Parameters} {d d' : Directory}
variable {s s' : Progress} {a : Attempt}

theorem leaves_of_life {stops post : List Deed} {e : Deed}
    (deeds : a.child.deeds = stops ++ e :: post)
    (running : ∀ x ∈ stops, wifexited x.status = false) (exited : wifexited e.status = true) :
    a.leaves d = e.write (Feed.process.after stops (a.child.opens d)) := by
  have life : Feed.process.life a.child.deeds = stops ++ [e] := by
    rw [deeds]
    exact upTo_append running exited
  rw [Attempt.leaves, life, Feed.after, Feed.after, List.foldl_append]
  rfl

/-- **An accepted test is passed.** -/
theorem passed_of_accepted (ran : runAttempt strsignal b p d s a = .ok (d', s'))
    (accepted : s'.judgeFlag = .AC) :
    Passed b.recordCall p s.usedtime s.topmemory d a s'.usedtime s'.topmemory ∧
      d' = a.leaves d := by
  unfold runAttempt Feed.run at ran
  dsimp only at ran
  split at ran
  · cases ran
  · cases ran
  · rename_i r last ended
    obtain ⟨stops, post, ⟨w, dir⟩, split_, passes, leaves⟩ := drive_left_iff.1 ended
    split at ran
    · rename_i flag
      split at ran
      · cases ran
      · rename_i judged
        cases ran
        cases accepted
        obtain ⟨untouched, written, exited, -, -⟩ := Feed.pass_leave leaves flag
        obtain ⟨-, running⟩ := Feed.passes_accepted passes untouched
        obtain ⟨run, rfl⟩ := (passes_deeds_iff untouched).1 passes
        have dir : r.dir = a.leaves d :=
          written.trans (leaves_of_life split_ running exited).symm
        have reads := iteration_of_leave leaves
        have peak : w.topmemory = _ := passes_topmemory run
        rcases exits_of_leave reads with ⟨exits, final⟩ | blamed
        · refine ⟨⟨⟨stops, last, post, split_, ?_, ?_, rfl, ?_⟩, ?_⟩, dir⟩
          · exact passes_allowed_iff.1 ⟨w, run, untouched⟩
          · exact peak ▸ exits
          · rw [observations_snoc, List.map_append, runningMax_append]
            show r.watch.topmemory = _
            rw [final]
            exact congrArg (max · _) peak
          · rw [← dir]
            exact judgeSolution_of_accepted judged
        · exact absurd flag blamed.ne_AC
    · rename_i refused
      cases ran
      exact absurd accepted refused

variable (strsignal) in
/-- **A passed test is accepted.** -/
theorem accepted_of_passed {usedtime topmemory : Int}
    (passed : Passed b.recordCall p s.usedtime s.topmemory d a usedtime topmemory) :
    ∃ s', runAttempt strsignal b p d s a = .ok (a.leaves d, s') ∧ s'.judgeFlag = .AC ∧
      s'.usedtime = usedtime ∧ s'.topmemory = topmemory ∧ s'.count = s.count + 1 := by
  obtain ⟨⟨stops, e, post, deeds, allowed, exits, rfl, rfl⟩, compared⟩ := passed
  obtain ⟨w, run, untouched⟩ := passes_allowed_iff.2 allowed
  have passes : Passes (Feed.process.pass strsignal b p a.files s.usedtime) _ stops _ :=
    (passes_deeds_iff untouched).2 ⟨run, rfl⟩
  obtain ⟨-, running⟩ := Feed.passes_accepted passes untouched
  have left := leaves_of_life (d := d) deeds running exits.exited
  have peak : w.topmemory = _ := passes_topmemory run
  rw [left] at compared ⊢
  let dir := e.write (Feed.process.after stops (a.child.opens d))
  let o := Feed.process.observe a.files e dir
  have ends : Exits p s.usedtime w.topmemory o := by
    rw [peak]
    exact exits
  have leaves : Feed.process.pass strsignal b p a.files s.usedtime
      ⟨w, Feed.process.after stops (a.child.opens d)⟩ e =
      .ok (.leave
        ⟨{ w with topmemory := max w.topmemory (tempmemory p.lang o), requests := [] }, dir⟩) := by
    have reads := @iteration_of_exits b.recordCall p s.usedtime w o ends
    unfold Feed.pass
    dsimp only
    rw [show iteration b.recordCall p s.usedtime w (Feed.process.observe a.files e
      (Feed.process.write e (Feed.process.after stops (a.child.opens d)))) = _ from reads]
    rfl
  have ended := drive_left_iff.2 ⟨stops, post, _, deeds, passes, leaves⟩
  have judged : judgeSolution p (chargeTime s.usedtime e.ruse)
      (max w.topmemory (tempmemory p.lang o)) (dir a.files.outfile) (dir a.files.userfile) =
      some .AC := by
    have time : chargeTime s.usedtime e.ruse < p.timeLimit := ends.time
    unfold judgeSolution
    rw [if_neg (not_lt.2 time.le), if_neg (not_lt.2 ends.memory)]
    exact compared
  refine ⟨⟨.AC, chargeTime s.usedtime e.ruse, max w.topmemory (tempmemory p.lang o), s.count + 1,
    w.callCounter⟩, ?_, rfl, rfl, ?_, rfl⟩
  · unfold runAttempt Feed.run
    dsimp only
    rw [ended]
    simp only [untouched, if_true]
    rw [show judgeSolution p (chargeTime s.usedtime (Feed.process.ruse e)) _ _ _ = _ from judged]
    rfl
  · rw [observations_snoc, List.map_append, runningMax_append, peak]
    rfl

variable (strsignal) in
/-- **Tests are accepted exactly when every one of them is passed.** -/
theorem runAttempts_accepted_iff {attempts : List Attempt} (start : s.judgeFlag = .AC) :
    (∃ d' s', runAttempts strsignal b p d s attempts = .ok (d', s') ∧ s'.judgeFlag = .AC) ↔
      AllPassed b.recordCall p s.usedtime s.topmemory d attempts := by
  induction attempts generalizing d s with
  | nil => exact ⟨fun _ => .nil, fun _ => ⟨d, s, rfl, start⟩⟩
  | cons a rest ih =>
      rw [runAttempts, if_pos start]
      constructor
      · rintro ⟨d', s', ran, accepted⟩
        split at ran
        · cases ran
        · rename_i next s'' one
          by_cases flag : s''.judgeFlag = .AC
          · obtain ⟨passed, rfl⟩ := passed_of_accepted one flag
            exact .cons passed ((ih flag).1 ⟨d', s', ran, accepted⟩)
          · rw [runAttempts_of_refused flag] at ran
            cases ran
            exact absurd accepted flag
      · intro all
        cases all with
        | cons passed later =>
            obtain ⟨s'', one, flag, rfl, rfl, -⟩ := accepted_of_passed strsignal passed
            rw [one]
            exact (ih flag).2 later

theorem runAttempt_count (ran : runAttempt strsignal b p d s a = .ok (d', s')) :
    s'.count = s.count + 1 := by
  unfold runAttempt Feed.run at ran
  dsimp only at ran
  split at ran
  · cases ran
  · cases ran
  · split at ran
    · split at ran
      · cases ran
      · cases ran
        rfl
    · cases ran
      rfl

theorem runAttempts_count {attempts : List Attempt}
    (ran : runAttempts strsignal b p d s attempts = .ok (d', s')) : s.count ≤ s'.count := by
  induction attempts generalizing d s with
  | nil =>
      cases ran
      exact le_rfl
  | cons a rest ih =>
      rw [runAttempts] at ran
      split at ran
      · split at ran
        · cases ran
        · rename_i next s'' one
          have first := runAttempt_count one
          have later := ih ran
          omega
      · cases ran
        exact le_rfl

/-- A loop with a test to run has counted it. -/
theorem runAttempts_counted {attempts : List Attempt} (start : s.judgeFlag = .AC)
    (some_ : attempts ≠ []) (ran : runAttempts strsignal b p d s attempts = .ok (d', s')) :
    s'.count ≠ 0 := by
  cases attempts with
  | nil => exact absurd rfl some_
  | cons a rest =>
      rw [runAttempts, if_pos start] at ran
      split at ran
      · cases ran
      · rename_i next s'' one
        have first := runAttempt_count one
        have later := runAttempts_count ran
        omega

end Accepted

/-! ## Runs past the table -/

section Undefined

variable (strsignal : Nat → String) (b : Build) (p : Parameters)

/-- In the run over these attempts the check is reached at `o`. -/
structure ChecksIn (d₀ : Directory) (s₀ : Progress) (attempts : List Attempt) (o : Observation) :
    Prop where
  reached : ∃ before a after d s stops e post r, attempts = before ++ a :: after ∧
    runAttempts strsignal b p d₀ s₀ before = .ok (d, s) ∧ s.judgeFlag = .AC ∧
    a.child.deeds = stops ++ e :: post ∧
    Passes (Feed.process.pass strsignal b p a.files s.usedtime)
      ⟨startWatch s.topmemory (initSyscallsLimits b.recordCall p.lang), a.child.opens d⟩ stops r ∧
    o = Feed.process.observe a.files e (e.write r.dir) ∧
    Passable p s.usedtime r.watch.topmemory o

variable {strsignal b p} {d₀ : Directory} {s₀ : Progress} {attempts : List Attempt}

theorem runAttempts_append (before after : List Attempt) :
    runAttempts strsignal b p d₀ s₀ (before ++ after) =
      match runAttempts strsignal b p d₀ s₀ before with
      | .error stuck => .error stuck
      | .ok (d, s) => runAttempts strsignal b p d s after := by
  induction before generalizing d₀ s₀ with
  | nil => rfl
  | cons a before ih =>
      rw [List.cons_append, runAttempts, runAttempts]
      split
      · cases runAttempt strsignal b p d₀ s₀ a with
        | error stuck => rfl
        | ok r => exact ih
      · rename_i refused
        dsimp only
        exact (runAttempts_of_refused refused d₀ after).symm

theorem checksIn_of_undefined
    (failed : runAttempts strsignal b p d₀ s₀ attempts = .error .undefined) :
    ∃ o, ChecksIn strsignal b p d₀ s₀ attempts o ∧ callArraySize ≤ o.origRax.toNat := by
  induction attempts generalizing d₀ s₀ with
  | nil => cases failed
  | cons a rest ih =>
      rw [runAttempts] at failed
      split at failed
      · rename_i accepted
        split at failed
        · rename_i stuck one
          cases failed
          unfold runAttempt Feed.run at one
          dsimp only at one
          split at one
          · cases one
          · rename_i err ended
            obtain ⟨stops, e, post, r, split_, run, fails⟩ := drive_failed_iff.1 ended
            unfold Feed.pass at fails
            dsimp only at fails
            split at fails
            · rename_i err' reads
              obtain ⟨pass, past⟩ := outside_of_error reads
              exact ⟨_, ⟨[], a, rest, d₀, s₀, stops, e, post, r, rfl, rfl, accepted, split_, run,
                rfl, pass⟩, past⟩
            · cases fails
            · cases fails
          · split at one
            · split at one <;> cases one
            · cases one
        · rename_i next s' one
          obtain ⟨o, ⟨before, a', after, d, s, stops, e, post, r, split_, ran, visit⟩, past⟩ :=
            ih failed
          refine ⟨o, ⟨a :: before, a', after, d, s, stops, e, post, r, by rw [split_]; rfl, ?_,
            visit⟩, past⟩
          rw [runAttempts, if_pos accepted, one]
          exact ran
      · cases failed

theorem undefined_of_checksIn {o : Observation} (visit : ChecksIn strsignal b p d₀ s₀ attempts o)
    (past : callArraySize ≤ o.origRax.toNat) :
    runAttempts strsignal b p d₀ s₀ attempts = .error .undefined := by
  obtain ⟨before, a, after, d, s, stops, e, post, r, rfl, ran, accepted, split, run, rfl, pass⟩ :=
    visit.reached
  have reads : iteration b.recordCall p s.usedtime r.watch
      (Feed.process.observe a.files e (Feed.process.write e r.dir)) = _ :=
    error_of_outside pass past
  have fails : Feed.process.pass strsignal b p a.files s.usedtime r e =
      .error (.outOfBounds e.origRax) := by
    unfold Feed.pass
    dsimp only
    rw [reads]
    rfl
  have ended := drive_failed_iff.2 ⟨stops, e, post, r, split, run, fails⟩
  have one : runAttempt strsignal b p d s a = .error .undefined := by
    unfold runAttempt Feed.run
    dsimp only
    rw [ended]
  rw [runAttempts_append, ran]
  dsimp only
  rw [runAttempts, if_pos accepted, one]

variable (strsignal b p d₀ s₀ attempts) in
/-- **A run over attempts is undefined exactly when the check is reached at a number past
the table.** -/
theorem runAttempts_undefined_iff :
    runAttempts strsignal b p d₀ s₀ attempts = .error .undefined ↔
      ∃ o, ChecksIn strsignal b p d₀ s₀ attempts o ∧ callArraySize ≤ o.origRax.toNat := by
  constructor
  · exact checksIn_of_undefined
  · rintro ⟨o, visit, past⟩
    exact undefined_of_checksIn visit past

end Undefined

/-! ## Whose program, and whose output -/

/-- `"Main"` and `"Main.class"`: the file that becomes the child's program. -/
def imageName (lang : Int) : List UInt8 :=
  if lang = langJava then [77, 97, 105, 110, 46, 99, 108, 97, 115, 115] else [77, 97, 105, 110]

/-- The child has been forked, `execl` has succeeded, and the file is the given image. -/
structure Attempt.Started (a : Attempt) (lang : Int) (image : Option (List UInt8))
    (d : Directory) : Prop where
  started : ∃ deeds, a.child = .started deeds
  image : ∃ bytes, image = some bytes ∧ a.child.opens d (imageName lang) = some bytes

/-- The image of the program has been started, and what is compared is what its child has
made of an empty `user.out`. -/
structure Attempt.Executed (a : Attempt) (strsignal : Nat → String) (b : Build) (p : Parameters)
    (image : Option (List UInt8)) (d : Directory) : Prop where
  started : a.Started p.lang image d
  output : ∀ s d' s', runAttempt strsignal b p d s a = .ok (d', s') → s'.judgeFlag = .AC →
    a.child.opens d userOutName = some [] ∧
      d' = Feed.process.after (Feed.process.life a.child.deeds) (a.child.opens d)

/-- The tests one after the other, each in the directory behind the one before. -/
def Along (P : Directory → Attempt → Prop) : Directory → List Attempt → Prop
  | _, [] => True
  | d, a :: rest => P d a ∧ Along P (a.leaves d) rest

theorem Along.imp {P Q : Directory → Attempt → Prop} (weaker : ∀ d a, P d a → Q d a)
    {d : Directory} {attempts : List Attempt} (along : Along P d attempts) :
    Along Q d attempts := by
  induction attempts generalizing d with
  | nil => trivial
  | cons a rest ih => exact ⟨weaker d a along.1, ih along.2⟩

/-- A child that has been started is the one whose output is compared. -/
theorem executed_iff_started (strsignal : Nat → String) (b : Build) (p : Parameters)
    (image : Option (List UInt8)) (d : Directory) (a : Attempt) :
    a.Executed strsignal b p image d ↔ a.Started p.lang image d := by
  refine ⟨Attempt.Executed.started, fun started => ⟨started, fun s d' s' ran accepted => ?_⟩⟩
  obtain ⟨deeds, child⟩ := started.started
  refine ⟨?_, (passed_of_accepted ran accepted).2⟩
  rw [child]
  exact openFiles_userOut d

end RunServer.Runner
